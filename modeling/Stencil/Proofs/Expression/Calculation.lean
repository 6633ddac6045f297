/-
Arithmetic on integers is exact or refused.

A calculation is an expression of integers, joined by the operators that give integers again. Over
the integers without bounds each of its steps has a result, `Calculation.exact`, if it does not
divide by zero; and `Calculation.steps` are its steps in the order in which they are taken. The
first step that cannot be taken in 64 bits is the failure of the whole, and if there is none the
value is the exact result. A step can be taken if its exact result has 64 bits, with one exception:
the remainder of the least integer by minus one is zero, but is refused with its quotient.
-/
import Mathlib
import Stencil.Expression

namespace Stencil

/-- Whether a number is one of 64 bits. -/
def Fits (n : Int) : Prop := Int64.minValue.toInt ≤ n ∧ n ≤ Int64.maxValue.toInt

instance (n : Int) : Decidable (Fits n) := inferInstanceAs (Decidable (_ ∧ _))

theorem fits_iff {n : Int} : Fits n ↔ -9223372036854775808 ≤ n ∧ n ≤ 9223372036854775807 := by
  rw [Fits, Int64.toInt_minValue, Int64.toInt_maxValue]
  exact Iff.rfl

theorem fits_toInt (n : Int64) : Fits n.toInt := ⟨n.minValue_le_toInt, n.toInt_le⟩

theorem narrow?_of_fits {n : Int} (h : Fits n) : narrow? n = some (Int64.ofInt n) := if_pos h

theorem narrow?_of_not_fits {n : Int} (h : ¬ Fits n) : narrow? n = none := if_neg h

theorem toInt_ofInt_of_fits {n : Int} (h : Fits n) : (Int64.ofInt n).toInt = n :=
  toInt_of_narrow? (narrow?_of_fits h)

/-- A remainder is not further from zero than the divisor. -/
theorem fits_tmod {n : Int} (m : Int) (hn : Fits n) (hzero : n ≠ 0) : Fits (m.tmod n) := by
  rw [fits_iff] at *
  have habs := Int.natAbs_tmod m n
  have hlt := Nat.mod_lt m.natAbs (Int.natAbs_pos.2 hzero)
  omega

/-- A quotient is not further from zero than the dividend, and at most half as far if the divisor
is not one or minus one. -/
theorem fits_tdiv_iff {m n : Int} (hm : Fits m) (hzero : n ≠ 0) :
    Fits (m.tdiv n) ↔ ¬ (m = Int64.minValue.toInt ∧ n = -1) := by
  have habs : (m.tdiv n).natAbs = m.natAbs / n.natAbs := Int.natAbs_tdiv m n
  rw [fits_iff] at *
  rw [Int64.toInt_minValue]
  by_cases hone : n = -1
  · subst hone
    rw [Int.tdiv_neg, Int.tdiv_one]
    omega
  · by_cases hone' : n = 1
    · subst hone'
      rw [Int.tdiv_one]
      omega
    · have hhalf : m.natAbs / n.natAbs ≤ m.natAbs / 2 := Nat.div_le_div_left (by omega) (by decide)
      omega

namespace Expression

/-! ## Calculations -/

/-- The operators that give an integer for two integers. -/
inductive Calculation.Op where
  | add
  | subtract
  | multiply
  | remainder
  deriving Repr, DecidableEq

namespace Calculation.Op

def arithmetic : Op → Arithmetic
  | .add => .add
  | .subtract => .subtract
  | .multiply => .multiply
  | .remainder => .remainder

/-- The result over the integers without bounds; a remainder has the sign of its dividend. -/
def exact : Op → Int → Int → Int
  | .add, m, n => m + n
  | .subtract, m, n => m - n
  | .multiply, m, n => m * n
  | .remainder, m, n => m.tmod n

end Calculation.Op

/-- An expression of integers: each step negates the result of one before it or joins two. -/
inductive Calculation where
  | literal (n : Int64) (span : Span)
  | negate (operand : Calculation) (span : Span)
  | combine (op : Calculation.Op) (left right : Calculation) (span : Span)

namespace Calculation

/-- The expression itself. -/
def tree : Calculation → Tree
  | .literal n span => .literal (.integer n) span
  | .negate operand span => .unary .negate operand.tree span
  | .combine op left right span => .binary (.arithmetic op.arithmetic) left.tree right.tree span

/-- The result over the integers without bounds. -/
def exact : Calculation → Int
  | .literal n _ => n.toInt
  | .negate operand _ => -operand.exact
  | .combine op left right _ => op.exact left.exact right.exact

/-- The calculations of which a calculation is made, each after its operands, and what is on the
left before what is on the right; the whole is the last one. -/
def steps : Calculation → List Calculation
  | c@(.literal _ _) => [c]
  | c@(.negate operand _) => operand.steps ++ [c]
  | c@(.combine _ left right _) => left.steps ++ right.steps ++ [c]

/-- Whether the last step divides by zero. -/
def dividesByZero : Calculation → Bool
  | .combine .remainder _ right _ => right.exact == 0
  | _ => false

/-- Whether the last step is a remainder whose quotient is too large for 64 bits. -/
def exceedsQuotient : Calculation → Bool
  | .combine .remainder left right _ =>
    left.exact == Int64.minValue.toInt && right.exact == -1
  | _ => false

/-- What is wrong with the last step, if the results of the steps before it are exact. -/
def fault? (c : Calculation) : Option Fault :=
  if c.dividesByZero then some .divisionByZero
  else if Fits c.exact ∧ ¬ c.exceedsQuotient then none
  else some .overflow

/-- The failure of the first step that cannot be taken. -/
def failure? (c : Calculation) : Option Failure :=
  c.steps.findSome? fun s => s.fault?.map (⟨·, s.tree.span⟩)

variable {c left right : Calculation} {op : Op} {span : Span}

/-! ## One step -/

/-- The outcome of the last step. -/
def outcome (c : Calculation) : Except Failure Value :=
  match c.fault? with
  | some fault => .error ⟨fault, c.tree.span⟩
  | none => .ok (.integer (Int64.ofInt c.exact))

theorem fault?_eq_none_iff :
    c.fault? = none ↔ c.dividesByZero = false ∧ Fits c.exact ∧ c.exceedsQuotient = false := by
  unfold fault?
  cases c.dividesByZero <;> simp

theorem fault?_eq_some_iff {fault : Fault} :
    c.fault? = some fault ↔
      (fault = .divisionByZero ∧ c.dividesByZero = true) ∨
      (fault = .overflow ∧ c.dividesByZero = false ∧
        (¬ Fits c.exact ∨ c.exceedsQuotient = true)) := by
  unfold fault?
  cases c.dividesByZero <;> cases c.exceedsQuotient <;> by_cases h : Fits c.exact <;>
    simp [h, eq_comm]

/-- Negating an integer fails just if the result does not fit. -/
theorem apply_negate_integer (n : Int64) (inner span : Span) :
    UnaryOp.negate.apply (.integer n) inner span =
      if Fits (-n.toInt) then .ok (.integer (Int64.ofInt (-n.toInt)))
      else .error ⟨.overflow, span⟩ := by
  have hnumber : Fault.at inner (asNumber (.unary .negate) (.integer n)) = .ok (.integer n) := rfl
  rw [UnaryOp.apply, hnumber]
  simp only [bind, Except.bind]
  by_cases h : Fits (-n.toInt)
  · simp only [narrow?_of_fits h, if_pos h]
    rfl
  · simp only [narrow?_of_not_fits h, if_neg h]
    rfl

theorem apply_negate {operand : Calculation} {n : Int64} (hn : n.toInt = operand.exact) :
    UnaryOp.negate.apply (.integer n) operand.tree.span span = (negate operand span).outcome := by
  have hexact : exact (negate operand span) = -n.toInt := by rw [exact, hn]
  have hfault : fault? (negate operand span) =
      if Fits (-n.toInt) then none else some .overflow := by
    rw [fault?, hexact]
    simp [dividesByZero, exceedsQuotient]
  rw [apply_negate_integer, outcome, hfault, hexact]
  split <;> rfl

theorem compute_integers (exact : Int → Int → Int) (rounded : Float → Float → Float)
    (m n : Int64) :
    compute (fun m n => narrow? (exact m n)) rounded (.integer m) (.integer n) =
      if Fits (exact m.toInt n.toInt) then .ok (.integer (Int64.ofInt (exact m.toInt n.toInt)))
      else .error .overflow := by
  unfold compute
  by_cases h : Fits (exact m.toInt n.toInt)
  · simp only [narrow?_of_fits h, if_pos h]
  · simp only [narrow?_of_not_fits h, if_neg h]

/-- Adding, subtracting and multiplying fail just if the result does not fit. -/
theorem apply_of_ne_remainder (hop : op ≠ .remainder) (m n : Int64) :
    op.arithmetic.apply (.integer m) (.integer n) =
      if Fits (op.exact m.toInt n.toInt) then
        .ok (.integer (Int64.ofInt (op.exact m.toInt n.toInt)))
      else .error .overflow := by
  cases op with
  | add => exact compute_integers (· + ·) (· + ·) m n
  | subtract => exact compute_integers (· - ·) (· - ·) m n
  | multiply => exact compute_integers (· * ·) (· * ·) m n
  | remainder => exact absurd rfl hop

/-- A remainder fails if the divisor is zero, and else just if the quotient does not fit. -/
theorem apply_remainder (m n : Int64) :
    Arithmetic.remainder.apply (.integer m) (.integer n) =
      if n.toInt = 0 then .error .divisionByZero
      else if m.toInt = Int64.minValue.toInt ∧ n.toInt = -1 then .error .overflow
      else .ok (.integer (Int64.ofInt (m.toInt.tmod n.toInt))) := by
  have hzero : (Number.integer n).isZero = true ↔ n.toInt = 0 := by
    show (n == 0) = true ↔ _
    rw [beq_iff_eq, ← Int64.toInt_inj, Int64.toInt_zero]
  unfold Arithmetic.apply
  by_cases hn : n.toInt = 0
  · simp only [hzero, if_pos hn]
  · have hquotient := fits_tdiv_iff (fits_toInt m) hn
    have hremainder := narrow?_of_fits (fits_tmod m.toInt (fits_toInt n) hn)
    simp only [hzero, if_neg hn, compute, hremainder]
    by_cases h : m.toInt = Int64.minValue.toInt ∧ n.toInt = -1
    · rw [narrow?_of_not_fits (fun hfits => hquotient.1 hfits h), if_pos h]
      rfl
    · rw [narrow?_of_fits (hquotient.2 h), if_neg h]
      rfl

theorem apply_combine {m n : Int64} (hm : m.toInt = left.exact) (hn : n.toInt = right.exact) :
    Fault.at span (op.arithmetic.apply (.integer m) (.integer n)) =
      (combine op left right span).outcome := by
  have hexact : exact (combine op left right span) = op.exact m.toInt n.toInt := by
    rw [exact, hm, hn]
  by_cases hop : op = .remainder
  · subst hop
    have hfault : fault? (combine .remainder left right span) =
        if n.toInt = 0 then some .divisionByZero
        else if m.toInt = Int64.minValue.toInt ∧ n.toInt = -1 then some .overflow else none := by
      by_cases hzero : n.toInt = 0
      · simp [fault?, dividesByZero, ← hn, hzero]
      · have hfits : Fits (Op.exact .remainder m.toInt n.toInt) :=
          fits_tmod _ (fits_toInt n) hzero
        by_cases hleast : m.toInt = Int64.minValue.toInt ∧ n.toInt = -1
        · simp [fault?, dividesByZero, exceedsQuotient, ← hm, ← hn, hleast]
        · rw [if_neg hzero, if_neg hleast, fault?_eq_none_iff, hexact]
          exact ⟨by simpa [dividesByZero, ← hn], hfits,
            by simpa [exceedsQuotient, ← hm, ← hn] using hleast⟩
    rw [Op.arithmetic, apply_remainder, outcome, hfault, hexact]
    split
    · rfl
    · split <;> rfl
  · have hfault : fault? (combine op left right span) =
        if Fits (op.exact m.toInt n.toInt) then none else some .overflow := by
      rw [fault?, hexact]
      cases op <;> simp [dividesByZero, exceedsQuotient] at hop ⊢
    rw [apply_of_ne_remainder hop, outcome, hfault, hexact]
    split <;> rfl

/-! ## All steps -/

/-- A calculation has the outcome of its last step, if its operands have values. -/
theorem evaluate_negate {operand : Calculation} {n : Int64} (hn : n.toInt = operand.exact)
    (h : operand.tree.evaluate = .ok (.integer n)) :
    (negate operand span).tree.evaluate = (negate operand span).outcome := by
  rw [tree, Tree.evaluate, h]
  exact apply_negate hn

theorem evaluate_combine {m n : Int64} (hm : m.toInt = left.exact) (hn : n.toInt = right.exact)
    (hleft : left.tree.evaluate = .ok (.integer m))
    (hright : right.tree.evaluate = .ok (.integer n)) :
    (combine op left right span).tree.evaluate = (combine op left right span).outcome := by
  have hjoined : op.arithmetic.joined? (.integer m) (.integer n) = none := by
    simp [Arithmetic.joined?, Value.text?]
  rw [tree, Tree.evaluate, hleft, hright, ← apply_combine hm hn]
  simp only [bind, Except.bind, hjoined]
  rfl

theorem failure?_negate (operand : Calculation) (span : Span) :
    (negate operand span).failure? =
      operand.failure?.or ((negate operand span).fault?.map (⟨·, span⟩)) := by
  rw [failure?, steps, List.findSome?_append, List.findSome?_singleton]
  rfl

theorem failure?_combine (op : Op) (left right : Calculation) (span : Span) :
    (combine op left right span).failure? =
      (left.failure?.or right.failure?).or
        ((combine op left right span).fault?.map (⟨·, span⟩)) := by
  rw [failure?, steps, List.findSome?_append, List.findSome?_append, List.findSome?_singleton]
  rfl

/-- Whether a result is the failure, or the exact value if there is none. -/
def Settles (failure? : Option Failure) (exact : Int) (result : Except Failure Value) : Prop :=
  match failure? with
  | some failure => result = .error failure
  | none => ∃ z : Int64, z.toInt = exact ∧ result = .ok (.integer z)

theorem Settles.eq_error {earlier : Option Failure} {exact : Int} {result : Except Failure Value}
    {failure : Failure} (h : Settles earlier exact result) (hfailure : earlier = some failure) :
    result = .error failure := by
  subst hfailure
  exact h

theorem Settles.exists_eq_ok {earlier : Option Failure} {exact : Int}
    {result : Except Failure Value} (h : Settles earlier exact result) (hnone : earlier = none) :
    ∃ z : Int64, z.toInt = exact ∧ result = .ok (.integer z) := by
  subst hnone
  exact h

theorem settles_outcome (c : Calculation) :
    Settles (c.fault?.map (⟨·, c.tree.span⟩)) c.exact c.outcome := by
  unfold outcome
  cases h : c.fault? with
  | some fault => rfl
  | none => exact ⟨_, toInt_ofInt_of_fits (fault?_eq_none_iff.1 h).2.1, rfl⟩

/-- The result of a calculation is the failure of the first step that cannot be taken, else the
exact value. -/
theorem settles_evaluate (c : Calculation) : Settles c.failure? c.exact c.tree.evaluate := by
  induction c with
  | literal n span =>
    have hnone : failure? (literal n span) = none := by
      simp [failure?, steps, fault?, dividesByZero, exceedsQuotient, exact, fits_toInt]
    rw [hnone]
    exact ⟨n, rfl, rfl⟩
  | negate operand span ih =>
    rw [failure?_negate]
    cases hoperand : operand.failure? with
    | some failure =>
      -- A failure of the operand is the first one, and the step is not taken.
      rw [tree, Tree.evaluate, ih.eq_error hoperand]
      rfl
    | none =>
      obtain ⟨n, hn, hvalue⟩ := ih.exists_eq_ok hoperand
      rw [Option.none_or, evaluate_negate hn hvalue]
      exact settles_outcome (negate operand span)
  | combine op left right span ihl ihr =>
    rw [failure?_combine]
    cases hleft : left.failure? with
    | some failure =>
      rw [tree, Tree.evaluate, ihl.eq_error hleft]
      rfl
    | none =>
      obtain ⟨m, hm, hvalueLeft⟩ := ihl.exists_eq_ok hleft
      cases hright : right.failure? with
      | some failure =>
        rw [tree, Tree.evaluate, hvalueLeft, ihr.eq_error hright]
        rfl
      | none =>
        obtain ⟨n, hn, hvalueRight⟩ := ihr.exists_eq_ok hright
        rw [Option.none_or, Option.none_or, evaluate_combine hm hn hvalueLeft hvalueRight]
        exact settles_outcome (combine op left right span)

theorem failure?_eq_none_iff : c.failure? = none ↔ ∀ s ∈ c.steps, s.fault? = none := by
  simp only [failure?, List.findSome?_eq_none_iff, Option.map_eq_none_iff]

theorem failure?_eq_some_iff {failure : Failure} :
    c.failure? = some failure ↔ ∃ before s after, c.steps = before ++ s :: after ∧
      (∀ u ∈ before, u.fault? = none) ∧ failure.span = s.tree.span ∧
      s.fault? = some failure.fault := by
  simp only [failure?, List.findSome?_eq_some_iff, Option.map_eq_none_iff, Option.map_eq_some_iff]
  constructor
  · rintro ⟨before, s, after, hsteps, ⟨fault, hfault, rfl⟩, hbefore⟩
    exact ⟨before, s, after, hsteps, hbefore, rfl, hfault⟩
  · rintro ⟨before, s, after, hsteps, hbefore, hspan, hfault⟩
    refine ⟨before, s, after, hsteps, ⟨failure.fault, hfault, ?_⟩, hbefore⟩
    rw [← hspan]

theorem evaluate_eq_ok_iff {v : Value} :
    c.tree.evaluate = .ok v ↔
      c.failure? = none ∧ ∃ z : Int64, v = .integer z ∧ z.toInt = c.exact := by
  cases hfailure : c.failure? with
  | some failure => simp [(settles_evaluate c).eq_error hfailure]
  | none =>
    obtain ⟨z, hz, hvalue⟩ := (settles_evaluate c).exists_eq_ok hfailure
    rw [hvalue, Except.ok.injEq]
    constructor
    · rintro rfl
      exact ⟨rfl, z, rfl, hz⟩
    · rintro ⟨-, y, rfl, hy⟩
      rw [Int64.toInt_inj.1 (hz.trans hy.symm)]

theorem evaluate_eq_error_iff {failure : Failure} :
    c.tree.evaluate = .error failure ↔ c.failure? = some failure := by
  cases hfailure : c.failure? with
  | some other =>
    rw [(settles_evaluate c).eq_error hfailure, Except.error.injEq, Option.some.injEq]
  | none =>
    obtain ⟨z, -, hvalue⟩ := (settles_evaluate c).exists_eq_ok hfailure
    simp [hvalue]

section

variable [Text.Alphabet]

theorem eval_of_parse {source : String} {tree : Tree} (h : parse source.toList = .ok tree) :
    eval source = tree.evaluate.mapError fun failure =>
      .expression failure.fault (.of source.toList failure.span) := by
  rw [eval, value, h]
  rfl

/-- **Integers are computed exactly or not at all.** A calculation has a value just if, over the
integers without bounds, none of its steps divides by zero, the results of all of them have 64 bits
and none is the remainder of the least integer by minus one; the value is then the exact result, an
integer. Otherwise it has the failure of the first step that is not so: a division by zero, or an
overflow for each of the other two. A text that is read as the calculation has the same value, or an
error with the same fault that shows the text. -/
theorem evaluate_calculation (c : Calculation) :
    (∀ v, c.tree.evaluate = .ok v ↔
      (∀ s ∈ c.steps, s.dividesByZero = false ∧ Fits s.exact ∧ s.exceedsQuotient = false) ∧
        ∃ z : Int64, v = .integer z ∧ z.toInt = c.exact) ∧
    (∀ failure, c.tree.evaluate = .error failure ↔
      ∃ before s after, c.steps = before ++ s :: after ∧
        (∀ u ∈ before, u.dividesByZero = false ∧ Fits u.exact ∧ u.exceedsQuotient = false) ∧
        failure.span = s.tree.span ∧
        ((failure.fault = .divisionByZero ∧ s.dividesByZero = true) ∨
          (failure.fault = .overflow ∧ s.dividesByZero = false ∧
            (¬ Fits s.exact ∨ s.exceedsQuotient = true)))) ∧
    (∀ source, parse source.toList = .ok c.tree →
      eval source = c.tree.evaluate.mapError fun failure =>
        .expression failure.fault (.of source.toList failure.span)) ∧
    Fault.divisionByZero.message = "division by zero" ∧
    Fault.overflow.message = "integer overflow" := by
  refine ⟨fun v => ?_, fun failure => ?_, fun source h => eval_of_parse h, rfl, rfl⟩
  · rw [evaluate_eq_ok_iff, failure?_eq_none_iff]
    simp only [fault?_eq_none_iff]
  · rw [evaluate_eq_error_iff, failure?_eq_some_iff]
    simp only [fault?_eq_none_iff, fault?_eq_some_iff]

end

section

open Text.Ascii

/-- A sum that is too large in front of a division by zero: the sum is the first step to fail. -/
theorem evaluate_sum_before_remainder :
    let source := "9223372036854775807 + 1 - 1 % 0"
    let sum : Calculation :=
      .combine .add (.literal 9223372036854775807 ⟨0, 19⟩) (.literal 1 ⟨22, 23⟩) ⟨0, 23⟩
    let remainder : Calculation :=
      .combine .remainder (.literal 1 ⟨26, 27⟩) (.literal 0 ⟨30, 31⟩) ⟨26, 31⟩
    let whole : Calculation := .combine .subtract sum remainder ⟨0, 31⟩
    parse source.toList = .ok whole.tree ∧
      whole.tree.evaluate = .error ⟨.overflow, ⟨0, 23⟩⟩ ∧
      eval source = .error (.expression .overflow ⟨source.toList, ⟨0, 23⟩⟩) := by
  intro source sum remainder whole
  have hparse : parse source.toList = .ok whole.tree := by cbv
  have hfailure : whole.tree.evaluate = .error ⟨.overflow, ⟨0, 23⟩⟩ :=
    ((evaluate_calculation whole).2.1 _).2
      ⟨[.literal 9223372036854775807 ⟨0, 19⟩, .literal 1 ⟨22, 23⟩], sum,
        remainder.steps ++ [whole], rfl, by decide +kernel, rfl, .inr ⟨rfl, by decide +kernel⟩⟩
  refine ⟨hparse, hfailure, ?_⟩
  rw [(evaluate_calculation whole).2.2.1 source hparse, hfailure]
  exact congrArg (fun excerpt => Except.error (Error.expression .overflow excerpt))
    (by decide +kernel)

/-- The results of all steps have 64 bits and none divides by zero, but the last one is the remainder
of the least integer by minus one. -/
theorem evaluate_least_by_minus_one :
    let source := "(-9223372036854775807 - 1) % -1"
    let least : Calculation :=
      .combine .subtract (.negate (.literal 9223372036854775807 ⟨2, 21⟩) ⟨1, 21⟩)
        (.literal 1 ⟨24, 25⟩) ⟨1, 25⟩
    let whole : Calculation :=
      .combine .remainder least (.negate (.literal 1 ⟨30, 31⟩) ⟨29, 31⟩) ⟨1, 31⟩
    (∀ s ∈ whole.steps, s.dividesByZero = false ∧ Fits s.exact) ∧ whole.exact = 0 ∧
      whole.tree.evaluate = .error ⟨.overflow, ⟨1, 31⟩⟩ ∧
      eval source = .error (.expression .overflow ⟨source.toList, ⟨1, 31⟩⟩) := by
  intro source least whole
  have hparse : parse source.toList = .ok whole.tree := by cbv
  have hfailure : whole.tree.evaluate = .error ⟨.overflow, ⟨1, 31⟩⟩ :=
    evaluate_eq_error_iff.2 (by decide +kernel)
  refine ⟨by decide +kernel, by decide +kernel, hfailure, ?_⟩
  rw [eval_of_parse hparse, hfailure]
  exact congrArg (fun excerpt => Except.error (Error.expression .overflow excerpt))
    (by decide +kernel)

end

end Calculation

end Expression

end Stencil
