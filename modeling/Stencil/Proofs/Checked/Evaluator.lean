/-
The evaluator in place: all binary operators are of one kind, so that its cases leave room for
operators that cannot be there.

The right side of a connective is not reached where the left one decides it, a connective not where
both sides are evaluated, and nothing but an operator on numbers where numbers are computed. Hence
an expression has the value that its tree has (`evaluate_eq`), and a text the value that
`Expression.eval` gives it (`eval_eq`).
-/
import Stencil.Expression
import Stencil.Proofs.Checked.Reading

namespace Stencil.Checked

open Expression MonadExcept

/-! ## Evaluation -/

/-- Refuses an operand. A comparison refuses two at once, so it has no message for one. -/
def refuse {α : Type} (sign : Sign) (expected : Domain) (v : Value) (span : Span) : Lexing α :=
  match sign.op with
  | .connective op => throw ⟨.wrongOperand (.connective op) expected v.kind, span⟩
  | .arithmetic op => throw ⟨.wrongOperand (.arithmetic op) expected v.kind, span⟩
  | .comparison _ => throwThe Hazard .unreachable

/-- The boolean that an operator needs. -/
def boolean (sign : Sign) (v : Value) (span : Span) : Lexing Bool :=
  match v with
  | .bool b => return b
  | v => refuse sign .bool v span

/-- The number that an operator needs. -/
def numeric (sign : Sign) (v : Value) (span : Span) : Lexing Number :=
  match v with
  | .integer n => return .integer n
  | .float x => return .float x
  | v => refuse sign .number v span

/-- Whether a comparison holds. -/
def compared (op : Comparison) (l r : Value) (span : Span) : Lexing Value := do
  let b ← ofExcept (Fault.at span (op.holds l r))
  return .bool b

/-- The result of an operator on numbers. -/
def arithmetic (sign : Sign) (a b : Number) (span : Span) : Lexing Value := do
  if (sign = .divide ∨ sign = .remainder) ∧ b.isZero then throw ⟨.divisionByZero, span⟩
  match sign, a, b with
  | .divide, a, b => return .float (a.toFloat / b.toFloat)
  | sign, .integer m, .integer n =>
    let result? ←
      match sign with
      | .add => pure (narrow? (m.toInt + n.toInt))
      | .subtract => pure (narrow? (m.toInt - n.toInt))
      | .multiply => pure (narrow? (m.toInt * n.toInt))
      | .remainder =>
        pure ((narrow? (m.toInt.tdiv n.toInt)).bind fun _ => narrow? (m.toInt.tmod n.toInt))
      | _ => throwThe Hazard .unreachable
    match result? with
    | some k => return .integer k
    | none => throw ⟨.overflow, span⟩
  | sign, a, b =>
    match sign with
    | .add => return .float (a.toFloat + b.toFloat)
    | .subtract => return .float (a.toFloat - b.toFloat)
    | .multiply => return .float (a.toFloat * b.toFloat)
    | .remainder => return .float (Decimal.remainder a.toFloat b.toFloat)
    | _ => throwThe Hazard .unreachable

/-- The result of an operator on numbers, or of one that adds a text. -/
def computed (sign : Sign) (l r : Value) (leftSpan rightSpan span : Span) : Lexing Value := do
  if sign = .add ∧ (l.text?.isSome ∨ r.text?.isSome) then
    return .string (l.text ++ r.text)
  else
    let a ← numeric sign l leftSpan
    let b ← numeric sign r rightSpan
    arithmetic sign a b span

/-- The value of an expression. -/
def evaluate : Expr → Lexing Value
  | .literal v _ => return v
  | .unary op operand span => do
    let v ← evaluate operand
    ofExcept (op.apply v operand.span span)
  | .binary sign left right span => do
    if sign = .or ∨ sign = .and then
      let l ← evaluate left
      let a ← boolean sign l left.span
      match sign, a with
      | .or, true => return .bool true
      | .and, false => return .bool false
      | _, _ =>
        let r ← evaluate right
        let b ← boolean sign r right.span
        return .bool b
    else
      let l ← evaluate left
      let r ← evaluate right
      match sign with
      | .or | .and => throwThe Hazard .unreachable
      | .equal => compared .equal l r span
      | .unequal => compared .unequal l r span
      | .less => compared .less l r span
      | .atMost => compared .atMost l r span
      | .greater => compared .greater l r span
      | .atLeast => compared .atLeast l r span
      | sign => computed sign l r left.span right.span span

/-- The value of a text, or an error that shows the text. -/
def eval [Text.Alphabet] (source : String) : Checked (Except Error Value) := do
  let result ← (parseAll source.toList >>= evaluate : Lexing Value).run
  return result.mapError fun failure =>
    .expression failure.fault (.of source.toList failure.span)

/-! ## Its results -/

theorem ofExcept_bind {α β : Type} (r : Except Failure α) (f : α → Except Failure β) :
    (ofExcept (r >>= f) : Lexing β) = ofExcept r >>= fun a => ofExcept (f a) := by
  cases r <;> rfl

theorem run_ofExcept {α : Type} (r : Except Failure α) : (ofExcept r : Lexing α).run = pure r := by
  cases r <;> rfl

theorem boolean_eq {sign : Sign} {op : Connective} (h : sign.op = .connective op) (v : Value)
    (span : Span) :
    boolean sign v span = ofExcept (Fault.at span (asBool (.connective op) v)) := by
  cases v <;> simp only [boolean, refuse, h] <;> rfl

theorem numeric_eq {sign : Sign} {op : Arithmetic} (h : sign.op = .arithmetic op) (v : Value)
    (span : Span) :
    numeric sign v span = ofExcept (Fault.at span (asNumber (.arithmetic op) v)) := by
  cases v <;> simp only [numeric, refuse, h] <;> rfl

/-- Integers are computed by one of the operators that are told apart there. -/
theorem arithmetic_eq {sign : Sign} {op : Arithmetic} (h : sign.op = .arithmetic op) (a b : Number)
    (span : Span) : arithmetic sign a b span = ofExcept (Fault.at span (op.apply a b)) := by
  have hzero (hdivides : sign = .divide ∨ sign = .remainder) (hb : b.isZero = true) :
      arithmetic sign a b span = throw ⟨.divisionByZero, span⟩ := by
    unfold arithmetic
    rw [if_pos ⟨hdivides, hb⟩]
    rfl
  cases op <;> cases sign <;> cases h
  case divide.divide =>
    by_cases hb : b.isZero = true
    · rw [hzero (.inl rfl) hb, Arithmetic.apply, if_pos hb]
      rfl
    · rw [arithmetic, Arithmetic.apply, if_neg (fun h => hb h.2), if_neg hb]
      rfl
  case remainder.remainder =>
    by_cases hb : b.isZero = true
    · rw [hzero (.inr rfl) hb, Arithmetic.apply, if_pos hb]
      rfl
    · unfold arithmetic
      rw [Arithmetic.apply, if_neg (fun h => hb h.2), if_neg hb]
      rcases a with m | x <;> rcases b with n | y
      · simp only [compute]
        cases (narrow? (m.toInt.tdiv n.toInt)).bind fun _ => narrow? (m.toInt.tmod n.toInt) <;> rfl
      all_goals rfl
  all_goals
    rcases a with m | x <;> rcases b with n | y
    · simp only [arithmetic, Arithmetic.apply, compute]
      cases narrow? _ <;> rfl
    all_goals rfl

theorem computed_eq {sign : Sign} {op : Arithmetic} (h : sign.op = .arithmetic op) (l r : Value)
    (leftSpan rightSpan span : Span) :
    computed sign l r leftSpan rightSpan span = ofExcept (
      match op.joined? l r with
      | some v => pure v
      | none => do
        let a ← Fault.at leftSpan (asNumber (.arithmetic op) l)
        let b ← Fault.at rightSpan (asNumber (.arithmetic op) r)
        Fault.at span (op.apply a b)) := by
  have hadds : sign = .add ↔ op = .add := by cases sign <;> cases h <;> simp
  simp only [computed, Arithmetic.joined?, hadds]
  split
  · rfl
  · simp only [ofExcept_bind, numeric_eq h, arithmetic_eq h]

theorem evaluate_eq (x : Expr) : evaluate x = ofExcept x.tree.evaluate := by
  induction x with
  | literal v span => rfl
  | unary op operand span ih =>
    rw [evaluate, ih, Expr.tree, Tree.evaluate, ofExcept_bind, Expr.span_tree]
  | binary sign left right span ihl ihr =>
    rw [evaluate, Expr.tree, ihl, ihr]
    cases hop : sign.op with
    | connective op =>
      have hconnects : sign = .or ∨ sign = .and := by cases sign <;> cases hop <;> simp
      rw [if_pos hconnects, Tree.evaluate]
      simp only [ofExcept_bind, boolean_eq hop, left.span_tree, right.span_tree]
      refine bind_congr fun l => bind_congr fun a => ?_
      rcases hconnects with rfl | rfl <;> cases hop <;> cases a
      case inl.refl.true | inr.refl.false => rfl
      all_goals
        simp only [Connective.decisive, reduceCtorEq, if_false, ofExcept_bind]
        rfl
    | comparison op =>
      have hplain : ¬ (sign = .or ∨ sign = .and) := by cases sign <;> cases hop <;> simp
      rw [if_neg hplain, Tree.evaluate]
      simp only [ofExcept_bind]
      cases sign <;> cases hop <;> rfl
    | arithmetic op =>
      have hplain : ¬ (sign = .or ∨ sign = .and) := by cases sign <;> cases hop <;> simp
      rw [if_neg hplain, Tree.evaluate]
      simp only [ofExcept_bind, left.span_tree, right.span_tree]
      refine bind_congr fun l => bind_congr fun r => ?_
      refine Eq.trans ?_ (computed_eq hop l r left.span right.span span)
      cases sign <;> cases hop <;> rfl

/-- A text has the value that `Expression.eval` gives it. -/
theorem eval_eq [Text.Alphabet] (source : String) : eval source = pure (Expression.eval source) := by
  have hvalue : parseAll source.toList >>= evaluate = ofExcept (value source.toList) :=
    calc parseAll source.toList >>= evaluate
        = parseAll source.toList >>= fun x => ofExcept x.tree.evaluate :=
          congrArg _ (funext evaluate_eq)
      _ = Expr.tree <$> parseAll source.toList >>= fun tree => ofExcept tree.evaluate := by
          rw [bind_map_left]
      _ = ofExcept (value source.toList) := by rw [parseAll_eq, value, ofExcept_bind]
  rw [eval, hvalue, run_ofExcept]
  rfl

end Stencil.Checked
