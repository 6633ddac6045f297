/-
Computations in which whatever would stop a program on the spot is spelled out.

A text is cut at byte positions, which must be in order and between two characters; differences
must not fall below zero; what cannot happen is a hazard like any other. A repetition that does not
get on is one too, so that a `Checked` computation always ends, with a result or a hazard. `cut_eq`
is how every cut is shown to be safe: by the three parts that the text is made of there. `Leaves`
keeps track of a position that moves through a text.
-/
import Stencil.Text.Span

namespace Stencil

/-- What stops a program on the spot. -/
inductive Hazard where
  /-- A text is cut outside of it, backwards, or within a character. -/
  | cut
  /-- A number is taken from a smaller one. -/
  | belowZero
  /-- A list has no such place. -/
  | missing
  /-- There is no state on the stack. -/
  | noState
  /-- The root is taken off the stack. -/
  | rootPopped
  /-- A step that is not allowed is applied to the stack. -/
  | notAllowed
  /-- A case is reached that is there for completeness only. -/
  | unreachable
  /-- What is repeated does not get on. -/
  | endless
  deriving Repr, DecidableEq

/-- A computation that may meet a hazard. -/
abbrev Checked (α : Type) : Type := Except Hazard α

namespace Checked

theorem pure_inj {α : Type} {a b : α} : (pure a : Checked α) = pure b ↔ a = b :=
  ⟨Except.ok.inj, congrArg pure⟩

/-- The difference of two numbers. -/
def minus (a b : Nat) : Checked Nat := if b ≤ a then pure (a - b) else throw .belowZero

@[simp] theorem minus_of_le {a b : Nat} (h : b ≤ a) : minus a b = pure (a - b) := if_pos h

@[simp] theorem add_minus_cancel (a b : Nat) : minus (a + b) b = pure a := by
  rw [minus_of_le (Nat.le_add_left b a), Nat.add_sub_cancel]

/-- Whether the byte position `n` of a text is between two characters, or at an end. -/
def isBoundary : Nat → List Char → Bool
  | 0, _ => true
  | _ + 1, [] => false
  | n + 1, c :: rest => c.utf8Size ≤ n + 1 && isBoundary (n + 1 - c.utf8Size) rest

theorem isBoundary_iff {n : Nat} {text : List Char} :
    isBoundary n text = true ↔ ∃ before after, text = before ++ after ∧ Text.byteSize before = n := by
  constructor
  · intro h
    induction text generalizing n with
    | nil =>
      cases n with
      | zero => exact ⟨[], [], rfl, rfl⟩
      | succ n => cases h
    | cons c rest ih =>
      cases n with
      | zero => exact ⟨[], c :: rest, rfl, rfl⟩
      | succ n =>
        simp only [isBoundary, Bool.and_eq_true, decide_eq_true_eq] at h
        obtain ⟨before, after, rfl, hsize⟩ := ih h.2
        refine ⟨c :: before, after, rfl, ?_⟩
        rw [Text.byteSize_cons]
        omega
  · rintro ⟨before, after, rfl, rfl⟩
    induction before with
    | nil => simp [isBoundary]
    | cons c rest ih =>
      rw [Text.byteSize_cons, List.cons_append]
      obtain ⟨k, hk⟩ : ∃ k, c.utf8Size + Text.byteSize rest = k + 1 :=
        ⟨_, (Nat.sub_add_cancel (Nat.le_add_right_of_le c.utf8Size_pos)).symm⟩
      rw [hk, isBoundary, ← hk, Nat.add_sub_cancel_left, ih]
      simp

/-- The text from the byte position `start` up to `stop`. -/
def cut (text : List Char) (start stop : Nat) : Checked (List Char) :=
  if start ≤ stop ∧ isBoundary start text ∧ isBoundary stop text then
    pure (Span.slice ⟨start, stop⟩ text)
  else throw .cut

/-- The text from the byte position `start` on. -/
def cutFrom (text : List Char) (start : Nat) : Checked (List Char) :=
  cut text start (Text.byteSize text)

variable {whole part after : List Char} {start stop : Nat}

/-- A text is cut out from between what stands before it and what stands after it. -/
theorem cut_eq (before after : List Char) (hwhole : whole = before ++ part ++ after)
    (hstart : start = Text.byteSize before)
    (hstop : stop = Text.byteSize before + Text.byteSize part) :
    cut whole start stop = pure part := by
  subst hwhole hstart hstop
  rw [cut, if_pos]
  · exact congrArg pure (Span.slice_after before part after)
  · refine ⟨Nat.le_add_right _ _, isBoundary_iff.2 ⟨before, part ++ after, ?_, rfl⟩,
      isBoundary_iff.2 ⟨before ++ part, after, rfl, ?_⟩⟩
    · rw [List.append_assoc]
    · rw [Text.byteSize_append]

example : cut ['é', 'a'] 2 3 = pure ['a'] ∧ cut ['é', 'a'] 1 3 = throw .cut := ⟨rfl, rfl⟩

/-- Whether a byte position leaves `rest` of a text behind it. -/
def Leaves (text : List Char) (i : Nat) (rest : List Char) : Prop :=
  ∃ before, text = before ++ rest ∧ i = Text.byteSize before

namespace Leaves

variable {text rest : List Char} {i j : Nat}

theorem zero (text : List Char) : Leaves text 0 text := ⟨[], rfl, rfl⟩

theorem append (part : List Char) (h : Leaves text i (part ++ rest)) :
    Leaves text (i + Text.byteSize part) rest := by
  obtain ⟨before, rfl, rfl⟩ := h
  exact ⟨before ++ part, (List.append_assoc ..).symm, (Text.byteSize_append ..).symm⟩

theorem cons {c : Char} (h : Leaves text i (c :: rest)) : Leaves text (i + c.utf8Size) rest :=
  h.append [c]

theorem size_eq (h : Leaves text i rest) : Text.byteSize text = i + Text.byteSize rest := by
  obtain ⟨before, rfl, rfl⟩ := h
  exact Text.byteSize_append ..

/-- What is left says where the position is. -/
theorem unique (h : Leaves text i rest) (h' : Leaves text j rest) : i = j :=
  Nat.add_right_cancel (h.size_eq.symm.trans h'.size_eq)

theorem isBoundary_eq (h : Leaves text i rest) : isBoundary i text = true := by
  obtain ⟨before, rfl, rfl⟩ := h
  exact isBoundary_iff.2 ⟨before, rest, rfl, rfl⟩

theorem cutFrom_eq (h : Leaves text i rest) : cutFrom text i = pure rest := by
  obtain ⟨before, rfl, rfl⟩ := h
  exact cut_eq before [] (List.append_nil _).symm rfl (Text.byteSize_append ..)

theorem cut_eq {part : List Char} (h : Leaves text i (part ++ rest))
    (hj : j = i + Text.byteSize part) : cut text i j = pure part := by
  obtain ⟨before, rfl, rfl⟩ := h
  exact Checked.cut_eq before rest (List.append_assoc ..).symm rfl hj

end Leaves

end Checked

end Stencil
