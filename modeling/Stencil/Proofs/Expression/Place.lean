/-
Where the failures of an expression are.

The scan moves from one character to a later one, so tokens are within the text, and so is what is no
token. The reader and the literals show tokens, parts of them, or the end of the text, and give a node
the smallest span around tokens and nodes. The evaluation shows nodes. So whatever fails, it shows a
span within the text (`within_of_value`).
-/
import Stencil.Proofs.Checked.Lexer
import Stencil.Proofs.Expression.Extent
import Stencil.Proofs.Text.Within

namespace Stencil.Expression

open Checked (Genuine Leaves genuine_of_mem_scanFrom)
open Text

variable {text part rest : List Char} {start : Nat}

/-- Whether what is returned is good, and what fails is shown within a text. -/
def WithinOr (text : List Char) {α : Type} (good : α → Prop) : Except Failure α → Prop
  | .ok a => good a
  | .error failure => failure.span.Within text

theorem WithinOr.bind {α β : Type} {good : α → Prop} {good' : β → Prop} {r : Except Failure α}
    {f : α → Except Failure β} (h : WithinOr text good r)
    (hf : ∀ a, good a → WithinOr text good' (f a)) : WithinOr text good' (r >>= f) := by
  cases r with
  | ok a => exact hf a h
  | error failure => exact h

theorem WithinOr.map {α β : Type} {good : α → Prop} {good' : β → Prop} {r : Except Failure α}
    {f : α → β} (h : WithinOr text good r) (hf : ∀ a, good a → good' (f a)) :
    WithinOr text good' (r.map f) := by
  cases r with
  | ok a => exact hf a h
  | error failure => exact h

/-! ## Tokens and literals -/

theorem Token.within {t : Token} (h : Genuine text t) : t.span.Within text := by
  obtain ⟨rest, hrest⟩ := h.leaves
  exact Span.within_of_leaves hrest

/-- The place where no token fits is within the text. -/
theorem within_of_scanFrom [Alphabet] (h : Leaves text start rest) {failure : Failure}
    (hfailure : (scanFrom start rest).failure? = some failure) : failure.span.Within text := by
  fun_induction scanFrom start rest with
  | case1 => cases hfailure
  | case2 start c rest fault more hhead =>
    cases hfailure
    have hleaves : Leaves text start (c :: rest.take more ++ rest.drop more) := by
      rwa [List.cons_append, List.take_append_drop]
    exact Span.within_of_leaves hleaves
  | case3 start c rest kind more hhead token after ih =>
    refine ih (Leaves.append (c :: rest.take more) ?_) hfailure
    rwa [List.cons_append, List.take_append_drop]

/-- An escape that is not known is shown where it stands in the string. -/
theorem withinOr_decode (h : Leaves text start (part ++ rest)) :
    WithinOr text (fun _ => True) (decode start part) := by
  fun_induction decode start part with
  | case1 => trivial
  | case2 start => exact Span.within_of_leaves h
  | case3 start c part d hc ih =>
    refine WithinOr.map (ih ?_) fun _ _ => trivial
    exact h.cons.cons
  | case4 start c part hc =>
    have hleaves : Leaves text start (['\\', c] ++ (part ++ rest)) := h
    have hstop : start + 1 + c.utf8Size = start + byteSize ['\\', c] := Nat.add_assoc ..
    exact hstop ▸ Span.within_of_leaves hleaves
  | case5 start c part hlast hmore ih => exact WithinOr.map (ih h.cons) fun _ _ => trivial

theorem withinOr_value {t : Token} (h : Genuine text t) :
    WithinOr text (fun _ => True) t.value := by
  have htoken := Token.within h
  unfold Token.value
  split
  · cases numberValue t.text with
    | ok v => trivial
    | error fault => exact htoken
  · rename_i hkind
    obtain ⟨rest, hrest⟩ := h.leaves
    obtain ⟨quote, inner, htext, hquote, -⟩ := h.quoted hkind
    have hinner : Leaves text (t.start + 1) (inner ++ quote :: rest) := by
      rw [htext, List.cons_append] at hrest
      simpa [hquote] using hrest.cons
    rw [htext, List.drop_succ_cons, List.drop_zero, List.dropLast_concat]
    exact WithinOr.map (withinOr_decode hinner) fun _ _ => trivial
  · split
    · trivial
    · trivial
    · exact htoken
    · exact htoken
  · exact htoken

/-! ## Trees -/

/-- Whether all nodes of a tree are within a text. -/
def Tree.Within (tree : Tree) (text : List Char) : Prop :=
  ∀ node ∈ tree.nodes, node.span.Within text

/-- Whether a tree is within a text, and its tokens left to read are tokens of it. -/
def ReadWithin (text : List Char) (r : Tree × List Token) : Prop :=
  r.1.Within text ∧ ∀ t ∈ r.2, Genuine text t

/-- Whether what is behind the last token is the end of a text or within it. -/
structure Ending.Within (ending : Ending) (text : List Char) : Prop where
  failure : ∀ failure, ending.failure? = some failure → failure.span.Within text
  size : ending.size = byteSize text

theorem Ending.Within.missing {ending : Ending} (h : ending.Within text) (expected : Expected) :
    (ending.missing expected).span.Within text := by
  rw [Ending.missing]
  cases hfailure : ending.failure? with
  | some failure => exact h.failure failure hfailure
  | none => exact ⟨text, [], [], by simp, by rw [h.size]; rfl⟩

theorem Tree.Within.span {tree : Tree} (h : tree.Within text) : tree.span.Within text :=
  h tree tree.mem_nodes

theorem Tree.within_unary {op : UnaryOp} {operand : Tree} {span : Span}
    (h : operand.Within text) (hspan : span.Within text) :
    (Tree.unary op operand span).Within text :=
  List.forall_mem_cons.2 ⟨hspan, h⟩

theorem Tree.within_binary {op : BinaryOp} {left right : Tree} (hl : left.Within text)
    (hr : right.Within text) :
    (Tree.binary op left right (left.span.join right.span)).Within text :=
  List.forall_mem_cons.2 ⟨hl.span.join hr.span, List.forall_mem_append.2 ⟨hl, hr⟩⟩

section

variable {ending : Ending} {room : Nat} {tokens : List Token}

/-- Whether all that is read as an operand or as a chain in some room is within a text. -/
structure ReadsWithin (text : List Char) (ending : Ending) (room : Nat) : Prop where
  operand : ∀ tokens, (∀ t ∈ tokens, Genuine text t) →
    WithinOr text (ReadWithin text) (operand ending room tokens)
  climb : ∀ least left tokens, left.Within text → (∀ t ∈ tokens, Genuine text t) →
    WithinOr text (ReadWithin text) (climb ending room least left tokens)

theorem ReadsWithin.expression (h : ReadsWithin text ending room) (least : Nat)
    (htokens : ∀ t ∈ tokens, Genuine text t) :
    WithinOr text (ReadWithin text) (expression ending room least tokens) :=
  (h.operand tokens htokens).bind fun r hr => h.climb least r.1 r.2 hr.1 hr.2

variable (hending : ending.Within text) (ih : ∀ less, room = less + 1 → ReadsWithin text ending less)
include hending ih

theorem withinOr_operand (htokens : ∀ t ∈ tokens, Genuine text t) :
    WithinOr text (ReadWithin text) (operand ending room tokens) := by
  cases tokens with
  | nil =>
    unfold Expression.operand
    exact hending.missing .expression
  | cons t rest =>
    obtain ⟨ht, hrest⟩ := List.forall_mem_cons.1 htokens
    cases hunary : t.unary? with
    | some op =>
      cases room with
      | zero =>
        unfold Expression.operand
        simp only [hunary]
        exact Token.within ht
      | succ less =>
        rw [operand_prefix_succ hunary]
        refine ((ih less rfl).operand rest hrest).bind fun r hr => ⟨?_, hr.2⟩
        exact Tree.within_unary hr.1 ((Token.within ht).join hr.1.span)
    | none =>
      by_cases hopen : t.kind = .openParen
      · cases room with
        | zero =>
          unfold Expression.operand
          simp only [hunary, if_pos hopen]
          exact Token.within ht
        | succ less =>
          rw [operand_open_succ hopen]
          refine ((ih less rfl).expression 0 hrest).bind fun r hr => ?_
          obtain ⟨tree, after⟩ := r
          cases after with
          | nil => exact hending.missing .closeParen
          | cons u after =>
            obtain ⟨hu, hafter⟩ := List.forall_mem_cons.1 hr.2
            by_cases hclose : u.kind = .closeParen
            · simp only [if_pos hclose]
              exact ⟨hr.1, hafter⟩
            · simp only [if_neg hclose]
              exact Token.within hu
      · unfold Expression.operand
        simp only [hunary, if_neg hopen]
        refine (withinOr_value ht).bind fun v _ => ⟨?_, hrest⟩
        exact List.forall_mem_singleton.2 (Token.within ht)

theorem withinOr_climb {least : Nat} {left : Tree} (hleft : left.Within text)
    (htokens : ∀ t ∈ tokens, Genuine text t) :
    WithinOr text (ReadWithin text) (climb ending room least left tokens) := by
  by_cases hstops : ending.Stops least tokens
  · rw [climb_of_stops hstops]
    exact ⟨hleft, htokens⟩
  · cases tokens with
    | nil =>
      unfold Expression.climb
      cases hfailure : ending.failure? with
      | none => exact absurd hfailure hstops
      | some failure => exact hending.failure failure hfailure
    | cons t rest =>
      obtain ⟨ht, hrest⟩ := List.forall_mem_cons.1 htokens
      obtain ⟨op, hop, hle⟩ : ∃ op, t.binary? = some op ∧ least ≤ op.level := by
        simpa [Ending.Stops] using hstops
      cases room with
      | zero =>
        unfold Expression.climb
        simp only [hop, if_neg (Nat.not_lt.2 hle)]
        exact Token.within ht
      | succ less =>
        rw [climb_succ hop hle]
        refine ((ih less rfl).expression _ hrest).bind fun r hr => ?_
        exact (ih less rfl).climb least _ r.2 (Tree.within_binary hleft hr.1) hr.2

end

/-- Whatever the room, what is read is within the text, and so is what fails. -/
theorem readsWithin {ending : Ending} (hending : ending.Within text) (room : Nat) :
    ReadsWithin text ending room := by
  induction room with
  | zero =>
    have hnone (less : Nat) (h : 0 = less + 1) : ReadsWithin text ending less := by cases h
    exact ⟨fun _ => withinOr_operand hending hnone, fun _ _ _ => withinOr_climb hending hnone⟩
  | succ room ih =>
    have hless (less : Nat) (h : room + 1 = less + 1) : ReadsWithin text ending less := by
      cases h
      exact ih
    exact ⟨fun _ => withinOr_operand hending hless, fun _ _ _ => withinOr_climb hending hless⟩

variable [Alphabet]

theorem withinOr_parse (text : List Char) :
    WithinOr text (fun tree => tree.Within text) (parse text) := by
  have hending : (⟨(scan text).failure?, byteSize text⟩ : Ending).Within text :=
    ⟨fun _ => within_of_scanFrom (.zero text), rfl⟩
  have htokens : ∀ t ∈ (scan text).significant.tokens, Genuine text t := fun t ht =>
    genuine_of_mem_scanFrom (.zero text) t (List.mem_filter.1 ht).1
  rw [parse_eq_bind]
  refine ((readsWithin hending deepest).expression 0 htokens).bind fun r hr => ?_
  obtain ⟨tree, rest⟩ := r
  cases rest with
  | nil => exact hr.1
  | cons t rest => exact Token.within (List.forall_mem_cons.1 hr.2).1

/-- **What fails is shown within the text.** -/
theorem within_of_value {failure : Failure} (h : value text = .error failure) :
    failure.span.Within text := by
  have hparse := withinOr_parse text
  rcases bind_eq_error_iff.1 h with h | ⟨tree, htree, h⟩
  · rw [h] at hparse
    exact hparse
  · rw [htree] at hparse
    obtain ⟨node, hnode, hspan⟩ := Tree.exists_node_of_evaluate h
    exact hspan ▸ hparse node hnode

end Stencil.Expression
