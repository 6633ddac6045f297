/-
How high the trees are that are read.

The levels that the reader takes are not those of the tree. In a chain it takes one more for each
operand from left to right, but the operands on the left lie the deeper in the tree, each operator
being put on top of them. So a tree can be higher than the room that it was read in: `height_le`
gives the bound that holds, and `exists_tower` a phrase of each nesting that attains it. Where only
the last operand of a chain is more than a literal, the levels do bound the tree.
-/
import Stencil.Proofs.Expression.Parse

namespace Stencil.Expression

/-- The number of operators on the longest way from the root of a tree to a literal. -/
def Tree.height : Tree → Nat
  | .literal _ _ => 0
  | .unary _ inner _ => inner.height + 1
  | .binary _ left right _ => max left.height right.height + 1

/-! ## The bound -/

/-- The height of the highest trees that need some room. -/
def highest : Nat → Nat
  | 0 => 0
  | 1 => 2
  | room + 2 => highest (room + 1) + (room + 2)

theorem highest_add_le (room : Nat) : highest room + (room + 1) ≤ highest (room + 1) := by
  cases room with
  | zero => decide
  | succ room => exact Nat.le_refl _

theorem highest_add_two_le (room : Nat) : highest room + 2 ≤ highest (room + 1) := by
  cases room with
  | zero => decide
  | succ room =>
    have := highest_add_le (room + 1)
    omega

theorem highest_mono {room larger : Nat} (h : room ≤ larger) : highest room ≤ highest larger := by
  induction h with
  | refl => exact Nat.le_refl _
  | step _ ih => exact Nat.le_trans ih (Nat.le_of_add_right_le (highest_add_two_le _))

theorem le_highest (room : Nat) : room ≤ highest room := by
  induction room with
  | zero => exact Nat.le_refl _
  | succ room ih =>
    have := highest_add_two_le room
    omega

namespace Phrase

/-- In a chain that is still to go on, the room that its operators have taken is height that it has
not got yet. -/
theorem height_add_le {p : Phrase} {least room : Nat} (hp : p.Stands least)
    (hroom : p.nesting ≤ room) : p.tree.height + room ≤ p.ops + highest room := by
  induction p generalizing least room with
  | literal t v =>
    have := le_highest room
    simp only [tree, Tree.height, ops]
    omega
  | group o p c ih =>
    obtain ⟨room, rfl⟩ : ∃ k, room = k + 1 := ⟨room - 1, by simp only [nesting] at hroom; omega⟩
    have hinner := ih hp.2.2 (Nat.le_of_succ_le_succ hroom)
    have hops := p.ops_le_nesting
    have hhigher := highest_add_le room
    simp only [nesting, tree, ops] at hroom ⊢
    omega
  | prefixed t op p ih =>
    obtain ⟨room, rfl⟩ : ∃ k, room = k + 1 := ⟨room - 1, by simp only [nesting] at hroom; omega⟩
    have hinner := ih hp.2.2 (Nat.le_of_succ_le_succ hroom)
    have hops : p.ops = 0 := by
      cases p with
      | joined l t op r => exact absurd hp.2.2.1 (by have := op.level_le_six; omega)
      | _ => rfl
    have hhigher := highest_add_two_le room
    simp only [tree, Tree.height, ops]
    omega
  | joined l t op r ihl ihr =>
    obtain ⟨-, -, hl, hr⟩ := hp
    simp only [nesting] at hroom
    obtain ⟨room, rfl⟩ : ∃ k, room = k + 1 := ⟨room - 1, by omega⟩
    have hroomLeft : l.nesting ≤ room + 1 := by omega
    have hroomRight : r.nesting ≤ room - l.ops := by omega
    have hleft := ihl hl hroomLeft
    have hright := ihr hr hroomRight
    have hops := r.ops_le_nesting
    have hmono : highest (room - l.ops) ≤ highest room := highest_mono (Nat.sub_le _ _)
    have hhigher := highest_add_le room
    simp only [tree, Tree.height, ops]
    omega

/-- **A phrase has a tree of a bounded height.** -/
theorem height_le {p : Phrase} {least : Nat} (hp : p.Stands least) :
    p.tree.height ≤ highest p.nesting := by
  have hheight := height_add_le hp (Nat.le_refl _)
  have hops := p.ops_le_nesting
  omega

/-! ## Where the levels bound the height -/

/-- Whether a phrase is a chain of literals. -/
def isFlat : Phrase → Bool
  | .literal _ _ => true
  | .joined l _ _ (.literal _ _) => l.isFlat
  | _ => false

/-- Whether only the last operand of each chain is more than a literal. -/
def nestsLast : Phrase → Bool
  | .literal _ _ => true
  | .group _ p _ => p.nestsLast
  | .prefixed _ _ p => p.nestsLast
  | .joined l _ _ r => l.isFlat && r.nestsLast

theorem height_le_ops_of_isFlat {p : Phrase} (h : p.isFlat = true) : p.tree.height ≤ p.ops := by
  fun_induction isFlat p with
  | case1 t v => exact Nat.le_refl _
  | case2 l t op u v ih =>
    have hleft := ih h
    simp only [tree, Tree.height, ops]
    omega
  | case3 => cases h

theorem height_le_nesting {p : Phrase} (h : p.nestsLast = true) : p.tree.height ≤ p.nesting := by
  induction p with
  | literal t v => exact Nat.le_refl _
  | group o p c ih =>
    have hinner := ih h
    simp only [tree, nesting]
    omega
  | prefixed t op p ih =>
    have hinner := ih h
    simp only [tree, Tree.height, nesting]
    omega
  | joined l t op r ihl ihr =>
    obtain ⟨hflat, hlast⟩ := Bool.and_eq_true_iff.1 h
    have hleft := height_le_ops_of_isFlat hflat
    have hright := ihr hlast
    simp only [tree, Tree.height, nesting]
    omega

end Phrase

theorem highest_deepest : highest deepest = 32897 := by decide +kernel

/-! ## Highest trees -/

theorem denotes_empty (start : Nat) :
    (⟨.string, ['\'', '\''], start⟩ : Token).Denotes (.string "") :=
  .string rfl .nil

section

variable [Text.Alphabet]

/-- A phrase of sums, with a text that is cut into its tokens. -/
structure Written (start : Nat) (p : Phrase) : Prop where
  stands : p.Stands 5
  scans : ∃ text, Scans start text p.tokens

theorem written_empty (start : Nat) :
    Written start (.literal ⟨.string, ['\'', '\''], start⟩ (.string "")) :=
  ⟨denotes_empty start, _, Scans.token start fun _ => rfl⟩

theorem Written.negate {start : Nat} {p : Phrase} (h : Written (start + 1) p)
    (hp : p.Stands 7) : Written start (.prefixed ⟨.minus, ['-'], start⟩ .negate p) := by
  obtain ⟨text, htext⟩ := h.scans
  have hminus : Scans start ['-'] [⟨.minus, ['-'], start⟩] := Scans.token start fun _ => rfl
  exact ⟨⟨by decide, rfl, hp⟩, _, hminus.append htext⟩

theorem Written.group {start : Nat} {p : Phrase} (h : Written (start + 1) p) :
    ∃ c, Written start (.group ⟨.openParen, ['('], start⟩ p c) := by
  obtain ⟨text, htext⟩ := h.scans
  have hopen : Scans start ['('] [⟨.openParen, ['('], start⟩] := Scans.token start fun _ => rfl
  have hclose (place : Nat) : Scans place [')'] [⟨.closeParen, [')'], place⟩] :=
    Scans.token place fun _ => rfl
  exact ⟨_, ⟨rfl, rfl, h.stands.mono (by decide)⟩, _, hopen.append (htext.append (hclose _))⟩

/-- An operator and a literal put at the end of a chain: the chain is one longer, and so is the
tree higher. -/
theorem Written.add {start : Nat} {p : Phrase} (h : Written start p) :
    ∃ q, Written start q ∧ q.ops = p.ops + 1 ∧ q.nesting = max p.nesting (p.ops + 1) ∧
      q.tree.height = p.tree.height + 1 := by
  obtain ⟨text, htext⟩ := h.scans
  have hplus (place : Nat) : Scans place ['+'] [⟨.plus, ['+'], place⟩] :=
    Scans.token place fun _ => rfl
  obtain ⟨other, hother⟩ :=
    (written_empty (start + Text.byteSize text + Text.byteSize ['+'])).scans
  refine ⟨.joined p _ (.arithmetic .add) (.literal _ (.string "")),
    ⟨⟨Nat.le_refl 5, rfl, h.stands, denotes_empty _⟩, _, htext.append ((hplus _).append hother)⟩,
    rfl, rfl, ?_⟩
  simp only [Phrase.tree, Tree.height]
  omega

theorem Written.add_many {start : Nat} {p : Phrase} (h : Written start p) (n : Nat) :
    ∃ q, Written start q ∧ q.ops = p.ops + n ∧ q.nesting = max p.nesting (p.ops + n) ∧
      q.tree.height = p.tree.height + n := by
  induction n with
  | zero =>
    have hops := p.ops_le_nesting
    exact ⟨p, h, rfl, by omega, rfl⟩
  | succ n ih =>
    obtain ⟨q, hq, hops, hnesting, hheight⟩ := ih
    obtain ⟨q', hq', hops', hnesting', hheight'⟩ := hq.add
    exact ⟨q', hq', by omega, by omega, by omega⟩

/-- Each nesting has a phrase of the height that bounds it: the one of the nesting below in
parentheses, and a chain of literals behind it as long as there is room. -/
theorem exists_tower (n start : Nat) :
    ∃ p, Written start p ∧ p.nesting = n + 1 ∧ p.tree.height = highest (n + 1) := by
  induction n generalizing start with
  | zero =>
    have hnegated := (written_empty (start + 1)).negate (written_empty _).stands
    obtain ⟨p, hp, -, hnesting, hheight⟩ := hnegated.add
    exact ⟨p, hp, hnesting, hheight⟩
  | succ n ih =>
    obtain ⟨p, hp, hnesting, hheight⟩ := ih (start + 1)
    obtain ⟨c, hgroup⟩ := hp.group
    obtain ⟨q, hq, -, hnesting', hheight'⟩ := hgroup.add_many (n + 2)
    refine ⟨q, hq, ?_, ?_⟩
    · simp only [Phrase.nesting, Phrase.ops] at hnesting'
      omega
    · rw [hheight', highest, ← hheight]
      rfl

/-- A written phrase that there is room for is read. -/
theorem Written.parse {p : Phrase} (h : Written 0 p) (hroom : p.nesting ≤ deepest) :
    ∃ text, parse text = .ok p.tree := by
  obtain ⟨text, htext⟩ := h.scans
  have hfits := Phrase.fits_disjunction_iff.2 (h.stands.mono (Nat.zero_le 5))
  have hlexes := htext.lexes h.stands.kind_ne_blank
  exact ⟨text, parse_eq_ok_iff.2 ⟨p, ⟨hfits, hlexes⟩, rfl, hroom⟩⟩

/-! ## Texts -/

theorem height_le_of_parse {text : List Char} {tree : Tree} (h : parse text = .ok tree) :
    tree.height ≤ 32897 := by
  obtain ⟨p, hp, rfl, hroom⟩ := parse_eq_ok_iff.1 h
  rw [← highest_deepest]
  exact Nat.le_trans (Phrase.height_le hp.fits.stands) (highest_mono hroom)

/-- **The bound is attained.** There is a text that is read as a tree of this height. -/
theorem exists_parse_height_eq : ∃ text tree, parse text = .ok tree ∧ tree.height = 32897 := by
  obtain ⟨p, hp, hnesting, hheight⟩ := exists_tower 255 0
  obtain ⟨text, htext⟩ := hp.parse (Nat.le_of_eq hnesting)
  exact ⟨text, p.tree, htext, hheight.trans highest_deepest⟩

/-- **What the limit on the nesting says about the height of a tree.** A text of the grammar is read
just if its phrase takes 256 levels at most, and refused as nested too deep if not. So the limit
bounds the height of what is read just if the phrase of the text is not higher than 256 where it
takes no more levels; and it does if only the last operand of each chain is more than a literal.
Whatever the text is, its tree is not higher than 32897. -/
theorem height_of_parse (text : List Char) :
    (∀ tree, parse text = .ok tree ↔
      ∃ p : Phrase, p.IsOf text ∧ p.tree = tree ∧ p.nesting ≤ 256) ∧
    (∀ p : Phrase, p.IsOf text → 256 < p.nesting →
      ∃ span, parse text = .error ⟨.nestedTooDeep, span⟩) ∧
    ((∀ tree, parse text = .ok tree → tree.height ≤ 256) ↔
      ∀ p : Phrase, p.IsOf text → p.nesting ≤ 256 → p.tree.height ≤ 256) ∧
    (∀ p : Phrase, p.IsOf text → p.nestsLast = true →
      ∀ tree, parse text = .ok tree → tree.height ≤ 256) ∧
    (∀ tree, parse text = .ok tree → tree.height ≤ 32897) := by
  have hexact : (∀ tree, parse text = .ok tree → tree.height ≤ 256) ↔
      ∀ p : Phrase, p.IsOf text → p.nesting ≤ 256 → p.tree.height ≤ 256 := by
    constructor
    · intro h p hp hroom
      exact h p.tree (parse_eq_ok_iff.2 ⟨p, hp, rfl, hroom⟩)
    · intro h tree htree
      obtain ⟨p, hp, rfl, hroom⟩ := parse_eq_ok_iff.1 htree
      exact h p hp hroom
  refine ⟨fun tree => parse_eq_ok_iff, fun p hp hdeep => tooDeep_parse hp hdeep, hexact,
    fun p hp hlast => hexact.2 fun q hq hroom => ?_, fun tree h => height_le_of_parse h⟩
  have hread : parse text = .ok q.tree := parse_eq_ok_iff.2 ⟨q, hq, rfl, hroom⟩
  have htokens : q.tokens = p.tokens := hq.lexes.tokens_eq.symm.trans hp.lexes.tokens_eq
  have hnesting : p.nesting ≤ 256 := Nat.not_lt.1 fun hdeep => (tooDeep_parse hp hdeep).ne_ok hread
  rw [Phrase.tree_eq_of_tokens_eq hq.fits hp.fits htokens]
  exact Nat.le_trans (Phrase.height_le_nesting hlast) hnesting

end

section

open Text.Ascii

/-- As many prefix operators as there are levels, in front of a chain that goes on: the levels are
given back before the operator of the chain takes one. -/
theorem height_of_prefixes :
    let text := List.replicate 256 '!' ++ "true || false".toList
    (∃ tree, parse text = .ok tree ∧ tree.height = 257) ∧
      ∃ p : Phrase, p.IsOf text ∧ p.nesting ≤ 256 ∧ p.tree.height = 257 := by
  intro text
  have hheight : (parse text).toOption.map Tree.height = some 257 := by decide +kernel
  cases h : parse text with
  | error failure =>
    rw [h] at hheight
    cases hheight
  | ok tree =>
    rw [h] at hheight
    have htree : tree.height = 257 := Option.some.inj hheight
    obtain ⟨p, hp, rfl, hroom⟩ := ((height_of_parse text).1 tree).1 h
    exact ⟨⟨p.tree, rfl, htree⟩, p, hp, hroom, htree⟩

end

end Stencil.Expression
