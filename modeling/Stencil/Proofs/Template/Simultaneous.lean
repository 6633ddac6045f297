/-
Substitution where the tokens of a text can be told apart.

The variables take turns, each in the text that the ones before it left. Where a text is made of
pieces (tokens, and text without the sigil) that no other name can begin or cut in two
(`Unambiguous`), a turn puts a value in for the pieces that are tokens of its variable, and leaves
the others as they were (`replaceVariable_spell`). So the turns together do what one look at
every piece does, whatever their order (`substitute_spell`).
-/
import Stencil.Proofs.Template.Substitution

namespace Stencil.Template

/-! ## Pieces of a text -/

/-- A piece of a text. -/
inductive Piece where
  | plain (text : List Char)
  | braced (name : String)
  | bare (name : String)
  deriving Repr, DecidableEq

/-- The piece as it stands in the text. -/
def Piece.spelled (sigil : Char) : Piece → List Char
  | .plain text => text
  | .braced name => sigil :: Template.braced name.toList
  | .bare name => sigil :: name.toList

/-- The piece with the value of its name put in, if there is one. -/
def Piece.filled (sigil : Char) (entries : List Entry) (piece : Piece) : List Char :=
  match piece with
  | .plain text => text
  | .braced name | .bare name =>
    match Entry.find? name entries with
    | some value => value.text.toList
    | none => piece.spelled sigil

/-- The text that the pieces make. -/
def spell (sigil : Char) (pieces : List Piece) : List Char := pieces.flatMap (·.spelled sigil)

/-- The text that the pieces make, all values put in at once. -/
def fill (sigil : Char) (vars : Variables) (pieces : List Piece) : List Char :=
  pieces.flatMap (·.filled sigil vars.entries)

/-- Whether a name keeps clear of the characters that tokens are made with. -/
def IsClear (sigil : Char) (name : String) : Prop :=
  ∀ c ∈ name.toList, c ≠ sigil ∧ c ≠ '{' ∧ c ≠ '}'

instance (sigil : Char) (name : String) : Decidable (IsClear sigil name) :=
  List.decidableBAll (fun c => c ≠ sigil ∧ c ≠ '{' ∧ c ≠ '}') name.toList

/-- Where, for variables of these names, the tokens of a text can be told apart. -/
structure Unambiguous (sigil : Char) (names : List String) (pieces : List Piece) : Prop where
  ne_opening : sigil ≠ '{'
  ne_closing : sigil ≠ '}'
  of_name : ∀ name ∈ names, name ≠ "" ∧ IsClear sigil name
  of_plain : ∀ text, .plain text ∈ pieces → sigil ∉ text
  of_braced : ∀ name, .braced name ∈ pieces → IsClear sigil name
  /-- A bare token is of a name, and then no name begins another one. -/
  of_bare : ∀ name, .bare name ∈ pieces → name ∈ names ∧
    ∀ a ∈ names, ∀ b ∈ names, a.toList <+: b.toList → a = b

/-! ## One replacement -/

variable {sigil : Char} {others new : List Char} {names : List String} {pieces : List Piece}
  {entry : Entry}

/-- Whether a text has no part in the occurrences of `sigil :: others`, whatever follows it. -/
def Passes (sigil : Char) (others text : List Char) : Prop :=
  ∀ new rest, replace sigil others new (text ++ rest) = text ++ replace sigil others new rest

theorem passes_of_not_mem {text : List Char} (h : sigil ∉ text) : Passes sigil others text := by
  intro new rest
  induction text with
  | nil => rfl
  | cons c text ih =>
    rw [List.mem_cons, not_or] at h
    rw [List.cons_append, replace, if_neg (fun hc => h.1 hc.1.symm), ih h.2, List.cons_append]

/-- A sigil with another word after it passes. -/
theorem passes_cons {word : List Char} (hsigil : sigil ∉ word)
    (hword : ∀ rest, ¬others <+: word ++ rest) : Passes sigil others (sigil :: word) := by
  intro new rest
  have hno : ¬(sigil = sigil ∧ others.isPrefixOf (word ++ rest) = true) := fun hc =>
    hword rest (List.isPrefixOf_iff_prefix.1 hc.2)
  rw [List.cons_append, replace, if_neg hno, passes_of_not_mem hsigil, List.cons_append]

/-- The pieces with one of them exchanged for a text. -/
def exchange (old : Piece) (new : List Char) (pieces : List Piece) : List Piece :=
  pieces.map fun piece => if piece = old then .plain new else piece

theorem replace_spell (old : Piece) (hold : old.spelled sigil = sigil :: others)
    (h : ∀ piece ∈ pieces, piece ≠ old → Passes sigil others (piece.spelled sigil)) :
    replace sigil others new (spell sigil pieces) = spell sigil (exchange old new pieces) := by
  induction pieces with
  | nil => simp [spell, exchange, replace]
  | cons piece rest ih =>
    obtain ⟨hpiece, hrest⟩ := List.forall_mem_cons.1 h
    have htail := ih hrest
    simp only [spell, exchange] at htail
    simp only [spell, exchange, List.flatMap_cons, List.map_cons]
    by_cases hp : piece = old
    · subst hp
      have hfront : others.isPrefixOf (others ++ rest.flatMap (·.spelled sigil)) = true :=
        List.isPrefixOf_iff_prefix.2 (List.prefix_append _ _)
      rw [hold, if_pos rfl, List.cons_append, replace, if_pos ⟨rfl, hfront⟩, List.drop_left, htail]
      rfl
    · rw [if_neg hp, hpiece hp, htail]

/-! ## One variable -/

/-- Up to the first closing brace there is one text only. -/
theorem eq_of_closed_prefix {a b rest : List Char} (ha : '}' ∉ a) (hb : '}' ∉ b)
    (h : a ++ ['}'] <+: b ++ '}' :: rest) : a = b := by
  induction a generalizing b with
  | nil =>
    cases b with
    | nil => rfl
    | cons d b => simp_all
  | cons c a ih =>
    cases b with
    | nil => simp_all
    | cons d b =>
      simp only [List.cons_append, List.cons_prefix_cons] at h
      simp only [List.mem_cons, not_or] at ha hb
      rw [h.1, ih ha.2 hb.2 h.2]

theorem IsClear.not_mem {name : String} (h : IsClear sigil name) :
    sigil ∉ name.toList ∧ '{' ∉ name.toList ∧ '}' ∉ name.toList :=
  ⟨fun hc => (h _ hc).1 rfl, fun hc => (h _ hc).2.1 rfl, fun hc => (h _ hc).2.2 rfl⟩

namespace Unambiguous

/-- Of a nonempty name the first character is no brace. -/
theorem exists_cons (h : Unambiguous sigil names pieces) {name : String} (hname : name ∈ names) :
    ∃ c rest, name.toList = c :: rest ∧ c ≠ '{' := by
  obtain ⟨hne, hclear⟩ := h.of_name name hname
  cases hl : name.toList with
  | nil => exact absurd (String.toList_eq_nil_iff.1 hl) hne
  | cons c rest => exact ⟨c, rest, rfl, (hclear c (by simp [hl])).2.1⟩

theorem not_mem_braced (h : Unambiguous sigil names pieces) {name : String}
    (hname : .braced name ∈ pieces) : sigil ∉ Template.braced name.toList := by
  have hclear := (h.of_braced name hname).not_mem.1
  simp [Template.braced, h.ne_opening, h.ne_closing, hclear]

/-- The bare token of a name meets no other piece. -/
theorem passes_bare (h : Unambiguous sigil names pieces) {name : String} (hname : name ∈ names)
    {piece : Piece} (hpiece : piece ∈ pieces) (hne : piece ≠ .bare name) :
    Passes sigil name.toList (piece.spelled sigil) := by
  cases piece with
  | plain text => exact passes_of_not_mem (h.of_plain text hpiece)
  | braced other =>
    obtain ⟨c, rest, hl, hc⟩ := h.exists_cons hname
    refine passes_cons (h.not_mem_braced hpiece) fun tail hfront => hc ?_
    rw [hl, Template.braced, List.cons_append, List.cons_append, List.cons_prefix_cons] at hfront
    exact hfront.1
  | bare other =>
    obtain ⟨hother, hbegins⟩ := h.of_bare other hpiece
    refine passes_cons (h.of_name other hother).2.not_mem.1 fun tail hfront => hne ?_
    rcases List.prefix_or_prefix_of_prefix hfront (List.prefix_append _ _) with hin | hout
    · rw [hbegins name hname other hother hin]
    · rw [hbegins other hother name hname hout]

/-- The braced token of a name meets no other piece. -/
theorem passes_braced (h : Unambiguous sigil names pieces) {name : String} (hname : name ∈ names)
    {piece : Piece} (hpiece : piece ∈ pieces) (hne : piece ≠ .braced name) :
    Passes sigil (Template.braced name.toList) (piece.spelled sigil) := by
  cases piece with
  | plain text => exact passes_of_not_mem (h.of_plain text hpiece)
  | braced other =>
    refine passes_cons (h.not_mem_braced hpiece) fun tail hfront => hne ?_
    simp only [Template.braced, List.cons_append, List.append_assoc, List.nil_append,
      List.cons_prefix_cons, true_and] at hfront
    have hclose := eq_of_closed_prefix (h.of_name name hname).2.not_mem.2.2
      (h.of_braced other hpiece).not_mem.2.2 hfront
    rw [String.toList_inj.1 hclose]
  | bare other =>
    obtain ⟨hother, -⟩ := h.of_bare other hpiece
    obtain ⟨c, rest, hl, hc⟩ := h.exists_cons hother
    refine passes_cons (h.of_name other hother).2.not_mem.1 fun tail hfront => hc ?_
    rw [hl, Template.braced, List.cons_append, List.cons_append, List.cons_prefix_cons] at hfront
    exact hfront.1.symm

/-- A text without the sigil may take the place of a piece. -/
theorem exchange (h : Unambiguous sigil names pieces) {old : Piece} (hnew : sigil ∉ new) :
    Unambiguous sigil names (Template.exchange old new pieces) := by
  have hback {piece : Piece} (hpiece : piece ∈ Template.exchange old new pieces) :
      piece ∈ pieces ∨ piece = .plain new := by
    obtain ⟨q, hq, rfl⟩ := List.mem_map.1 hpiece
    split
    · exact .inr rfl
    · exact .inl hq
  refine ⟨h.ne_opening, h.ne_closing, h.of_name, fun text ht => ?_, fun name hname => ?_,
    fun name hname => ?_⟩
  · rcases hback ht with hin | heq
    · exact h.of_plain text hin
    · cases heq; exact hnew
  · rcases hback hname with hin | heq
    · exact h.of_braced name hin
    · cases heq
  · rcases hback hname with hin | heq
    · exact h.of_bare name hin
    · cases heq

end Unambiguous

/-- The turn of a variable puts its value in for its tokens. -/
theorem replaceVariable_spell (h : Unambiguous sigil names pieces) (hname : entry.1 ∈ names)
    (hvalue : sigil ∉ entry.2.text.toList) :
    replaceVariable sigil (spell sigil pieces) entry =
      spell sigil (exchange (.braced entry.1) entry.2.text.toList
        (exchange (.bare entry.1) entry.2.text.toList pieces)) := by
  rw [replaceVariable_eq, replace_spell (.bare entry.1) rfl fun _ => h.passes_bare hname]
  exact replace_spell (.braced entry.1) rfl fun _ => (h.exchange hvalue).passes_braced hname

/-! ## All variables -/

theorem flatMap_filled_exchange (entry : Entry) (entries : List Entry) (pieces : List Piece) :
    (exchange (.braced entry.1) entry.2.text.toList
      (exchange (.bare entry.1) entry.2.text.toList pieces)).flatMap (·.filled sigil entries) =
        pieces.flatMap (·.filled sigil (entry :: entries)) := by
  obtain ⟨name, value⟩ := entry
  have hpiece (piece : Piece) :
      (if (if piece = .bare name then .plain value.text.toList else piece) = .braced name then
          .plain value.text.toList
        else if piece = .bare name then .plain value.text.toList else piece).filled sigil entries =
      piece.filled sigil ((name, value) :: entries) := by
    cases piece with
    | plain text => simp [Piece.filled]
    | braced other | bare other =>
      by_cases hname : other = name
      · simp [Piece.filled, Entry.find?, hname]
      · simp [Piece.filled, Entry.find?, hname, Ne.symm hname, Piece.spelled]
  rw [exchange, exchange, List.map_map, List.flatMap_map]
  exact congrArg (pieces.flatMap ·) (funext hpiece)

theorem foldl_spell {entries : List Entry} (h : Unambiguous sigil names pieces)
    (hentries : ∀ entry ∈ entries, entry.1 ∈ names ∧ sigil ∉ entry.2.text.toList) :
    entries.foldl (replaceVariable sigil) (spell sigil pieces) =
      pieces.flatMap (·.filled sigil entries) := by
  induction entries generalizing pieces with
  | nil =>
    have hfilled (piece : Piece) : piece.filled sigil [] = piece.spelled sigil := by
      cases piece <;> rfl
    simp [spell, hfilled]
  | cons entry rest ih =>
    obtain ⟨⟨hname, hvalue⟩, hrest⟩ := List.forall_mem_cons.1 hentries
    rw [List.foldl_cons, replaceVariable_spell h hname hvalue,
      ih ((h.exchange hvalue).exchange hvalue) hrest, flatMap_filled_exchange]

/-- **Variables that take turns are put in at once.** Where the tokens of a text can be told apart,
and no value has the sigil in it, the text is filled in piece by piece: a token of a name that is
there becomes its value, and all else stays. So the order of the variables does not matter. -/
theorem substitute_spell {vars : Variables} (h : Unambiguous sigil vars.keys pieces)
    (hvalues : ∀ entry ∈ vars.entries, sigil ∉ entry.2.text.toList) :
    substitute sigil vars (spell sigil pieces) = fill sigil vars pieces ∧
      ∀ vars' : Variables, vars'.entries.Perm vars.entries →
        substitute sigil vars' (spell sigil pieces) = fill sigil vars pieces := by
  have hany (vars' : Variables) (hperm : vars'.entries.Perm vars.entries) :
      substitute sigil vars' (spell sigil pieces) = fill sigil vars pieces := by
    have hentries (entry : Entry) (hin : entry ∈ vars'.entries) :
        entry.1 ∈ vars.keys ∧ sigil ∉ entry.2.text.toList := by
      have hin' := hperm.mem_iff.1 hin
      exact ⟨List.mem_map_of_mem hin', hvalues entry hin'⟩
    have hfilled (piece : Piece) :
        piece.filled sigil vars'.entries = piece.filled sigil vars.entries := by
      have hget := Variables.get?_eq_of_perm hperm
      simp only [Variables.get?] at hget
      cases piece <;> simp only [Piece.filled, hget]
    rw [substitute_eq_foldl, foldl_spell h hentries, fill]
    exact congrArg (pieces.flatMap ·) (funext hfilled)
  exact ⟨hany vars (.refl _), hany⟩

/-- With two names of which neither begins the other: a bare token that the other name could go on
in, a value that looks like a name in braces, and a name that is not there but goes on from one that
is. -/
theorem substitute_overlapping :
    let vars : Variables := .ofList [("ab", .string "\x7bb\x7d"), ("b", .integer 7)]
    let pieces : List Piece :=
      [.plain ['a'], .bare "ab", .plain ['b'], .braced "b", .bare "b", .braced "abc"]
    spell '$' pieces = "a$abb$\x7bb\x7d$b$\x7babc\x7d".toList ∧
      substitute '$' vars (spell '$' pieces) = "a\x7bb\x7db77$\x7babc\x7d".toList ∧
      substitute '$' (.ofList vars.entries.reverse) (spell '$' pieces) =
        "a\x7bb\x7db77$\x7babc\x7d".toList := by
  intro vars pieces
  have hclear : Unambiguous '$' vars.keys pieces := by
    refine ⟨by decide, by decide, by decide +kernel, fun text ht => ?_, fun name hname => ?_,
      fun name hname => ?_⟩
    · have ht : text = ['a'] ∨ text = ['b'] := by simpa [pieces] using ht
      rcases ht with rfl | rfl <;> decide
    · have hname : name = "b" ∨ name = "abc" := by simpa [pieces] using hname
      rcases hname with rfl | rfl <;> decide
    · have hname : name = "ab" ∨ name = "b" := by simpa [pieces] using hname
      rcases hname with rfl | rfl <;> decide +kernel
  have hfill : fill '$' vars pieces = "a\x7bb\x7db77$\x7babc\x7d".toList := by decide +kernel
  have hentries : (Variables.ofList vars.entries.reverse).entries = vars.entries.reverse := rfl
  obtain ⟨hsame, hany⟩ := substitute_spell hclear (by decide +kernel)
  refine ⟨by decide +kernel, hsame.trans hfill, (hany _ ?_).trans hfill⟩
  rw [hentries]
  exact List.reverse_perm vars.entries

end Stencil.Template
