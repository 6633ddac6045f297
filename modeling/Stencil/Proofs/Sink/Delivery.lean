/-
What reaches a writer, call by call.

A `Sink` has its answers fixed in advance. A `Writer` is whatever can be written to: how it answers a
write may depend on the writes before and on what it is offered, and it may be interrupted for ever.
A `Moment` is what there is between two calls to it. At each moment what was accepted is the front of
what was to be written, and only all of it is flushed (`Moment.Sound`); every call keeps this, so it
holds of all moments. What `Engine.renderTo` makes of a sink is where the calls to it end
(`Moment.reaches_deliver`).
-/
import Mathlib.Data.Nat.Find
import Stencil.Sink

namespace Stencil

/-- How something that is written to behaves: its answer to a write, by the number of writes before
and the bytes that it is offered, and whether it fails to flush. -/
structure Writer where
  reply : Nat → List UInt8 → Reply
  flushFailure? : Option String := none

namespace Sink

/-- A sink answers the first writes as is fixed, and accepts the others up to its limit. -/
def writer (sink : Sink) : Writer where
  reply writes offered := sink.replies[writes]?.getD (.accept (sink.limit?.getD offered.length))
  flushFailure? := sink.flushFailure?

variable {sink : Sink} {writes : Nat}

theorem reply_writer {reply : Reply} {replies : List Reply}
    (h : reply :: replies = sink.replies.drop writes) (offered : List UInt8) :
    sink.writer.reply writes offered = reply ∧ replies = sink.replies.drop (writes + 1) := by
  have hreply : sink.replies[writes]? = some reply := by
    rw [← List.head?_drop, ← h, List.head?_cons]
  refine ⟨?_, ?_⟩
  · simp only [writer, hreply, Option.getD_some]
  · rw [← List.tail_drop, ← h, List.tail_cons]

theorem reply_writer_of_le (h : sink.replies.length ≤ writes) (offered : List UInt8) :
    sink.writer.reply writes offered = .accept (sink.limit?.getD offered.length) := by
  simp only [writer, List.getElem?_eq_none h, Option.getD_none]

end Sink

/-- What comes next: a write of the bytes that are left, or a flush if there are none; or nothing any
more. -/
inductive Stage where
  | offering (left : List UInt8)
  | returned (result : Except Error Unit)

/-- What there is between two calls to a writer. -/
structure Moment where
  delivery : Delivery
  stage : Stage

namespace Moment

/-- The result of what has gone well but for this. -/
def settled : Option String → Except Error Unit
  | none => .ok ()
  | some cause => .error (.io cause)

/-- One call to the writer. -/
def next (w : Writer) (m : Moment) : Moment :=
  match m.stage with
  | .returned _ => m
  | .offering [] =>
    ⟨{ m.delivery with flushes := m.delivery.flushes + 1 }, .returned (settled w.flushFailure?)⟩
  | .offering (b :: rest) =>
    let left := b :: rest
    let d := { m.delivery with writes := m.delivery.writes + 1 }
    match w.reply m.delivery.writes left with
    | .interrupted => ⟨d, .offering left⟩
    | .failed cause => ⟨d, .returned (settled (some cause))⟩
    | .accept 0 => ⟨d, .returned (settled (some Sink.nothingAccepted))⟩
    | .accept limit =>
      ⟨{ d with accepted := d.accepted ++ left.take limit }, .offering (left.drop limit)⟩

/-- So many calls to the writer. -/
def after (w : Writer) (m : Moment) : Nat → Moment
  | 0 => m
  | n + 1 => (m.next w).after w n

variable {w : Writer} {m : Moment} {d : Delivery} {bytes left : List UInt8}

section

variable (hleft : left ≠ [])
include hleft

theorem next_interrupted (h : w.reply d.writes left = .interrupted) :
    next w ⟨d, .offering left⟩ = ⟨{ d with writes := d.writes + 1 }, .offering left⟩ := by
  obtain ⟨b, rest, rfl⟩ := List.exists_cons_of_ne_nil hleft
  simp only [next, h]

theorem next_failed {cause : String} (h : w.reply d.writes left = .failed cause) :
    next w ⟨d, .offering left⟩ =
      ⟨{ d with writes := d.writes + 1 }, .returned (settled (some cause))⟩ := by
  obtain ⟨b, rest, rfl⟩ := List.exists_cons_of_ne_nil hleft
  simp only [next, h]

theorem next_accept_zero (h : w.reply d.writes left = .accept 0) :
    next w ⟨d, .offering left⟩ =
      ⟨{ d with writes := d.writes + 1 }, .returned (settled (some Sink.nothingAccepted))⟩ := by
  obtain ⟨b, rest, rfl⟩ := List.exists_cons_of_ne_nil hleft
  simp only [next, h]

theorem next_accept {limit : Nat} (h : w.reply d.writes left = .accept limit) (hlimit : limit ≠ 0) :
    next w ⟨d, .offering left⟩ =
      ⟨{ d with accepted := d.accepted ++ left.take limit, writes := d.writes + 1 },
        .offering (left.drop limit)⟩ := by
  obtain ⟨b, rest, rfl⟩ := List.exists_cons_of_ne_nil hleft
  obtain ⟨n, rfl⟩ := Nat.exists_eq_succ_of_ne_zero hlimit
  simp only [next, h]

end

theorem after_returned (w : Writer) (d : Delivery) (result : Except Error Unit) (n : Nat) :
    after w ⟨d, .returned result⟩ n = ⟨d, .returned result⟩ := by
  induction n with
  | zero => rfl
  | succ n ih => exact ih

theorem after_add (w : Writer) (m : Moment) (k n : Nat) :
    m.after w (k + n) = (m.after w k).after w n := by
  induction k generalizing m with
  | zero => rw [Nat.zero_add, after]
  | succ k ih => rw [Nat.succ_add, after, ih, after]

/-! ## What holds at each moment -/

/-- Whether a moment is one on the way of these bytes to a writer: what was accepted and what is left
are all of them; a write that was refused ends it with something left, and the flush ends it with
nothing left. -/
inductive Sound (w : Writer) (bytes : List UInt8) : Moment → Prop
  | offering {d : Delivery} {left : List UInt8} (hbytes : d.accepted ++ left = bytes)
      (hflushes : d.flushes = 0) : Sound w bytes ⟨d, .offering left⟩
  | refused {d : Delivery} {left : List UInt8} (cause : String) (hbytes : d.accepted ++ left = bytes)
      (hleft : left ≠ []) (hflushes : d.flushes = 0) :
      Sound w bytes ⟨d, .returned (settled (some cause))⟩
  | flushed {d : Delivery} (hbytes : d.accepted = bytes) (hflushes : d.flushes = 1) :
      Sound w bytes ⟨d, .returned (settled w.flushFailure?)⟩

namespace Sound

theorem next (h : Sound w bytes m) : Sound w bytes (m.next w) := by
  cases h with
  | @offering d left hbytes hflushes =>
    cases left with
    | nil =>
      rw [List.append_nil] at hbytes
      exact .flushed hbytes (congrArg (· + 1) hflushes)
    | cons b rest =>
      have hleft : b :: rest ≠ [] := List.cons_ne_nil b rest
      cases hreply : w.reply d.writes (b :: rest) with
      | interrupted =>
        rw [next_interrupted hleft hreply]
        exact .offering hbytes hflushes
      | failed cause =>
        rw [next_failed hleft hreply]
        exact .refused cause hbytes hleft hflushes
      | accept limit =>
        by_cases hlimit : limit = 0
        · subst hlimit
          rw [next_accept_zero hleft hreply]
          exact .refused _ hbytes hleft hflushes
        · rw [next_accept hleft hreply hlimit]
          refine .offering ?_ hflushes
          rw [List.append_assoc, List.take_append_drop]
          exact hbytes
  | refused cause hbytes hleft hflushes => exact .refused cause hbytes hleft hflushes
  | flushed hbytes hflushes => exact .flushed hbytes hflushes

theorem after (h : Sound w bytes m) (n : Nat) : Sound w bytes (m.after w n) := by
  induction n generalizing m with
  | zero => exact h
  | succ n ih => exact ih h.next

theorem accepted_prefix (h : Sound w bytes m) : m.delivery.accepted <+: bytes := by
  cases h with
  | offering hbytes => exact ⟨_, hbytes⟩
  | refused _ hbytes => exact ⟨_, hbytes⟩
  | flushed hbytes => exact hbytes ▸ List.prefix_rfl

theorem flushes_le_one (h : Sound w bytes m) : m.delivery.flushes ≤ 1 := by
  cases h with
  | offering _ hflushes => exact hflushes ▸ Nat.zero_le 1
  | refused _ _ _ hflushes => exact hflushes ▸ Nat.zero_le 1
  | flushed _ hflushes => exact Nat.le_of_eq hflushes

theorem accepted_eq_of_flushes (h : Sound w bytes m) (hpos : 0 < m.delivery.flushes) :
    m.delivery.accepted = bytes := by
  cases h with
  | offering _ hflushes => exact absurd hflushes (Nat.ne_of_gt hpos)
  | refused _ _ _ hflushes => exact absurd hflushes (Nat.ne_of_gt hpos)
  | flushed hbytes => exact hbytes

theorem returned_ok_iff (h : Sound w bytes m) :
    m.stage = .returned (.ok ()) ↔
      m.delivery.accepted = bytes ∧ m.delivery.flushes = 1 ∧ w.flushFailure? = none := by
  cases h with
  | offering _ hflushes => simp [hflushes]
  | refused _ _ _ hflushes => simp [hflushes, settled]
  | flushed hbytes hflushes =>
    cases hfailure : w.flushFailure? with
    | none => simp [hbytes, hflushes, settled]
    | some cause => simp [settled]

theorem exists_cause_of_returned {error : Error} (h : Sound w bytes m)
    (hstage : m.stage = .returned (.error error)) : ∃ cause, error = .io cause := by
  cases h with
  | offering => cases hstage
  | refused cause =>
    cases hstage
    exact ⟨cause, rfl⟩
  | flushed =>
    cases hfailure : w.flushFailure? with
    | none => simp [hfailure, settled] at hstage
    | some cause =>
      simp only [hfailure, settled, Stage.returned.injEq, Except.error.injEq] at hstage
      exact ⟨cause, hstage.symm⟩

end Sound

/-! ## Where the calls end -/

/-- Whether one moment comes so many calls after another. -/
def Reaches (w : Writer) (m m' : Moment) : Prop := ∃ n, m.after w n = m'

namespace Reaches

variable {m' m'' : Moment}

theorem refl (w : Writer) (m : Moment) : Reaches w m m := ⟨0, rfl⟩

theorem next (h : Reaches w (m.next w) m') : Reaches w m m' := by
  obtain ⟨n, hn⟩ := h
  exact ⟨n + 1, hn⟩

theorem trans (h : Reaches w m m') (h' : Reaches w m' m'') : Reaches w m m'' := by
  obtain ⟨k, rfl⟩ := h
  obtain ⟨n, rfl⟩ := h'
  exact ⟨k + n, after_add w m k n⟩

end Reaches

/-- The moment at which all was accepted, or a write was refused for this cause. -/
def ofWrites : Delivery × Option String → Moment
  | (d, none) => ⟨d, .offering []⟩
  | (d, some cause) => ⟨d, .returned (settled (some cause))⟩

variable {sink : Sink}

/-- A sink that accepts up to a limit each time accepts all, if the limit is not zero. Without a limit
it does so at once, so the number of bytes that it is offered first may stand for the limit. -/
theorem reaches_writeSteadily {limit : Nat} (hreplies : sink.replies.length ≤ d.writes)
    (hlimit : sink.limit? = some limit ∨ sink.limit? = none ∧ left.length ≤ limit) :
    Reaches sink.writer ⟨d, .offering left⟩ (ofWrites (Sink.writeSteadily limit d left)) := by
  fun_induction Sink.writeSteadily limit d left with
  | case1 d => exact .refl _ _
  | case2 d left hleft hzero =>
    subst hzero
    have hreply : sink.writer.reply d.writes left = .accept 0 := by
      rw [Sink.reply_writer_of_le hreplies]
      rcases hlimit with hlimit | ⟨-, hlength⟩
      · rw [hlimit, Option.getD_some]
      · exact absurd (List.eq_nil_of_length_eq_zero (Nat.le_zero.1 hlength)) hleft
    exact .next (next_accept_zero hleft hreply ▸ .refl _ _)
  | case3 d left hleft hpos d' ih =>
    have hnext : next sink.writer ⟨d, .offering left⟩ = ⟨d', .offering (left.drop limit)⟩ := by
      have hreply := Sink.reply_writer_of_le hreplies left
      rcases hlimit with hlimit | ⟨hnone, hlength⟩
      · rw [hlimit, Option.getD_some] at hreply
        exact next_accept hleft hreply hpos
      · rw [hnone, Option.getD_none] at hreply
        have htake : left.take left.length = left.take limit := by
          rw [List.take_length, List.take_of_length_le hlength]
        have hdrop : left.drop left.length = left.drop limit := by
          rw [List.drop_length, List.drop_of_length_le hlength]
        rw [next_accept hleft hreply (mt List.eq_nil_of_length_eq_zero hleft), htake, hdrop]
    refine .next (hnext ▸ ih (Nat.le_succ_of_le hreplies) ?_)
    exact hlimit.imp_right fun h => ⟨h.1, by
      rw [List.length_drop]
      exact Nat.le_trans (Nat.sub_le _ _) h.2⟩

theorem reaches_writeBytes {replies : List Reply} (hreplies : replies = sink.replies.drop d.writes) :
    Reaches sink.writer ⟨d, .offering left⟩
      (ofWrites (Sink.writeBytes sink.limit? replies d left)) := by
  fun_induction Sink.writeBytes sink.limit? replies d left with
  | case1 => exact .refl _ _
  | case2 d left hleft =>
    refine reaches_writeSteadily (List.drop_eq_nil_iff.1 hreplies.symm) ?_
    cases sink.limit? with
    | none => exact .inr ⟨rfl, Nat.le_refl _⟩
    | some limit => exact .inl rfl
  | case3 replies d left hleft d' ih =>
    obtain ⟨hreply, hrest⟩ := Sink.reply_writer hreplies left
    exact .next (next_interrupted hleft hreply ▸ ih hrest)
  | case4 replies d left hleft d' cause =>
    obtain ⟨hreply, -⟩ := Sink.reply_writer hreplies left
    exact .next (next_failed hleft hreply ▸ .refl _ _)
  | case5 replies d left hleft d' =>
    obtain ⟨hreply, -⟩ := Sink.reply_writer hreplies left
    exact .next (next_accept_zero hleft hreply ▸ .refl _ _)
  | case6 replies d left hleft d' limit hlimit ih =>
    obtain ⟨hreply, hrest⟩ := Sink.reply_writer hreplies left
    exact .next (next_accept hleft hreply hlimit ▸ ih hrest)

/-- What is delivered to a sink is what there is when the calls to it end. -/
theorem reaches_deliver (sink : Sink) (bytes : List UInt8) :
    Reaches sink.writer ⟨{}, .offering bytes⟩
      ⟨(sink.deliver bytes).1, .returned (settled (sink.deliver bytes).2)⟩ := by
  have hwrites : Reaches sink.writer ⟨{}, .offering bytes⟩
      (ofWrites (Sink.writeBytes sink.limit? sink.replies {} bytes)) :=
    reaches_writeBytes rfl
  obtain ⟨⟨d, cause?⟩, hwritten⟩ : ∃ r, Sink.writeBytes sink.limit? sink.replies {} bytes = r :=
    ⟨_, rfl⟩
  rw [hwritten] at hwrites
  rw [Sink.deliver, hwritten]
  cases cause? with
  | some cause => exact hwrites
  | none => exact hwrites.trans (.next (.refl _ _))

/-- Whether a writer is interrupted for ever, with something left. -/
def IsStuck (w : Writer) (m : Moment) : Prop :=
  ∃ left, left ≠ [] ∧ ∀ n, (m.after w n).stage = .offering left ∧
    w.reply (m.after w n).delivery.writes left = .interrupted

theorem after_of_interrupted (hleft : left ≠ []) {n : Nat}
    (h : ∀ k < n, w.reply (d.writes + k) left = .interrupted) :
    after w ⟨d, .offering left⟩ n = ⟨{ d with writes := d.writes + n }, .offering left⟩ := by
  induction n with
  | zero => rfl
  | succ n ih =>
    have hn : w.reply (d.writes + n) left = .interrupted := h n (Nat.lt_succ_self n)
    rw [after_add, ih fun k hk => h k (Nat.lt_succ_of_lt hk)]
    exact next_interrupted hleft hn

/-- Unless it is interrupted for ever, the first write that is not interrupted is the last call, or
leaves less than there was. -/
theorem exists_of_not_isStuck (hleft : left ≠ []) (h : ¬IsStuck w ⟨d, .offering left⟩) :
    ∃ n, (∃ result, (after w ⟨d, .offering left⟩ n).stage = .returned result) ∨
      ∃ d' less, after w ⟨d, .offering left⟩ n = ⟨d', .offering less⟩ ∧
        less.length < left.length := by
  have hanswer : ∃ k, w.reply (d.writes + k) left ≠ .interrupted := by
    refine not_forall.1 fun hall => h ⟨left, hleft, fun n => ?_⟩
    rw [after_of_interrupted hleft fun k _ => hall k]
    exact ⟨rfl, hall n⟩
  have hbefore : after w ⟨d, .offering left⟩ (Nat.find hanswer) =
      ⟨{ d with writes := d.writes + Nat.find hanswer }, .offering left⟩ :=
    after_of_interrupted hleft fun k hk => not_not.1 (Nat.find_min hanswer hk)
  have hfirst := Nat.find_spec hanswer
  generalize Nat.find hanswer = k at hbefore hfirst
  refine ⟨k + 1, ?_⟩
  rw [after_add, hbefore, after, after]
  cases hreply : w.reply (d.writes + k) left with
  | interrupted => exact absurd hreply hfirst
  | failed cause =>
    rw [next_failed hleft hreply]
    exact .inl ⟨_, rfl⟩
  | accept limit =>
    by_cases hlimit : limit = 0
    · subst hlimit
      rw [next_accept_zero hleft hreply]
      exact .inl ⟨_, rfl⟩
    · rw [next_accept hleft hreply hlimit]
      refine .inr ⟨_, _, rfl, ?_⟩
      have hpos := List.length_pos_iff.2 hleft
      rw [List.length_drop]
      omega

/-- The calls end, or the writer is interrupted for ever from some call on. -/
theorem exists_returned_or_isStuck (w : Writer) (m : Moment) :
    ∃ n, (∃ result, (m.after w n).stage = .returned result) ∨ (m.after w n).IsStuck w := by
  obtain ⟨d, stage⟩ := m
  cases stage with
  | returned result => exact ⟨0, .inl ⟨result, rfl⟩⟩
  | offering left =>
    induction hlength : left.length using Nat.strongRecOn generalizing d left with
    | ind length ih =>
      subst hlength
      by_cases hleft : left = []
      · subst hleft
        exact ⟨1, .inl ⟨_, rfl⟩⟩
      by_cases hstuck : IsStuck w ⟨d, .offering left⟩
      · exact ⟨0, .inr hstuck⟩
      obtain ⟨k, hreturned | ⟨d', less, hless, hlt⟩⟩ := exists_of_not_isStuck hleft hstuck
      · exact ⟨k, .inl hreturned⟩
      · obtain ⟨n, hn⟩ := ih less.length hlt d' less rfl
        refine ⟨k + n, ?_⟩
        rw [after_add, hless]
        exact hn

end Moment

namespace Engine

/-- What there is before the first call to a writer that a template is rendered to. -/
def opening (e : Engine) (vars : Variables) (source : String) : Moment :=
  match (e.render vars source).result with
  | .error error => ⟨{}, .returned (.error error)⟩
  | .ok output => ⟨{}, .offering output.toUTF8.toList⟩

variable (e : Engine) (vars : Variables) (source : String)

theorem reaches_renderTo (sink : Sink) :
    (e.opening vars source).Reaches sink.writer
      ⟨(e.renderTo vars source sink).2, .returned (e.renderTo vars source sink).1.result⟩ := by
  simp only [opening, renderTo]
  cases (e.render vars source).result with
  | error error => exact .refl _ _
  | ok output =>
    have hdeliver := Moment.reaches_deliver sink output.toUTF8.toList
    obtain ⟨⟨d, cause?⟩, hdelivered⟩ : ∃ r, sink.deliver output.toUTF8.toList = r := ⟨_, rfl⟩
    rw [hdelivered] at hdeliver
    simp only [hdelivered]
    cases cause? <;> exact hdeliver

theorem renderTo_vars_calls (sink : Sink) :
    (e.renderTo vars source sink).1.vars = (e.render vars source).vars ∧
      (e.renderTo vars source sink).1.calls = (e.render vars source).calls := by
  simp only [renderTo]
  cases (e.render vars source).result with
  | error error => exact ⟨rfl, rfl⟩
  | ok output =>
    obtain ⟨⟨d, cause?⟩, hdelivered⟩ : ∃ r, sink.deliver output.toUTF8.toList = r := ⟨_, rfl⟩
    simp only [hdelivered]
    cases cause? <;> exact ⟨rfl, rfl⟩

theorem tryRender_vars_calls :
    (e.tryRender vars source).vars = (e.render vars source).vars ∧
      (e.tryRender vars source).calls = (e.render vars source).calls := by
  simp only [tryRender]
  cases (e.render vars source).result <;> exact ⟨rfl, rfl⟩

/-- **Nothing but the output reaches a writer, from its start and unaltered.** A template that fails
makes no call to the writer. Of one that is rendered the writer has accepted a front of the output at
each moment, however it answers; it is flushed once at most, and only after the whole output; the
call returns well just when all was accepted and flushed, and else with the failure of a write or of
the flush. It does return, unless the writer is interrupted for ever. Rendering to a sink gives what
there is when the calls to the sink have ended. Neither this nor the failure by a flag has a part in
the variables and the conditions that are evaluated. -/
theorem writer_gets_front_of_output :
    let outcome := e.render vars source
    let moment (w : Writer) (n : Nat) := (e.opening vars source).after w n
    (match outcome.result with
    | .error error =>
      (∀ w n, moment w n = ⟨{}, .returned (.error error)⟩) ∧
      (e.tryRender vars source).result = .ok (false, "")
    | .ok output =>
      (∀ w n,
        let m := moment w n
        let bytes := output.toUTF8.toList
        m.delivery.accepted <+: bytes ∧
        m.delivery.flushes ≤ 1 ∧
        (0 < m.delivery.flushes → m.delivery.accepted = bytes) ∧
        (m.stage = .returned (.ok ()) ↔
          m.delivery.accepted = bytes ∧ m.delivery.flushes = 1 ∧ w.flushFailure? = none) ∧
        ∀ error, m.stage = .returned (.error error) → ∃ cause, error = .io cause) ∧
      (e.tryRender vars source).result = .ok (true, output)) ∧
    (∀ w, ∃ n, (∃ result, (moment w n).stage = .returned result) ∨ (moment w n).IsStuck w) ∧
    (∀ sink : Sink, ∃ n, moment sink.writer n =
      ⟨(e.renderTo vars source sink).2, .returned (e.renderTo vars source sink).1.result⟩) ∧
    (∀ sink : Sink, (e.renderTo vars source sink).1.vars = outcome.vars ∧
      (e.renderTo vars source sink).1.calls = outcome.calls) ∧
    (e.tryRender vars source).vars = outcome.vars ∧
    (e.tryRender vars source).calls = outcome.calls := by
  intro outcome moment
  refine ⟨?_, fun w => Moment.exists_returned_or_isStuck w _, reaches_renderTo e vars source,
    renderTo_vars_calls e vars source, tryRender_vars_calls e vars source⟩
  simp only [moment, opening, tryRender, outcome]
  cases (e.render vars source).result with
  | error error => exact ⟨fun w n => Moment.after_returned w {} _ n, rfl⟩
  | ok output =>
    refine ⟨fun w n => ?_, rfl⟩
    have hstart : Moment.Sound w output.toUTF8.toList ⟨{}, .offering output.toUTF8.toList⟩ :=
      .offering (List.nil_append _) rfl
    have hsound := hstart.after n
    exact ⟨hsound.accepted_prefix, hsound.flushes_le_one, hsound.accepted_eq_of_flushes,
      hsound.returned_ok_iff, fun error => hsound.exists_cause_of_returned⟩

end Engine

/-- Three bytes: one is accepted, the next write is interrupted, and the one after it fails. -/
example : ({ replies := [.accept 1, .interrupted, .failed "closed"] } : Sink).deliver [7, 8, 9] =
    ({ accepted := [7], writes := 3 }, some "closed") := by
  decide

end Stencil
