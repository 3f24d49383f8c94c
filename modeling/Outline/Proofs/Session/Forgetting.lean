import Outline.Proofs.Session.Moment

/-!
# What a session is told to forget

A parse may be answered from memory. What it then gives away was found by an earlier parse, the latest that
has ended well, and since that one ended the session was not told to forget. It may have been told to while
that one was still in progress: the forgetting takes effect at once, and the result is remembered all the
same when the parse ends.

* `Session.Moment.log`: what was reported before a task begins;
* `Engine.invariant_suffix`: reports are never taken back;
* `Session.Origin`, `Session.origin_start`: where what is remembered comes from;
* **`Session.origin_of_parse`**: where the answer of a parse comes from, and what was forgotten since.
-/

namespace Outline

open Engine

/-- Reports are never taken back. -/
theorem Engine.invariant_suffix {c : Settings} {t₀ : Task} {s₀ : State} (events : List Event) :
    Invariant c t₀ s₀ fun s => events <:+ s.events where
  run _ h := h
  report _ h := h.trans (List.suffix_cons _ _)
  forget h := h.trans (List.suffix_cons _ _)
  begun _ h := h
  parse _ _ _ hp := by
    rw [Matching.parseText_run]
    split
    · rename_i hrun
      rw [hrun] at hp
      exact hp.trans (List.suffix_cons _ _)
    · rename_i hrun
      rw [hrun] at hp
      exact hp

namespace Session

variable {c : Settings} {room : Nat}

namespace Moment

/-- What was reported in the history before the task, the latest first. -/
def log (m : Moment c room) : List Event := m.state.events ++ told c room [] m.before

/-- What was reported in the history up to the end of the task. -/
def logAfter (m : Moment c room) : List Event := m.after.events ++ told c room [] m.before

/-- The calls that have ended, and the one in progress. -/
def calls (m : Moment c room) : List Call := m.before ++ [m.call]

end Moment

/-- Where something that is remembered comes from, in a history of calls in which some reports were made: it
is what a parse has come to that was begun in one of the calls and made anew. In its course there were the
reports `within`, and behind it the reports `since`. -/
structure Origin (calls : List Call) (log : List Event) (k : ParseCache) (p : Moment c room)
    (within since : List Event) : Prop where
  calls : p.calls <+: calls
  parse : ∃ left text skip, p.task = .parse (left + 1) text skip ∧
    p.state.cache.filter (·.isValidFor text (skip.getD c.skipComments)) = none ∧
    ((level (left + 1)).parseAll text skip c p.state).1 = .ok k.constructs ∧
    k.isValidFor text (skip.getD c.skipComments) = true
  course : p.logAfter = within ++ p.log
  behind : log = since ++ p.logAfter
  passing : ∀ e ∈ since, e.Passing

/-- What is remembered comes from somewhere. -/
def Originates (c : Settings) (room : Nat) (calls : List Call) (log : List Event) (s : State) : Prop :=
  ∀ k ∈ s.cache, ∃ (p : Moment c room) (within since : List Event), Origin calls log k p within since

theorem Originates.calls {calls calls' : List Call} {log : List Event} {s : State}
    (h : Originates c room calls log s) (hc : calls <+: calls') : Originates c room calls' log s := by
  intro k hk
  obtain ⟨p, within, since, ho⟩ := h k hk
  exact ⟨p, within, since, { ho with calls := ho.calls.trans hc }⟩

/-- In the course of a call what is remembered comes from somewhere, if it did when the call began. -/
theorem invariant_originates (before : List Call) (k : Call) :
    Invariant c (k.task room) (start c room before) fun s =>
      Originates c room (before ++ [k]) (s.events ++ told c room [] before) s where
  run _ h := h
  report {s e} he h kept hk := by
    obtain ⟨p, within, since, ho⟩ := h kept hk
    refine ⟨p, within, e :: since, { ho with behind := ?_, passing := ?_ }⟩
    · rw [List.cons_append, List.cons_append, ho.behind]
    · exact List.forall_mem_cons.mpr ⟨he, ho.passing⟩
  forget _ := nofun
  begun _ _ := nofun
  parse {left text skip s} hl hk _ hp := by
    have hrun : (level (left + 1)).parseAll text skip c s =
        Matching.parseText (level left).matchRule (level left) text (skip.getD c.skipComments) c s := by
      show Matching.parseAll (level left).matchRule (level left) text skip c s = _
      rw [Matching.parseAll_run, hk]
    rw [Matching.parseText_run] at hrun ⊢
    split at hrun
    · rename_i found after hfound
      intro kept hkept
      cases hkept
      let p : Moment c room := ⟨before, k, .parse (left + 1) text skip, s, hl⟩
      have hend : p.after = ((level (left + 1)).parseAll text skip c s).2 := rfl
      rw [hrun] at hend
      obtain ⟨within, hwithin⟩ : s.events <:+ p.after.events :=
        (invariant_suffix s.events).task .refl trivial (List.suffix_refl _)
      refine ⟨p, within, [], List.prefix_refl _, ⟨left, text, skip, rfl, hk, by rw [hrun], ?_⟩, ?_, ?_,
        nofun⟩
      · simp [ParseCache.isValidFor]
      · rw [Moment.logAfter, Moment.log, ← hwithin, List.append_assoc]
      · rw [Moment.logAfter, hend]
        rfl
    · rename_i e after hfailed
      rw [hfailed] at hp
      exact hp

/-- What is remembered between two calls comes from somewhere. -/
theorem origin_start (before : List Call) :
    Originates c room before (told c room [] before) (start c room before) := by
  induction before using List.reverseRecOn with
  | nil => exact nofun
  | append_singleton before k ih =>
    have hend := (invariant_originates before k).task .refl k.usual
      (ih.calls (List.prefix_append _ [k]))
    rw [start_concat, told_concat]
    exact hend

/-- What is remembered where a task begins comes from somewhere. -/
theorem Moment.originates (m : Moment c room) : Originates c room m.calls m.log m.state :=
  (invariant_originates m.before m.call).leads m.call.usual m.leads
    ((origin_start m.before).calls (List.prefix_append _ [m.call]))

/-- **Where the answer of a parse comes from.** A text may be parsed at any moment of a history. If nothing
is remembered of it, the answer is found anew. What is remembered is given away as it is; it was found by an
earlier parse, and since that one ended nothing was forgotten and no other has ended well. So nothing was
forgotten since it began just if nothing was forgotten in its course. -/
theorem origin_of_parse (c : Settings) (room : Nat) (m : Moment c room) (left : Nat) (text : Text)
    (skip : Option Bool) :
    (m.state.cache.filter (·.isValidFor text (skip.getD c.skipComments)) = none →
      ((level (left + 1)).parseAll text skip c m.state).1 =
        (Matching.inProgress (level left).matchRule (level left) c text (skip.getD c.skipComments) c
          (Matching.begun text m.state)).1) ∧
    ∀ k, m.state.cache.filter (·.isValidFor text (skip.getD c.skipComments)) = some k →
      ((level (left + 1)).parseAll text skip c m.state).1 = .ok k.constructs ∧
      ∃ (p : Moment c room) (within since : List Event), Origin m.calls m.log k p within since ∧
        m.log = (since ++ within) ++ p.log ∧
        (.invalidated ∉ since ++ within ↔ .invalidated ∉ within) := by
  have hrun : (level (left + 1)).parseAll text skip c m.state =
      Matching.parseAll (level left).matchRule (level left) text skip c m.state := rfl
  constructor
  · intro hk
    rw [hrun, Matching.parseAll_run, hk]
    simp only [Matching.parseText_run]
    split <;> (rename_i h; rw [h])
  · intro k hk
    refine ⟨by rw [hrun, Matching.parseAll_run, hk], ?_⟩
    obtain ⟨p, within, since, ho⟩ := m.originates k (Option.filter_eq_some_iff.mp hk).1
    refine ⟨p, within, since, ho, ?_, ?_⟩
    · rw [ho.behind, ho.course, List.append_assoc]
    · have hsince : .invalidated ∉ since := fun h => ho.passing _ h
      rw [List.mem_append, not_or, and_iff_right hsince]

end Session

/-! ## An action that has a parse forgotten -/

/-- An action that tells the session to forget. -/
def NamedAction.retract : NamedAction := ⟨"retract", .function fun _ start stop =>
  .invalidate (.done (.tuple [.str "i", .int start, .int stop]))⟩

/-- Symbols and punctuation marks, at which the session is told to forget. -/
def Grammar.retracted : Grammar := .ofRules
  [⟨"toplevel", [{ items := [.terminal ⟨.punctuation, none⟩], action := some .retract },
    { items := [.terminal ⟨.symbol, none⟩] }]⟩]

/-- What was found, as it is shown. -/
def shown (r : Except Failure (List Construct)) : Option (List String) :=
  r.toOption.map fun found => found.map fun k => k.toValue.render

/-- In the course of the first parse the session is told to forget, and the second, of another text, comes
to the result of the first all the same. -/
theorem Session.parseAll_retracted :
    let s : Session := ⟨{ grammar := .retracted }, none⟩
    let first := s.parseAll (.ofString "a;") none 6
    .invalidated ∈ first.events ∧ shown first.result = some ["('a', 0, 1)", "('i', 1, 2)"] ∧
    shown (first.session.parseAll (.ofString "b;") none 6).result = some ["('a', 0, 1)", "('i', 1, 2)"] ∧
    shown (s.parseAll (.ofString "b;") none 6).result = some ["('b', 0, 1)", "('i', 1, 2)"] := by
  refine ⟨?_, by decide +kernel, by decide +kernel, by decide +kernel⟩
  have htold : ((⟨{ grammar := .retracted }, none⟩ : Session).parseAll (.ofString "a;") none 6).events.any
      (fun | .invalidated => true | _ => false) = true := by
    decide +kernel
  obtain ⟨e, he, hi⟩ := List.any_eq_true.mp htold
  split at hi
  · exact he
  · cases hi

end Outline
