import Outline.Proofs.Engine.Resumed
import Outline.Proofs.Session.Limits

/-!
# Matchers that outlive their failures

A matcher is used for one match after the other. However these end, no rule is in progress behind them, so
that nothing is left of them but the number of alternatives that were tried. From there on the matcher does
what a new one does that is allowed so many fewer.

* `Run.Reached`, `Run.Reached.eq_later`: what becomes of a new matcher;
* `Settings.Alike`: actions that do not look at the number of alternatives;
* **`Matching.resumed_at_rest`**: one match by a matcher with no rule in progress;
* **`Matcher.survives`**: all matches, in the course of a parse and outside of one.
-/

namespace Outline

open Engine

/-- What becomes of a new matcher by matches, one after the other. They may fail in any way, and anything
else may happen in between. -/
inductive Run.Reached : Run → Prop where
  | new : Reached {}
  | match {s : State} (h : Reached s.run) (c : Settings) (room : Nat) (cursor : Cursor) (name : String) :
      Reached (Matching.guarded (level room).match? cursor name c s).2.run

theorem Run.Reached.nesting {r : Run} (h : r.Reached) : r.nesting = (0, []) := by
  induction h with
  | new => rfl
  | @«match» s _ c room cursor name ih =>
    exact (Matching.steady_guarded (Level.steady room).match? cursor name c s).trans ih

/-- A matcher with no rule in progress is a new one, apart from the number of alternatives tried. -/
theorem Run.eq_later {r : Run} (h : r.nesting = (0, [])) : r = Run.later r.steps {} := by
  obtain ⟨steps, depth, active⟩ := r
  obtain ⟨rfl, rfl⟩ := Prod.mk.inj h
  rw [Run.later, Nat.zero_add]

theorem Matcher.Reachable.reached {g : Grammar} {m : Matcher} (h : m.Reachable g) : m.run.Reached := by
  induction h with
  | new => exact .new
  | @match? m _ cursor rule room ih => exact .match (s := { run := m.run }) ih _ room cursor rule
  | limit _ _ ih => exact ih

/-- In the circumstances the actions go on alike, however many alternatives were tried before. -/
def Settings.Alike (c : Settings) (shared made : Prop) : Prop :=
  ∀ count, ∀ r ∈ c.grammar.rules, ∀ a ∈ r.alternatives, a.Alike ⟨c, count, shared, made⟩

/-- **A matcher with no rule in progress does what a new one does that is allowed fewer alternatives.** -/
theorem Matching.resumed_at_rest {c : Settings} {shared made : Prop} (hc : c.Alike shared made) {s : State}
    (hs : s.run.nesting = (0, [])) (ht : shared → s.text.isSome) (room : Nat) (cursor : Cursor)
    (name : String) :
    (⟨c, s.run.steps, shared, made⟩ : Resumption).Resumes
      (guarded (level room).match? cursor name (c.less s.run.steps) { s with run := {} })
      (guarded (level room).match? cursor name c s) := by
  let k : Resumption := ⟨c, s.run.steps, shared, made⟩
  have hmatch := resumed_guarded (k := k) (Level.resumed (hc _) room).match? cursor name
    { s with run := {} } (Or.inr ht)
  have hlater : State.later k.count { s with run := {} } = s := by
    obtain ⟨run, text, cache, events⟩ := s
    rw [State.later, State.mk.injEq]
    exact ⟨(Run.eq_later hs).symm, rfl, rfl, rfl⟩
  rwa [hlater] at hmatch

/-- **A matcher outlives its failures.** Whatever becomes of a match, also of one inside another, the rules in
progress are the same before and behind it. A match by a matcher that was used before comes to what it comes
to by a new one that is allowed so many alternatives fewer as were tried before, and leaves the same behind.
If that one is stopped for having tried too many, the other is stopped for having tried so many more. -/
theorem Matcher.survives :
    (∀ (c : Settings) (s : State) (room : Nat) (cursor : Cursor) (name : String),
      (Matching.guarded (level room).match? cursor name c s).2.run.nesting = s.run.nesting) ∧
    (∀ (c : Settings) (shared made : Prop), c.Alike shared made →
      ∀ s : State, s.run.Reached → (shared → s.text.isSome) →
      ∀ (room : Nat) (cursor : Cursor) (name : String),
        let fresh := Matching.guarded (level room).match? cursor name (c.less s.run.steps)
          { s with run := {} }
        let used := Matching.guarded (level room).match? cursor name c s
        (⟨c, s.run.steps, shared, made⟩ : Resumption).Answers fresh.1 used.1 ∧
          used.2 = fresh.2.later s.run.steps) ∧
    ∀ (m : Matcher) (made : Prop), m.Reachable m.grammar →
      Settings.Alike { grammar := m.grammar, limits := m.limits } False made →
      ∀ (cursor : Cursor) (rule : String) (room : Nat),
        let fresh := ({ m with limits := m.limits.less m.run.steps, run := {} } : Matcher).match? cursor rule
          room
        let used := m.match? cursor rule room
        (⟨{ grammar := m.grammar, limits := m.limits }, m.run.steps, False, made⟩ : Resumption).Answers
          fresh.1 used.1 ∧ used.2.run = fresh.2.run.later m.run.steps := by
  refine ⟨fun c s room cursor name => ?_, ?_, ?_⟩
  · exact Matching.steady_guarded (Level.steady room).match? cursor name c s
  · intro c shared made hc s hs ht room cursor name
    have hmatch := Matching.resumed_at_rest hc hs.nesting ht room cursor name
    exact ⟨hmatch.answers, hmatch.state_eq⟩
  · intro m made hm hc cursor rule room
    have hmatch := Matching.resumed_at_rest (s := { run := m.run }) hc hm.reached.nesting False.elim room
      cursor rule
    exact ⟨hmatch.answers, congrArg State.run hmatch.state_eq⟩

/-! ## A matcher that is stopped -/

/-- The row of a group of two entries. -/
def Cursor.groupOfTwo : Cursor := ⟨.ofString "(a, b)", #[⟨.semanticList, 0, 6⟩], 0, 6, 0⟩

theorem Settings.alike_groups (limits : Limits) :
    Settings.Alike { grammar := .groups, limits } True False := by
  have hactions : ∀ r ∈ Grammar.groups.rules, ∀ a ∈ r.alternatives,
      a.action = none ∨ a.action = some .count := by
    rw [Grammar.groups, Grammar.rules_ofRules (by decide)]
    simp
  intro count r hr a ha name run hn values start stop
  rcases hactions r hr a ha with h | h <;> cases h.symm.trans hn
  dsimp only
  split
  · refine .expandFull (Or.inl trivial) fun found found' h => ?_
    cases h with
    | ok found => exact .done _
    | error h => exact .fail h
  · exact .done _

/-- How many alternatives were tried, if the limit was met. -/
def Failure.tried : Failure → Option Nat
  | .aborted steps => some steps
  | _ => none

/-- How many alternatives were tried when the limit was met. -/
def abortedAt {α : Type} : Except Failure α → Option Nat
  | .ok _ => none
  | .error e => e.tried

theorem eq_of_abortedAt {α : Type} {r : Except Failure α} {n : Nat} (h : abortedAt r = some n) :
    r = .error (.aborted n) := by
  cases r with
  | ok a => cases h
  | error e =>
    cases e with
    | aborted steps =>
      cases h
      rfl
    | _ => cases h

/-- In the course of a parse a matcher that may try seven alternatives finds a group with five. It is stopped
at the second group, inside the expansion, as a new one is that may try two. -/
theorem Matcher.survives_groups :
    let c : Settings := { grammar := .groups, limits := ⟨200, some 7⟩ }
    let s : State := (Matching.guarded (level 6).match? .groupOfTwo "toplevel" c
      { text := some (.ofString "(a, b)") }).2
    s.run.steps = 5 ∧
    (Matching.guarded (level 6).match? .groupOfTwo "toplevel" (c.less 5) { s with run := {} }).1 =
      .error (.aborted 3) ∧
    (Matching.guarded (level 6).match? .groupOfTwo "toplevel" c s).1 = .error (.aborted 8) ∧
    (Matching.guarded (level 6).match? .groupOfTwo "toplevel" c s).2.run.nesting = (0, []) := by
  intro c s
  have hreached : s.run.Reached := .match .new _ _ _ _
  have hsteps : s.run.steps = 5 := by decide +kernel
  have htext : s.text.isSome := by decide +kernel
  have hfresh : (Matching.guarded (level 6).match? .groupOfTwo "toplevel" (c.less 5)
      { s with run := {} }).1 = .error (.aborted 3) := eq_of_abortedAt (by decide +kernel)
  obtain ⟨hnesting, hsurvives, -⟩ := Matcher.survives
  obtain ⟨hanswers, -⟩ := hsurvives c True False (Settings.alike_groups _) s hreached (fun _ => htext) 6
    .groupOfTwo "toplevel"
  have hlimited : ¬ (some 7 : Option Int) = none := nofun
  refine ⟨hsteps, hfresh, ?_, (hnesting c s 6 _ _).trans hreached.nesting⟩
  rw [hsteps, hfresh] at hanswers
  generalize (Matching.guarded (level 6).match? .groupOfTwo "toplevel" c s).1 = used at hanswers
  cases hanswers with
  | error h =>
    cases h with
    | counted => rfl
    | same h =>
      obtain h | h | h := h
      · exact h.elim
      · exact absurd h hlimited
      · exact absurd rfl (h 3)

end Outline
