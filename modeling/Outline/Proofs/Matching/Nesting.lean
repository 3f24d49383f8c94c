import Outline.Proofs.Matching.Advance
import Outline.Proofs.Matching.Calls
import Outline.Proofs.Matching.Derivation

/-!
# How deep matches nest

If actions ask for nothing, all calls of a run are about one row of lexemes and none goes back in it, so
that the matches in progress are some of finitely many. A nesting limit that allows for all of them is
never met.

* `Level.ChoiceAsks.ahead`, `Pending.within`: calls lead forward in the row;
* `Pending.length_le`, `Pending.length_lt`: the number of matches in progress is bounded, also by that of
  the lexemes left to read;
* `Grammar.Raises`, `Failure.OfNesting`: failures of an action's own, and failures of nesting;
* `Level.ItemsAsk.of_failure`, `Pending.of_failure`: a failure of nesting comes from a call that is nested
  too deep;
* **`Matcher.raises_of_match?`**: a match under a limit that is high enough.
-/

namespace Outline

open Engine

/-- All actions of the grammar ask for nothing. -/
def Grammar.Direct (g : Grammar) : Prop := ∀ r ∈ g.rules, ∀ a ∈ r.alternatives, a.Direct

/-! ## Calls lead forward -/

namespace Level

variable {below : Level} {c : Settings} {s : State} {q : RuleCall}

theorem ItemsAsk.ahead (ha : below.Advances c) {is : List Item} {k : Collected}
    (h : below.ItemsAsk c is k s q) : k.cursor.Ahead q.cursor := by
  induction h with
  | here => exact .refl _
  | @later i is k k' s s' q hi _ ih =>
    exact (moves_item ha (itemAttempt below c k i hi)).ahead.trans ih

/-- An action that asks for nothing asks for no rule. -/
theorem not_scriptAsks {α : Type} {script : Script α} (hd : script.Direct) :
    ¬ below.ScriptAsks c script s q := by
  intro h
  cases hd <;> cases h

theorem AlternativeAsks.ahead (ha : below.Advances c) {cursor : Cursor} {a : Alternative}
    (hd : a.Direct) (h : below.AlternativeAsks c cursor a s q) : cursor.Ahead q.cursor := by
  cases h with
  | item _ _ hq => exact hq.ahead ha
  | action _ _ _ hr hq => exact absurd hq (not_scriptAsks (hd _ _ hr _ _ _))

theorem ChoiceAsks.ahead (ha : below.Advances c) {cursor : Cursor} {name : String}
    {as : List Alternative} (hd : ∀ a ∈ as, a.Direct) (h : below.ChoiceAsks c cursor name as s q) :
    cursor.Ahead q.cursor := by
  induction h with
  | here h => exact h.ahead ha (hd _ List.mem_cons_self)
  | later _ _ ih => exact ih fun b hb => hd b (List.mem_cons_of_mem _ hb)

end Level

theorem Grammar.Direct.of_alternatives? {g : Grammar} (hd : g.Direct) {name : String}
    {as : List Alternative} (h : g.alternatives? name = some as) : ∀ a ∈ as, a.Direct := by
  obtain ⟨r, hr, -, rfl⟩ := Grammar.alternatives?_eq_some h
  exact hd r hr

theorem Grammar.mem_names_of_alternatives? {g : Grammar} {name : String} {as : List Alternative}
    (h : g.alternatives? name = some as) : name ∈ g.names := by
  obtain ⟨r, hr, rfl, -⟩ := Grammar.alternatives?_eq_some h
  exact List.mem_map_of_mem hr

namespace Pending

variable {c : Settings} {top q : RuleCall} {room left : Nat} {ps : List RuleCall}

/-- The next call is ahead of the first, and so are all in progress. -/
theorem ahead (hd : c.grammar.Direct) (h : Pending c top room left ps q) :
    top.cursor.Ahead q.cursor ∧ ∀ p ∈ ps, top.cursor.Ahead p.cursor := by
  induction h with
  | start => exact ⟨.refl _, fun _ hp => absurd hp List.not_mem_nil⟩
  | @inner left ps p q _ hq ih =>
    obtain ⟨as, he, hq⟩ := hq
    refine ⟨ih.1.trans ?_, List.forall_mem_cons.mpr ih⟩
    exact hq.ahead (Level.advances c left) (hd.of_alternatives? he.defined)

/-- Whatever is in progress is one of the matches that can come up. -/
theorem subset_entries (hd : c.grammar.Direct) (h : Pending c top room left ps q) :
    ps.map (·.entry) ⊆ c.grammar.entries top.cursor := by
  intro e he
  obtain ⟨p, hp, rfl⟩ := List.mem_map.mp he
  obtain ⟨as, has⟩ := h.defined p hp
  have hw : c.grammar.Within top.cursor p.toGoal :=
    ⟨(h.ahead hd).2 p hp, Grammar.mem_names_of_alternatives? has⟩
  exact hw.entry_mem

/-- There are at most as many matches in progress as there are rules and places left. -/
theorem length_le (hd : c.grammar.Direct) (h : Pending c top room left ps q)
    (ht : top.state.run.nesting = (0, [])) :
    ps.length ≤ c.grammar.rules.length * (top.cursor.unread + 1) := by
  have hl := (h.nodup ht).length_le_of_subset (h.subset_entries hd)
  rwa [List.length_map, Grammar.length_entries] at hl

/-- Before a match begins there are fewer. -/
theorem length_lt (hd : c.grammar.Direct) (h : Pending c top room left ps q)
    (ht : top.state.run.nesting = (0, [])) {as : List Alternative}
    (hq : c.grammar.alternatives? q.rule = some as) (hf : q.entry ∉ q.state.run.active) :
    ps.length < c.grammar.rules.length * (top.cursor.unread + 1) := by
  have hw : c.grammar.Within top.cursor q.toGoal :=
    ⟨(h.ahead hd).1, Grammar.mem_names_of_alternatives? hq⟩
  have hn : (q.entry :: ps.map (·.entry)).Nodup :=
    List.nodup_cons.mpr ⟨h.active_eq ht ▸ hf, h.nodup ht⟩
  have hl := hn.length_le_of_subset (List.cons_subset.mpr ⟨hw.entry_mem, h.subset_entries hd⟩)
  rw [List.length_cons, List.length_map, Grammar.length_entries] at hl
  omega

end Pending

/-! ## Where a failure of nesting comes from -/

/-- Some action of the grammar gives up with the failure. -/
def Grammar.Raises (g : Grammar) (e : Failure) : Prop :=
  ∃ r ∈ g.rules, ∃ a ∈ r.alternatives, ∃ label run, a.action = some ⟨label, .function run⟩ ∧
    ∃ values start stop, run values start stop = .fail e

/-- Rules were nested too deep. -/
inductive Failure.OfNesting : Failure → Prop where
  | limit (rule : String) (limit offset : Int) : OfNesting (.nestingLimit rule limit offset)
  | room : OfNesting .stackOverflow

namespace Level

variable {below : Level} {c : Settings} {e : Failure} {s s' : State}

/-- A failure of nesting at items is one at a rule among them. -/
theorem ItemsAsk.of_failure (he : e.OfNesting) : ∀ {is : List Item} {k : Collected} {s : State},
    below.matchItems is k c s = (.error e, s') →
      ∃ q, below.ItemsAsk c is k s q ∧ (below.match? q.cursor q.rule c q.state).1 = .error e
  | [], _, _, h => by cases h
  | i :: is, k, s, h => by
    obtain ⟨m, s₁, hm, h⟩ | ⟨e', hm, hr⟩ := bind_run_cases h
    · cases m with
      | none => cases h
      | some k' =>
        obtain ⟨q, hq, hf⟩ := of_failure he h
        exact ⟨q, .later hm hq, hf⟩
    · cases hr
      cases itemAttempt below c k i hm with
      | raised h => exact ⟨_, .here, congrArg Prod.fst h⟩
      | lost => cases he

/-- A failure of nesting at an action that asks for nothing is the action's own. -/
theorem fail_of_runAction (he : e.OfNesting) {a : Alternative} (hd : a.Direct) {values : List Value}
    {start stop : Int} (h : below.runAction a values start stop c s = (.error e, s')) :
    ∃ label run, a.action = some ⟨label, .function run⟩ ∧ run values start stop = .fail e := by
  cases hn : a.action with
  | none => rw [runAction, hn] at h; cases h
  | some named =>
    obtain ⟨label, run | type⟩ := named
    · have hscript := hd label run hn values start stop
      rw [runAction, hn] at h
      refine ⟨label, run, rfl, ?_⟩
      simp only at h
      generalize run values start stop = script at hscript h
      cases hscript with
      | done => cases h
      | fail => cases h; rfl
    · rw [runAction, hn] at h
      cases h
      cases he

/-- A failure of nesting at an alternative is one at a rule among its items, or its action's own. -/
theorem AlternativeAsks.of_failure (he : e.OfNesting) {cursor : Cursor} {name : String}
    {a : Alternative} (hd : a.Direct) (h : below.tryAlternative cursor name a c s = (.error e, s')) :
    (∃ q, below.AlternativeAsks c cursor a s q ∧
        (below.match? q.cursor q.rule c q.state).1 = .error e) ∨
      ∃ label run, a.action = some ⟨label, .function run⟩ ∧
        ∃ values start stop, run values start stop = .fail e := by
  have hcount : countStep c s = (.ok (), s.tally) := by
    obtain ⟨_, s₁, hs, -⟩ | ⟨e', hs, hr⟩ := bind_run_cases h
    · rw [hs]
      rw [countStep_run] at hs
      split at hs <;> cases hs
      rfl
    · cases hr
      rw [countStep_run] at hs
      split at hs <;> cases hs
      cases he
  generalize hr : (Except.error e : Except Failure (Option Match)) = r at h
  cases alternativeAttempt below c cursor name a h with
  | aborted => cases hr; cases he
  | lost => cases hr; cases he
  | noMatch => cases hr
  | raised ho hi =>
    cases hr
    obtain ⟨q, hq, hf⟩ := ItemsAsk.of_failure he hi
    exact Or.inl ⟨q, .item hcount ho hq, hf⟩
  | @built _ k r s₁ _ _ _ hb =>
    obtain ⟨v, -, rfl⟩ | ⟨e', hv, rfl⟩ := build_cases below c hb
    · obtain ⟨found, hw⟩ | ⟨source, defect, hw⟩ := a.verdict_cases name k.cursor v
      · rw [hw] at hr
        cases hr
      · rw [hw] at hr
        cases hr
        cases he
    · cases hr
      obtain ⟨label, run, hn, hfail⟩ := fail_of_runAction he hd hv
      exact Or.inr ⟨label, run, hn, _, _, _, hfail⟩

/-- A failure of nesting at alternatives is one at a rule among the items of one of them, or an action's
own. -/
theorem ChoiceAsks.of_failure (he : e.OfNesting) {cursor : Cursor} {name : String} :
    ∀ {as : List Alternative} {number : Nat} {s : State}, (∀ a ∈ as, a.Direct) →
    below.tryAlternatives cursor name number as c s = (.error e, s') →
      (∃ q, below.ChoiceAsks c cursor name as s q ∧
          (below.match? q.cursor q.rule c q.state).1 = .error e) ∨
        ∃ a ∈ as, ∃ label run, a.action = some ⟨label, .function run⟩ ∧
          ∃ values start stop, run values start stop = .fail e
  | [], _, _, _, h => by cases h
  | a :: as, number, s, hd, h => by
    obtain ⟨m, s₁, hm, h⟩ | ⟨e', hm, hr⟩ := bind_run_cases h
    · cases m with
      | some m => cases h
      | none =>
        obtain ⟨q, hq, hf⟩ | ⟨b, hb, hf⟩ :=
          of_failure he (fun b hb => hd b (List.mem_cons_of_mem _ hb)) h
        · exact Or.inl ⟨q, .later hm hq, hf⟩
        · exact Or.inr ⟨b, List.mem_cons_of_mem _ hb, hf⟩
    · cases hr
      obtain ⟨q, hq, hf⟩ | hf := AlternativeAsks.of_failure he (hd a List.mem_cons_self) hm
      · exact Or.inl ⟨q, .here hq, hf⟩
      · exact Or.inr ⟨a, List.mem_cons_self, hf⟩

end Level

/-- A failure of nesting comes from a call for which there is no room or that is nested too deep, or is an
action's own. -/
theorem Pending.of_failure {c : Settings} {top : RuleCall} {room : Nat} {e : Failure}
    (hd : c.grammar.Direct) (he : e.OfNesting) : ∀ {left : Nat} {ps : List RuleCall} {q : RuleCall},
    Pending c top room left ps q → ((level left).match? q.cursor q.rule c q.state).1 = .error e →
      c.grammar.Raises e ∨ ∃ left' ps' q', Pending c top room left' ps' q' ∧ (left' = 0 ∨
        (∃ as, c.grammar.alternatives? q'.rule = some as) ∧ q'.entry ∉ q'.state.run.active ∧
          c.limits.maxDepth ≤ q'.state.run.depth)
  | 0, ps, q, hp, _ => Or.inr ⟨0, ps, q, hp, Or.inl rfl⟩
  | left + 1, ps, q, hp, h => by
    change ((level left).matchRule q.cursor q.rule c q.state).1 = _ at h
    cases hm : (level left).matchRule q.cursor q.rule c q.state with
    | mk r s' =>
      rw [hm] at h
      change r = _ at h
      subst h
      cases Level.ruleAttempt (level left) c q.cursor q.rule hm with
      | undefined => cases he
      | again => cases he
      | tooDeep has ha hdeep => exact Or.inr ⟨left + 1, ps, q, hp, Or.inr ⟨⟨_, has⟩, ha, hdeep⟩⟩
      | @entered as _ s₁ has ha hdeep hr =>
        obtain ⟨q', hq, hf⟩ | ⟨a, hmem, hraise⟩ :=
          Level.ChoiceAsks.of_failure he (hd.of_alternatives? has) hr
        · exact of_failure hd he (hp.inner ⟨as, ⟨has, ha, hdeep⟩, hq⟩) hf
        · obtain ⟨r, hmemr, -, rfl⟩ := Grammar.alternatives?_eq_some has
          exact Or.inl ⟨r, hmemr, a, hmem, hraise⟩

/-! ## Matchers -/

namespace Matcher

/-- What is fixed while a matcher works. -/
def settings (m : Matcher) : Settings := { grammar := m.grammar, limits := m.limits }

/-- A match that a matcher is asked for. -/
def call (m : Matcher) (cursor : Cursor) (rule : String) : RuleCall := ⟨⟨cursor, rule⟩, { run := m.run }⟩

/-- **A nesting limit that allows for all rules at all places is never met.** If a match by a matcher at
rest ends with rules nested too deep, some action says so by itself. -/
theorem raises_of_match? {m : Matcher} (hd : m.grammar.Direct) (hm : m.AtRest) {cursor : Cursor}
    {rule : String} {room : Nat}
    (hmax : (m.grammar.rules.length * (cursor.unread + 1) : Nat) ≤ m.limits.maxDepth)
    (hroom : m.grammar.rules.length * (cursor.unread + 1) < room) {name : String} {limit offset : Int}
    (h : (m.match? cursor rule room).1 = .error (.nestingLimit name limit offset)) :
    m.grammar.Raises (.nestingLimit name limit offset) ∨ m.grammar.Raises .stackOverflow := by
  -- a call for which there is no room or that is nested too deep would be one too many
  have hcause : ∀ e : Failure, e.OfNesting →
      ((level room).match? cursor rule m.settings { run := m.run }).1 = .error e →
        m.grammar.Raises e := fun e he hf => by
    have hstart : Pending m.settings (m.call cursor rule) room room [] (m.call cursor rule) := .start
    obtain hr | ⟨left, ps, q, hp, hq⟩ := hstart.of_failure hd he hf
    · exact hr
    · exfalso
      have hle := hp.length_le hd hm
      have hroomq := hp.room_eq
      obtain rfl | ⟨⟨as, has⟩, hfresh, hdeep⟩ := hq
      · change ps.length ≤ m.grammar.rules.length * (cursor.unread + 1) at hle
        omega
      · have hlt := hp.length_lt hd hm has hfresh
        have hdepth : q.state.run.depth = ps.length := congrArg Prod.fst (hp.nesting hm)
        change ps.length < m.grammar.rules.length * (cursor.unread + 1) at hlt
        change m.limits.maxDepth ≤ _ at hdeep
        omega
  cases hg : Matching.guarded (level room).match? cursor rule m.settings { run := m.run } with
  | mk r s =>
    have hr : r = .error (.nestingLimit name limit offset) := by
      rw [← h]
      exact (congrArg Prod.fst hg).symm
    obtain ⟨-, hrun⟩ | ⟨hrun, -⟩ := Level.guarded_run m.settings (level room).match? cursor rule hg
    · exact Or.inl (hcause _ (.limit _ _ _) (hr ▸ congrArg Prod.fst hrun))
    · exact Or.inr (hcause _ .room (congrArg Prod.fst hrun))

end Matcher

end Outline
