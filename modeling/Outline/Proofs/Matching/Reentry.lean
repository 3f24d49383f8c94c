import Outline.Proofs.Matching.Advance

/-!
# A well-formed grammar is safe to match

With a well-formed grammar no rule is ever entered again before anything is read, and none is looked
up that is not defined. Between two rules in progress at one place there are only items that matched
without reading, so that the one leads to the other in the sense of the grammar.

* `Failure.OfGrammar`: the failures that a well-formed grammar rules out;
* `Script.Modest`: a script without requests that does not end in such a failure;
* `Grammar.Tries`, `Grammar.Leads`: the rules tried for items, and what the rules in progress have to
  do with them;
* `Level.Spares`, **`Level.spares`**: no level ends in such a failure.
-/

namespace Outline

open Relation Engine

/-- The failures that a grammar can be at fault for. -/
inductive Failure.OfGrammar : Failure → Prop where
  | undefinedRule (name : String) : OfGrammar (.undefinedRule name)
  | leftRecursion (name : String) : OfGrammar (.leftRecursion name)

/-- The script makes no request, and a failure that it ends in is its own. -/
inductive Script.Modest {α : Type} : Script α → Prop where
  | done (a : α) : Modest (.done a)
  | fail {e : Failure} (h : ¬ e.OfGrammar) : Modest (.fail e)

/-- The action is modest on all values. -/
def Alternative.Modest (a : Alternative) : Prop :=
  ∀ name run, a.action = some ⟨name, .function run⟩ → ∀ values start stop,
    (run values start stop).Modest

namespace Grammar

/-! ## The rules tried for items -/

/-- Matching items from `c` on may try the rule `name` at `d`. -/
inductive Tries (g : Grammar) : Cursor → List Item → Cursor → String → Prop where
  | here {c : Cursor} {name : String} {is : List Item} : Tries g c (.rule name :: is) c name
  | later {c d e : Cursor} {i : Item} {is : List Item} {name : String} (h : c.Moves (g.Skips i) d)
      (ht : Tries g d is e name) : Tries g c (i :: is) e name

variable {g : Grammar} {c d : Cursor} {is : List Item} {name : String} {p : Prop}

theorem Tries.mem (h : g.Tries c is d name) : .rule name ∈ is := by
  induction h with
  | here => exact List.mem_cons_self
  | later _ _ ih => exact List.mem_cons_of_mem _ ih

/-- A rule that is tried without any reading before stands behind rules that can match so. -/
theorem Tries.moves (h : g.Tries c is d name) :
    c.Moves (∃ (before : List String) (behind : List Item),
      is = before.map Item.rule ++ .rule name :: behind ∧ ∀ n ∈ before, g.Derives n) d := by
  induction h with
  | @here _ _ is => exact ⟨.refl _, fun _ => ⟨[], is, rfl, by simp⟩⟩
  | later h _ ih =>
    refine (h.trans ih).imp ?_
    rintro ⟨⟨n, rfl, hn⟩, before, behind, rfl, hb⟩
    exact ⟨n :: before, behind, rfl, List.forall_mem_cons.mpr ⟨hn, hb⟩⟩

/-- A rule in progress was entered before the cursor, or at its place and leads to the rule. -/
structure Leads (g : Grammar) (e : Entry) (c : Cursor) (name : String) : Prop where
  le : e.index ≤ c.index
  enters : e.index = c.index → TransGen g.Enters e.rule name

/-- What leads to a rule leads to those that its alternatives try. -/
theorem Leads.tail {e : Entry} {other : String} (h : g.Leads e c name) (hd : c.Moves p d)
    (hp : p → g.Enters name other) : g.Leads e d other := by
  have h1 := h.le
  have h2 := hd.ahead.le
  refine ⟨by omega, fun hi => ?_⟩
  exact (h.enters (by omega)).tail (hp (hd.idle_of_eq (by omega)))

/-- The rule itself leads to those that its alternatives try. -/
theorem Leads.entry {other : String} (hd : c.Moves p d) (hp : p → g.Enters name other) :
    g.Leads (c.entry name) d other :=
  ⟨hd.ahead.le, fun hi => .single (hp (hd.idle_of_eq hi.symm))⟩

end Grammar

namespace Level

variable {below : Level} {c : Settings}

/-- No rule that is defined and that all rules in progress lead to ends in a failure that the grammar is
at fault for. -/
def Spares (below : Level) (c : Settings) : Prop :=
  ∀ (cursor : Cursor) (name : String) (s : State), name ∈ c.grammar.names →
    (∀ e ∈ s.run.active, c.grammar.Leads e cursor name) →
      ∀ e, (below.match? cursor name c s).1 = .error e → ¬ e.OfGrammar

theorem spares_item (hb : below.Spares c) {k : Collected} {i : Item} {s s' : State} {e : Failure}
    (ht : ∀ name, i = .rule name →
      name ∈ c.grammar.names ∧ ∀ x ∈ s.run.active, c.grammar.Leads x k.cursor name)
    (h : ItemAttempt below c k s i (.error e) s') : ¬ e.OfGrammar := by
  cases h with
  | @raised name _ _ hm =>
    obtain ⟨hn, hl⟩ := ht name rfl
    exact hb k.cursor name s hn hl e (by rw [hm])
  | lost =>
    intro h
    cases h

theorem spares_items (hst : below.Steady) (ha : below.Advances c) (hb : below.Spares c) :
    ∀ (is : List Item) {k : Collected} {s s' : State} {e : Failure},
      (∀ d name, c.grammar.Tries k.cursor is d name →
        name ∈ c.grammar.names ∧ ∀ x ∈ s.run.active, c.grammar.Leads x d name) →
      below.matchItems is k c s = (.error e, s') → ¬ e.OfGrammar
  | [], _, _, _, _, _, h => by cases h
  | i :: is, k, s, s', e, ht, h => by
    have hi : ∀ name, i = .rule name →
        name ∈ c.grammar.names ∧ ∀ x ∈ s.run.active, c.grammar.Leads x k.cursor name := by
      rintro name rfl
      exact ht k.cursor name .here
    obtain ⟨e', he, hr⟩ | ⟨-, hr⟩ | ⟨k', s₁, he, h⟩ := matchItems_cons below c h
    · cases hr
      exact spares_item hb hi he
    · cases hr
    · have hn : s₁.run.active = s.run.active := congrArg Prod.snd (he.steady hst)
      refine spares_items hst ha hb is (fun d name hd => ?_) h
      rw [hn]
      exact ht d name (.later (moves_item ha he) hd)

theorem spares_runAction {a : Alternative} (ha : a.Modest) {values : List Value} {start stop : Int}
    {s s' : State} {e : Failure} (h : below.runAction a values start stop c s = (.error e, s')) :
    ¬ e.OfGrammar := by
  unfold runAction at h
  cases hn : a.action with
  | none => rw [hn] at h; cases h
  | some named =>
    rw [hn] at h
    obtain ⟨label, run | type⟩ := named
    · have hm := ha label run hn values start stop
      simp only at h
      generalize run values start stop = script at h hm
      cases hm with
      | done v => cases h
      | fail he => cases h; exact he
    · cases h
      intro h
      cases h

theorem spares_alternative (hst : below.Steady) (ha : below.Advances c) (hb : below.Spares c)
    {cursor : Cursor} {name : String} {a : Alternative} (hm : a.Modest) {s s' : State} {e : Failure}
    (ht : ∀ d name, c.grammar.Tries cursor a.items d name →
      name ∈ c.grammar.names ∧ ∀ x ∈ s.run.active, c.grammar.Leads x d name)
    (h : AlternativeAttempt below c cursor name a s (.error e) s') : ¬ e.OfGrammar := by
  generalize hr : Except.error e = r at h
  cases h with
  | aborted => cases hr; intro h; cases h
  | lost => cases hr; intro h; cases h
  | raised _ h =>
    cases hr
    exact spares_items hst ha hb a.items (s := s.tally) ht h
  | noMatch => cases hr
  | @built _ k r s₁ _ _ _ hk =>
    obtain ⟨v, -, rfl⟩ | ⟨e', he, rfl⟩ := build_cases below c hk
    · obtain ⟨found, hv⟩ | ⟨source, defect, hv⟩ := a.verdict_cases name k.cursor v
      · rw [hv] at hr
        cases hr
      · rw [hv] at hr
        cases hr
        intro h
        cases h
    · cases hr
      exact spares_runAction hm he

theorem spares_alternatives (hst : below.Steady) (ha : below.Advances c) (hb : below.Spares c)
    {cursor : Cursor} {name : String} : ∀ (as : List Alternative) (number : Nat) {s s' : State}
    {e : Failure}, (∀ a ∈ as, a.Modest) →
      (∀ a ∈ as, ∀ d other, c.grammar.Tries cursor a.items d other →
        other ∈ c.grammar.names ∧ ∀ x ∈ s.run.active, c.grammar.Leads x d other) →
      below.tryAlternatives cursor name number as c s = (.error e, s') → ¬ e.OfGrammar
  | [], _, _, _, _, _, _, h => by cases h
  | a :: as, number, s, s', e, hm, ht, h => by
    have hta := ht a List.mem_cons_self
    obtain ⟨e', he, hr⟩ | ⟨m, s₁, -, hr, -⟩ | ⟨s₁, he, h⟩ := tryAlternatives_cons below c h
    · cases hr
      exact spares_alternative hst ha hb (hm a List.mem_cons_self) hta he
    · cases hr
    · have hn : s₁.run.active = s.run.active := congrArg Prod.snd (he.steady hst)
      refine spares_alternatives hst ha hb as (number + 1)
        (fun a h => hm a (List.mem_cons_of_mem _ h)) (fun a h => ?_) h
      rw [hn]
      exact ht a (List.mem_cons_of_mem _ h)

/-- One more level is safe: where a rule is entered, every rule in progress leads to what its
alternatives try, and no rule leads to itself. -/
theorem spares_above (hg : c.grammar.WellFormed)
    (hm : ∀ r ∈ c.grammar.rules, ∀ a ∈ r.alternatives, a.Modest) (hst : below.Steady)
    (ha : below.Advances c) (hb : below.Spares c) : below.above.Spares c := by
  intro cursor name s hn hl e h
  change (below.matchRule cursor name c s).1 = _ at h
  cases hr : below.matchRule cursor name c s with
  | mk r s' =>
    rw [hr] at h
    change r = _ at h
    subst h
    cases ruleAttempt below c cursor name hr with
    | undefined hu =>
      obtain ⟨as, has⟩ := Grammar.alternatives?_of_mem hn
      rw [hu] at has
      cases has
    | again _ hin => exact absurd ((hl _ hin).enters rfl) (hg.acyclic name)
    | tooDeep _ _ _ he =>
      obtain ⟨offset, -, rfl⟩ | ⟨f, -, rfl⟩ := he
      · intro h; cases h
      · intro h; cases h
    | @entered as _ s₁ has _ _ hrun =>
      obtain ⟨rule, hrule, rfl, rfl⟩ := Grammar.alternatives?_eq_some has
      refine spares_alternatives hst ha hb rule.alternatives 0 (hm rule hrule) ?_ hrun
      intro a ham d other htry
      have henters : (∃ (before : List String) (behind : List Item),
          a.items = before.map Item.rule ++ .rule other :: behind ∧
            ∀ n ∈ before, c.grammar.Derives n) → c.grammar.Enters rule.name other :=
        fun h => ⟨rule.alternatives, has, a, ham, h⟩
      refine ⟨hg.closed _ (Grammar.mem_mentioned hrule ham htry.mem), fun x hx => ?_⟩
      obtain rfl | hx := List.mem_cons.mp hx
      · exact .entry htry.moves henters
      · exact (hl x hx).tail htry.moves henters

/-- **No level ends in a failure that a well-formed grammar is at fault for.** -/
theorem spares (hg : c.grammar.WellFormed)
    (hm : ∀ r ∈ c.grammar.rules, ∀ a ∈ r.alternatives, a.Modest) : ∀ room, (level room).Spares c
  | 0 => by
    intro cursor name s _ _ e h hf
    cases h
    cases hf
  | room + 1 => spares_above hg hm (steady room) (advances c room) (spares hg hm room)

end Level

end Outline
