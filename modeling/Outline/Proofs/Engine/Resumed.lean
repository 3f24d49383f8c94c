import Outline.Proofs.Engine.Curbed

/-!
# A matcher that is used again

A matcher counts the alternatives that it tries, over all its matches. One that has tried some before is run
beside a new one, that is allowed so many fewer: the two do the same, and where the new one is stopped by its
limit, so is the other, and says that it has tried so many more.

Where a parse is in progress, expansions are done by its matcher. Anything else that an action has done is
done by a matcher of its own, with the limits of the session; it is the same beside both if these set no
limit to the number of alternatives.

* `Settings.less`, `State.later`: limits that allow fewer alternatives, and a state in which more were tried;
* `Resumption`, `Resumption.Later`: the circumstances, and failures that differ in the number tried;
* `Script.Alike`: scripts that go on alike where the requests of one fail as those of the other do;
* `Engine.Resumed`, `Engine.Resumed.bind`: two steps that do the same, one with more tried before;
* `Level.Resumed`, **`Level.resumed`**: whatever a level is asked for.
-/

namespace Outline

open Engine

/-! ## Limits and counts -/

/-- The limits that are left when `n` alternatives have been tried. -/
def Limits.less (l : Limits) (n : Nat) : Limits := { l with maxSteps := l.maxSteps.map (· - n) }

/-- The settings with what is left of the limits. -/
def Settings.less (c : Settings) (n : Nat) : Settings := { c with limits := c.limits.less n }

theorem Settings.less_of_unlimited {c : Settings} (h : c.limits.maxSteps = none) (n : Nat) : c.less n = c := by
  obtain ⟨_, _, _, _, _, ⟨_, _⟩⟩ := c
  cases h
  rfl

/-- The matcher has tried `n` alternatives more. -/
def Run.later (n : Nat) (r : Run) : Run := { r with steps := r.steps + n }

/-- The matcher at work has tried `n` alternatives more. -/
def State.later (n : Nat) (s : State) : State := { s with run := s.run.later n }

/-- The circumstances in which a matcher is used again. -/
structure Resumption where
  settings : Settings
  /-- The number of alternatives that it has tried before. -/
  count : Nat
  /-- A parse is in progress, and expansions are done by its matcher. -/
  shared : Prop
  /-- Actions may say of their own accord that too many alternatives were tried. -/
  made : Prop

namespace Resumption

variable (k : Resumption) {α : Type}

/-- The settings for a new matcher. -/
def fresh : Settings := k.settings.less k.count

/-- The number of alternatives is not limited. -/
def Free : Prop := k.settings.limits.maxSteps = none

/-- The parse that is to be in progress is, unless it makes no difference. -/
def Ready (s : State) : Prop := k.Free ∨ (k.shared → s.text.isSome)

/-- The failure of the new matcher, and that of the one that has tried more before. -/
inductive Later : Failure → Failure → Prop where
  | same {e : Failure} (h : k.made ∨ k.Free ∨ ∀ steps, e ≠ .aborted steps) : Later e e
  | counted (h : ¬ k.Free) (steps : Nat) : Later (.aborted steps) (.aborted (steps + k.count))

/-- The answer of the new matcher, and that of the one that has tried more before. -/
inductive Answers : Except Failure α → Except Failure α → Prop where
  | ok (a : α) : Answers (.ok a) (.ok a)
  | error {e e' : Failure} (h : k.Later e e') : Answers (.error e) (.error e')

variable {k}

theorem Later.of_ne {e : Failure} (h : ∀ steps, e ≠ .aborted steps) : k.Later e e := .same (.inr (.inr h))

theorem Answers.of_free (h : k.Free) : ∀ a : Except Failure α, k.Answers a a
  | .ok a => .ok a
  | .error _ => .error (.same (.inr (.inl h)))

theorem fresh_of_free (h : k.Free) : k.fresh = k.settings := Settings.less_of_unlimited h _

/-- The outcome of the new matcher, and that of the one that has tried more before. -/
structure Resumes (k : Resumption) (run laterRun : Except Failure α × State) : Prop where
  answers : k.Answers run.1 laterRun.1
  state_eq : laterRun.2 = run.2.later k.count
  ready : k.Ready run.2

end Resumption

/-! ## Scripts -/

/-- Two scripts that go on alike where the requests of one are answered as those of the other are. -/
inductive Script.Alike (k : Resumption) {α : Type} : Script α → Script α → Prop where
  | done (a : α) : Alike k (.done a) (.done a)
  | fail {e e' : Failure} (h : k.Later e e') : Alike k (.fail e) (.fail e')
  | expand {r : Expansion} {next next' : Except Failure (Option Construct) → Script α}
      (hs : k.shared ∨ k.Free) (h : ∀ a a', k.Answers a a' → Alike k (next a) (next' a')) :
      Alike k (.expand r next) (.expand r next')
  | expandFull {r : Expansion} {next next' : Except Failure (List Construct) → Script α}
      (hs : k.shared ∨ k.Free) (h : ∀ a a', k.Answers a a' → Alike k (next a) (next' a')) :
      Alike k (.expandFull r next) (.expandFull r next')
  | parse {t : Text} {next next' : Except Failure (List Construct) → Script α}
      (hf : k.Free) (h : ∀ a a', k.Answers a a' → Alike k (next a) (next' a')) :
      Alike k (.parse t next) (.parse t next')
  | invalidate {next next' : Script α} (h : Alike k next next') :
      Alike k (.invalidate next) (.invalidate next')

/-- The action, if it is a function, goes on alike. -/
def Alternative.Alike (k : Resumption) (a : Alternative) : Prop :=
  ∀ name run, a.action = some ⟨name, .function run⟩ → ∀ values start stop,
    (run values start stop).Alike k (run values start stop)

/-! ## Steps -/

namespace Engine

variable {α β : Type} {k : Resumption}

/-- The second step does, with more tried before, what the first does with a new matcher. -/
def Resumed (k : Resumption) (m m' : Engine α) : Prop :=
  ∀ s, k.Ready s → k.Resumes (m k.fresh s) (m' k.settings (s.later k.count))

namespace Resumed

theorem pure (a : α) : Resumed k (Pure.pure a : Engine α) (Pure.pure a) :=
  fun _ hs => ⟨.ok a, rfl, hs⟩

theorem fail_later {e e' : Failure} (h : k.Later e e') :
    Resumed k (Engine.fail e : Engine α) (Engine.fail e') := fun _ hs => ⟨.error h, rfl, hs⟩

theorem fail {e : Failure} (h : ∀ steps, e ≠ .aborted steps) :
    Resumed k (Engine.fail e : Engine α) (Engine.fail e) := fail_later (.of_ne h)

theorem emit (e : Event) : Resumed k (Engine.emit e) (Engine.emit e) := fun _ hs => ⟨.ok (), rfl, hs⟩

theorem ofExcept {r : Except Failure α} (h : ∀ e, r = .error e → ∀ steps, e ≠ .aborted steps) :
    Resumed k (Engine.ofExcept r) (Engine.ofExcept r) := by
  cases r with
  | ok a => exact pure a
  | error e => exact fail (h e rfl)

theorem access (r : Except AccessFault α) : Resumed k (Engine.access r) (Engine.access r) := by
  cases r with
  | ok a => exact pure a
  | error e => exact fail nofun

/-- What is asked of the settings is the same, unless it is the number of alternatives allowed. -/
theorem ask {f f' : Settings → Engine α} (h : Resumed k (f k.fresh) (f' k.settings)) :
    Resumed k (settings >>= f) (settings >>= f') := h

/-- What is known is the same, apart from the count. -/
theorem state {f : State → Engine α} (h : ∀ s, Resumed k (f s) (f (s.later k.count))) :
    Resumed k (Engine.state >>= f) (Engine.state >>= f) := fun s hs => h s s hs

theorem bind {m m' : Engine α} {f f' : α → Engine β} (hm : Resumed k m m')
    (hf : ∀ a, Resumed k (f a) (f' a)) : Resumed k (m >>= f) (m' >>= f') := by
  intro s hs
  obtain ⟨hanswers, hstate, hready⟩ := hm s hs
  rcases hr : m k.fresh s with ⟨r, s₁⟩
  rcases hr' : m' k.settings (s.later k.count) with ⟨r', s₁'⟩
  rw [hr] at hanswers hstate hready
  rw [hr'] at hanswers hstate
  dsimp only at hanswers hstate hready
  subst hstate
  cases hanswers with
  | ok a =>
    rw [bind_run_ok hr, bind_run_ok hr']
    exact hf a s₁ hready
  | error h =>
    rw [bind_run_error hr, bind_run_error hr']
    exact ⟨.error h, rfl, hready⟩

/-- A failure is an answer. -/
theorem attempt_bind {m m' : Engine α} {f f' : Except Failure α → Engine β} (hm : Resumed k m m')
    (hf : ∀ a a', k.Answers a a' → Resumed k (f a) (f' a')) :
    Resumed k (m.attempt >>= f) (m'.attempt >>= f') := by
  intro s hs
  obtain ⟨hanswers, hstate, hready⟩ := hm s hs
  rw [bind_run_ok (attempt_run _ _ _), bind_run_ok (attempt_run _ _ _), hstate]
  exact hf _ _ hanswers _ hready

/-- A rule is entered and left alike. -/
theorem rule (e : Entry) {m m' : Engine α} (hm : Resumed k m m') :
    Resumed k (within (State.enter e) (fun _ => State.leave e) m)
      (within (State.enter e) (fun _ => State.leave e) m') := by
  intro s hs
  obtain ⟨hanswers, hstate, hready⟩ := hm (s.enter e) hs
  rw [within_run, within_run]
  have henter : State.enter e (s.later k.count) = (s.enter e).later k.count := rfl
  rw [henter]
  refine ⟨hanswers, ?_, hready⟩
  rw [hstate]
  rfl

theorem lex (text : Text) (start : Int) (stop depth : Option Int) :
    Resumed k (Engine.lex text start stop depth) (Engine.lex text start stop depth) := by
  refine (emit _).bind fun _ => ask <| (ofExcept fun e he steps => ?_).bind fun _ =>
    (emit _).bind fun _ => pure _
  rintro rfl
  cases hx : k.fresh.lexer.lex text start stop depth <;> rw [hx] at he <;> cases he

theorem lexSpan (text : Text) (span : Value) (depth : Option Int) (interior : Bool) :
    Resumed k (Engine.lexSpan text span depth interior) (Engine.lexSpan text span depth interior) := by
  have hspan : ∀ {γ : Type} (r : Except SpanFault γ) (e : Failure), r.mapError .span = .error e →
      ∀ steps, e ≠ .aborted steps := by
    rintro γ (f | a) e he steps rfl <;> cases he
  have hbetween : ∀ a b : Value,
      Resumed k (Matching.lexBetween text depth a b) (Matching.lexBetween text depth a b) := by
    intro a b
    rw [Matching.lexBetween]
    split
    · exact lex _ _ _ _
    · exact (emit _).bind fun _ => fail fun steps h => by cases h
  rw [Matching.lexSpan_eq]
  refine (ofExcept (hspan _)).bind fun p => ?_
  cases interior with
  | true => exact (ofExcept (hspan _)).bind fun q => hbetween q.1 q.2
  | false => exact (pure _).bind fun q => hbetween q.1 q.2

theorem textOf (e : Expansion) : Resumed k (Engine.textOf e) (Engine.textOf e) := by
  refine state fun s => ?_
  obtain ⟨_, _, _, _, given⟩ := e
  obtain ⟨_, current, _, _⟩ := s
  cases given with
  | some text => exact pure text
  | none =>
    cases current with
    | some text => exact pure text
    | none => exact fail fun steps h => by cases h

/-- In the course of a parse all work is that of its matcher; outside of one a new matcher is the same
beside both. -/
theorem withMatcher {m : Engine α} (hs : k.shared ∨ k.Free) (hm : Resumed k m m) :
    Resumed k (Engine.withMatcher m) (Engine.withMatcher m) := by
  intro s hready
  by_cases ht : s.text.isSome = true
  · rw [withMatcher_run m ht, withMatcher_run m (show (s.later k.count).text.isSome = true from ht)]
    exact hm s hready
  · have hfree : k.Free := hready.elim id fun h => hs.elim (fun hshared => absurd (h hshared) ht) id
    have hrun : ∀ c s, s.text.isSome ≠ true → Engine.withMatcher m c s =
        ((m c { s with run := {} }).1, { (m c { s with run := {} }).2 with run := s.run }) := by
      intro c s ht
      show (if s.text.isSome = true then m else _ : Engine α) c s = _
      rw [if_neg ht]
      rfl
    rw [hrun _ _ ht, hrun _ _ (show (s.later k.count).text.isSome ≠ true from ht),
      Resumption.fresh_of_free hfree]
    exact ⟨.of_free hfree _, rfl, Or.inl hfree⟩

end Resumed

end Engine

/-! ## Rules -/

/-- Whatever the level is asked for is done alike, as far as the matcher at work does it. -/
structure Level.Resumed (below : Level) (k : Resumption) : Prop where
  match? (cursor : Cursor) (name : String) :
    Engine.Resumed k (below.match? cursor name) (below.match? cursor name)
  expand (hs : k.shared ∨ k.Free) (e : Expansion) : Engine.Resumed k (below.expand e) (below.expand e)
  expandFull (hs : k.shared ∨ k.Free) (e : Expansion) :
    Engine.Resumed k (below.expandFull e) (below.expandFull e)
  parseAll (hf : k.Free) (text : Text) (skip : Option Bool) :
    Engine.Resumed k (below.parseAll text skip) (below.parseAll text skip)

theorem Engine.Resumed.perform {α : Type} {k : Resumption} {below : Level} (hb : below.Resumed k)
    {script script' : Script α} (h : script.Alike k script') :
    Engine.Resumed k (script.perform below) (script'.perform below) := by
  induction h with
  | done a => exact pure a
  | fail h => exact fail_later h
  | expand hs _ ih => exact (hb.expand hs _).attempt_bind ih
  | expandFull hs _ ih => exact (hb.expandFull hs _).attempt_bind ih
  | parse hf _ ih => exact (hb.parseAll hf _ _).attempt_bind ih
  | invalidate _ ih =>
    have hforget : Engine.Resumed k Outline.invalidate Outline.invalidate :=
      fun s hs => ⟨.ok (), rfl, hs⟩
    exact hforget.bind fun _ => ih

namespace Level

variable {below : Level} {k : Resumption}

theorem resumed_matchItem (hb : below.Resumed k) (q : Collected) (i : Item) :
    Engine.Resumed k (below.matchItem q i) (below.matchItem q i) := by
  cases i with
  | rule name =>
    refine (hb.match? _ _).bind fun m => ?_
    split
    · exact .pure _
    · exact .pure _
  | terminal t =>
    refine (Engine.Resumed.access _).bind fun p => ?_
    split
    · split
      · exact .pure _
      · exact .pure _
    · exact .pure _

theorem resumed_matchItems (hb : below.Resumed k) (is : List Item) :
    ∀ q : Collected, Engine.Resumed k (below.matchItems is q) (below.matchItems is q) := by
  induction is with
  | nil => exact fun _ => .pure _
  | cons i is ih =>
    intro q
    refine (resumed_matchItem hb q i).bind fun m => ?_
    cases m with
    | none => exact .pure _
    | some q' => exact ih q'

theorem resumed_build (hb : below.Resumed k) (name : String) {a : Alternative} (ha : a.Alike k)
    (values : List Value) (start stop : Int) (cursor : Cursor) :
    Engine.Resumed k (below.build name a values start stop cursor)
      (below.build name a values start stop cursor) := by
  have haction : Engine.Resumed k (below.runAction a values start stop)
      (below.runAction a values start stop) := by
    unfold runAction
    split
    · exact .pure _
    · rename_i hn
      exact .perform hb (ha _ _ hn _ _ _)
    · exact .fail nofun
  refine haction.bind fun v => ?_
  split
  · exact .pure _
  · split
    · exact .pure _
    · exact .fail nofun

/-- Where the new matcher is stopped by what is left of the limit, the other is stopped by the limit. -/
theorem resumed_countStep : Engine.Resumed k countStep countStep := by
  intro s hs
  have hstate : (s.later k.count).tally = s.tally.later k.count := by
    simp only [State.later, State.tally, Run.later, Nat.add_right_comm]
  have hlimit : k.fresh.limits.maxSteps.any (· < ((s.run.steps + 1 : Nat) : Int)) =
      k.settings.limits.maxSteps.any (· < (((s.later k.count).run.steps + 1 : Nat) : Int)) := by
    show (k.settings.limits.maxSteps.map (· - (k.count : Int))).any _ = _
    cases k.settings.limits.maxSteps with
    | none => rfl
    | some n =>
      show decide (n - (k.count : Int) < ((s.run.steps + 1 : Nat) : Int)) =
        decide (n < ((s.run.steps + k.count + 1 : Nat) : Int))
      exact decide_eq_decide.mpr (by omega)
  rw [countStep_run, countStep_run, hstate, ← hlimit]
  refine ⟨?_, rfl, hs⟩
  by_cases hstop : k.fresh.limits.maxSteps.any (· < ((s.run.steps + 1 : Nat) : Int)) = true
  · have hlimited : ¬ k.Free := by
      intro hf
      rw [hlimit, hf] at hstop
      cases hstop
    have hcount : (s.later k.count).run.steps + 1 = s.run.steps + 1 + k.count := Nat.add_right_comm _ _ _
    simp only [if_pos hstop, hcount]
    exact .error (.counted hlimited _)
  · simp only [if_neg hstop]
    exact .ok ()

theorem resumed_tryAlternative (hb : below.Resumed k) (cursor : Cursor) (name : String)
    {a : Alternative} (ha : a.Alike k) : Engine.Resumed k (below.tryAlternative cursor name a)
      (below.tryAlternative cursor name a) := by
  refine resumed_countStep.bind fun _ => (Engine.Resumed.access _).bind fun offset => ?_
  split
  · exact (resumed_build hb name ha _ _ _ _).bind fun _ => .pure _
  · refine (resumed_matchItems hb a.items _).bind fun q => ?_
    split
    · exact (resumed_build hb name ha _ _ _ _).bind fun _ => .pure _
    · exact .pure _

theorem resumed_tryAlternatives (hb : below.Resumed k) (cursor : Cursor) (name : String)
    (as : List Alternative) (ha : ∀ a ∈ as, a.Alike k) : ∀ number, Engine.Resumed k
      (below.tryAlternatives cursor name number as) (below.tryAlternatives cursor name number as) := by
  induction as with
  | nil => exact fun _ => .pure _
  | cons a as ih =>
    intro number
    refine (resumed_tryAlternative hb cursor name (ha a List.mem_cons_self)).bind fun m => ?_
    cases m with
    | none => exact ih (fun b hb => ha b (List.mem_cons_of_mem _ hb)) (number + 1)
    | some m => exact (Engine.Resumed.emit _).bind fun _ => .pure _

theorem resumed_matchRule (hb : below.Resumed k)
    (ha : ∀ r ∈ k.settings.grammar.rules, ∀ a ∈ r.alternatives, a.Alike k) (cursor : Cursor)
    (name : String) : Engine.Resumed k (below.matchRule cursor name) (below.matchRule cursor name) := by
  rw [matchRule_eq]
  refine Engine.Resumed.ask ?_
  show Engine.Resumed k (Engine.ofExcept (k.settings.grammar.alternatives name) >>= _)
    (Engine.ofExcept (k.settings.grammar.alternatives name) >>= _)
  unfold Grammar.alternatives
  cases has : k.settings.grammar.alternatives? name with
  | none =>
    have hfail : Engine.Resumed k (Engine.fail (.undefinedRule name) : Engine (Option Match))
        (Engine.fail (.undefinedRule name)) := .fail nofun
    exact hfail
  | some as =>
    obtain ⟨r, hr, -, rfl⟩ := Grammar.alternatives?_eq_some has
    -- The rules in progress are the same beside both, and so is the limit of their number.
    have henter : ∀ s : State, Engine.Resumed k
        (below.enterAt k.fresh.limits.maxDepth cursor name r.alternatives s)
        (below.enterAt k.settings.limits.maxDepth cursor name r.alternatives (s.later k.count)) := by
      intro s
      show Engine.Resumed k (below.enterAt k.settings.limits.maxDepth cursor name r.alternatives s)
        (below.enterAt k.settings.limits.maxDepth cursor name r.alternatives s)
      unfold enterAt
      split
      · exact .fail nofun
      · split
        · exact (Engine.Resumed.access _).bind fun _ => .fail nofun
        · exact .rule _ (resumed_tryAlternatives hb cursor name r.alternatives (ha r hr) 0)
    have hstate := Engine.Resumed.state henter
    exact hstate

end Level

/-! ## Runs -/

namespace Matching

variable {rule : Matching} {k : Resumption}

theorem resumed_guarded (hr : ∀ cursor name, Engine.Resumed k (rule cursor name) (rule cursor name))
    (cursor : Cursor) (name : String) :
    Engine.Resumed k (rule.guarded cursor name) (rule.guarded cursor name) := by
  rw [guarded_eq]
  refine (hr cursor name).attempt_bind fun a a' h => ?_
  cases h with
  | ok m => exact .pure m
  | @error e e' h =>
    cases h with
    | counted hf steps => exact .fail_later (.counted hf steps)
    | same h =>
      unfold unnested
      split
      · exact .pure _
      · exact .state fun s => (Engine.Resumed.access _).bind fun _ => .fail nofun
      · rename_i he
        cases he
        exact .fail_later (.same h)

theorem resumed_rounds (hr : ∀ cursor name, Engine.Resumed k (rule cursor name) (rule cursor name))
    (name : String) (fuel : Nat) : ∀ (cursor : Cursor) (found : Array Construct), Engine.Resumed k
      (rule.rounds { name } fuel cursor found) (rule.rounds { name } fuel cursor found) := by
  induction fuel with
  | zero => exact fun _ _ => .pure _
  | succ fuel ih =>
    intro cursor found
    refine (Engine.Resumed.access _).bind fun l => ?_
    split
    · exact .pure _
    · split
      · exact ih _ _
      · refine (resumed_guarded hr _ _).bind fun m => ?_
        split
        · exact .fail nofun
        · split
          · exact .fail nofun
          · rename_i m _
            have hcontribution : Engine.Resumed k (Rounds.contribution { name } m)
                (Rounds.contribution { name } m) := by
              unfold Rounds.contribution
              split
              · exact (Engine.Resumed.emit _).bind fun _ => .pure _
              · exact .pure _
            refine hcontribution.bind fun more => ?_
            split
            · exact (Engine.Resumed.emit _).bind fun _ => ih _ _
            · exact (Engine.Resumed.pure _).bind fun _ => ih _ _

/-- A parse has a matcher of its own. -/
theorem resumed_parseAll (hf : k.Free) (below : Level) (text : Text) (skip : Option Bool) :
    Engine.Resumed k (rule.parseAll below text skip) (rule.parseAll below text skip) := by
  intro s _
  rw [Resumption.fresh_of_free hf, parseAll_run, parseAll_run]
  have hbegun : begun text (s.later k.count) = begun text s := rfl
  cases hk : s.cache.filter (·.isValidFor text (skip.getD k.settings.skipComments)) with
  | some kept =>
    rw [show (s.later k.count).cache.filter _ = some kept from hk]
    exact ⟨.ok _, rfl, Or.inl hf⟩
  | none =>
    rw [show (s.later k.count).cache.filter _ = none from hk]
    simp only [parseText_run, hbegun]
    split
    · exact ⟨.ok _, rfl, Or.inl hf⟩
    · exact ⟨.of_free hf _, rfl, Or.inl hf⟩

end Matching

namespace Level

variable {below : Level} {k : Resumption}

theorem resumed_above (ha : ∀ r ∈ k.settings.grammar.rules, ∀ a ∈ r.alternatives, a.Alike k)
    (hb : below.Resumed k) : below.above.Resumed k where
  match? := resumed_matchRule hb ha
  expand hs e := (Engine.Resumed.textOf e).bind fun _ => (Engine.Resumed.lexSpan _ _ _ _).bind fun cursor =>
    (Engine.Resumed.withMatcher hs (Matching.resumed_guarded (resumed_matchRule hb ha) cursor e.rule)).bind
      fun _ => (Engine.Resumed.emit _).bind fun _ => .pure _
  expandFull hs e := (Engine.Resumed.textOf e).bind fun _ => (Engine.Resumed.lexSpan _ _ _ _).bind
    fun cursor => (Engine.Resumed.withMatcher hs ((Matching.resumed_rounds (resumed_matchRule hb ha) e.rule
      cursor.unread cursor #[]).bind fun _ => .pure _)).bind fun _ => (Engine.Resumed.emit _).bind fun _ =>
        .pure _
  parseAll hf text skip := Matching.resumed_parseAll hf below text skip

/-- **Whatever a level is asked for is done by a matcher that has tried some alternatives as by a new one
that is allowed so many fewer.** -/
theorem resumed (ha : ∀ r ∈ k.settings.grammar.rules, ∀ a ∈ r.alternatives, a.Alike k) :
    ∀ room, (level room).Resumed k
  | 0 => ⟨fun _ _ => .fail nofun, fun _ _ => .fail nofun, fun _ _ => .fail nofun, fun _ _ _ => .fail nofun⟩
  | room + 1 => resumed_above ha (resumed ha room)

end Level

end Outline
