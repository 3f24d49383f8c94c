import Outline.Proofs.Engine.Round
import Outline.Proofs.Matching.Advance

/-!
# What tighter limits change

A step of the parser is run twice from one state, under some limits and under tighter ones. Either the two
runs are the same, or the tighter limits have put an end to the second, which then ends in a failure that
says so.

* `Script.Expanding`: scripts that only expand spans and pass on every failure;
* `Curb`: two limits, and what the tighter ones put an end to;
* `Curb.Curtails`, `Engine.Curbed`: two runs that are the same up to there;
* `Engine.Curbed.bind`, `Engine.Curbed.within`: how such steps are put together;
* `Level.Curbed`, **`Level.curbed`**: whatever a level is asked for in the course of a parse.
-/

namespace Outline

open Engine

/-! ## Scripts that expand -/

/-- A script that asks for expansions alone, and fails at once where one fails. -/
inductive Script.Expanding {α : Type} : Script α → Prop where
  | done (a : α) : Expanding (.done a)
  | fail (e : Failure) : Expanding (.fail e)
  | expand {r : Expansion} {next : Except Failure (Option Construct) → Script α}
      (pass : ∀ e, next (.error e) = .fail e) (rest : ∀ a, Expanding (next (.ok a))) :
      Expanding (.expand r next)
  | expandFull {r : Expansion} {next : Except Failure (List Construct) → Script α}
      (pass : ∀ e, next (.error e) = .fail e) (rest : ∀ a, Expanding (next (.ok a))) :
      Expanding (.expandFull r next)

/-- The action, if it is a function, asks for expansions alone. -/
def Alternative.Expanding (a : Alternative) : Prop :=
  ∀ name run, a.action = some ⟨name, .function run⟩ → ∀ values start stop,
    (run values start stop).Expanding

/-- All actions and the hook ask for expansions alone. -/
structure Settings.Expanding (c : Settings) : Prop where
  actions : ∀ r ∈ c.grammar.rules, ∀ a ∈ r.alternatives, a.Expanding
  hook : ∀ hook ∈ c.hook, ∀ k, (hook k).Expanding

/-! ## Two limits -/

/-- Settings, limits tighter than theirs, and what these put an end to: a run that is allowed to go on
has counted what `Allows` holds of, and where the other run has counted `n` alternatives, one that was
stopped ends in what `Stops n` holds of. -/
structure Curb where
  settings : Settings
  tight : Limits
  Allows : Nat → Prop
  Stops : Nat → Failure → Prop
  mono : ∀ {m n e}, Stops m e → m ≤ n → Stops n e
  counts : ∀ n, Allows n →
    (tight.maxSteps.any (· < ((n + 1 : Nat) : Int)) = false ∧
      settings.limits.maxSteps.any (· < ((n + 1 : Nat) : Int)) = false ∧ Allows (n + 1)) ∨
    (tight.maxSteps.any (· < ((n + 1 : Nat) : Int)) = true ∧ Stops (n + 1) (.aborted (n + 1)))
  nests : tight.maxDepth = settings.limits.maxDepth ∨
    tight.maxDepth ≤ settings.limits.maxDepth ∧
      ∀ n name limit offset, Stops n (.nestingLimit name limit offset)
  room : ∀ n, ¬ Stops n .stackOverflow

namespace Curb

variable {α : Type}

/-- The settings with the tighter limits. -/
def tightened (k : Curb) : Settings := { k.settings with limits := k.tight }

/-- Of two runs from one state, the first under the settings and the second under the tighter limits: the
second is the same as the first, or it was stopped. The first counts on, however the second ends. -/
structure Curtails (k : Curb) (s : State) (run tightRun : Except Failure α × State) : Prop where
  steps_le : s.run.steps ≤ run.2.run.steps
  text_eq : run.2.text = s.text
  same_or_stopped : k.Allows s.run.steps → (tightRun = run ∧ k.Allows run.2.run.steps) ∨
    ∃ e, tightRun.1 = .error e ∧ k.Stops run.2.run.steps e

end Curb

namespace Engine

variable {α β : Type} {k : Curb}

/-- In the course of a parse the tighter limits stop the second step, or change nothing. -/
def Curbed (k : Curb) (m m' : Engine α) : Prop :=
  ∀ s, s.text.isSome → k.Curtails s (m k.settings s) (m' k.tightened s)

/-- The step can come to the result. -/
def Gives (c : Settings) (m : Engine α) (a : α) : Prop := ∃ s s', m c s = (.ok a, s')

namespace Curbed

/-- A step that does not ask for the limits, and neither counts nor changes the text. -/
theorem of_still {m m' : Engine α} (h : ∀ s, m' k.tightened s = m k.settings s)
    (hs : ∀ s, (m k.settings s).2.run = s.run) (ht : ∀ s, (m k.settings s).2.text = s.text) :
    Curbed k m m' := by
  intro s _
  exact ⟨by rw [hs], ht s, fun ha => Or.inl ⟨h s, by rwa [hs]⟩⟩

theorem pure (a : α) : Curbed k (Pure.pure a) (Pure.pure a) :=
  of_still (fun _ => rfl) (fun _ => rfl) fun _ => rfl

theorem fail (e : Failure) : Curbed k (Engine.fail e : Engine α) (Engine.fail e) :=
  of_still (fun _ => rfl) (fun _ => rfl) fun _ => rfl

theorem state : Curbed k Engine.state Engine.state :=
  of_still (fun _ => rfl) (fun _ => rfl) fun _ => rfl

theorem emit (e : Event) : Curbed k (Engine.emit e) (Engine.emit e) :=
  of_still (fun _ => rfl) (fun _ => rfl) fun _ => rfl

theorem ofExcept (r : Except Failure α) : Curbed k (Engine.ofExcept r) (Engine.ofExcept r) := by
  refine of_still (fun s => ?_) (fun s => ?_) fun s => ?_ <;> simp only [ofExcept_run]

theorem access (r : Except AccessFault α) : Curbed k (Engine.access r) (Engine.access r) := ofExcept _

/-- What is asked of the settings is the same, unless it is the limits. -/
theorem ask {f f' : Settings → Engine α} (h : Curbed k (f k.settings) (f' k.tightened)) :
    Curbed k (Engine.settings >>= f) (Engine.settings >>= f') := h

/-- A step that is stopped at once, beside whatever the other does. -/
theorem of_stopped {m m' m'' : Engine α} (hm : Curbed k m m')
    (h : ∀ s, ∃ e, (m'' k.tightened s).1 = .error e ∧ ∀ n, k.Stops n e) : Curbed k m m'' := by
  intro s ht
  obtain ⟨e, he, hstop⟩ := h s
  exact ⟨(hm s ht).steps_le, (hm s ht).text_eq, fun _ => Or.inr ⟨e, he, hstop _⟩⟩

theorem bind {m m' : Engine α} {f f' : α → Engine β} (hm : Curbed k m m')
    (hf : ∀ a, m.Gives k.settings a → Curbed k (f a) (f' a)) : Curbed k (m >>= f) (m' >>= f') := by
  intro s ht
  have hrun := hm s ht
  rcases hr : m k.settings s with ⟨e | a, s₁⟩
  · rw [hr] at hrun
    rw [bind_run_error hr]
    refine ⟨hrun.steps_le, hrun.text_eq, fun ha => ?_⟩
    rcases hrun.same_or_stopped ha with ⟨hsame, hall⟩ | ⟨e', he, hstop⟩
    · rw [bind_run_error hsame]
      exact Or.inl ⟨rfl, hall⟩
    · rw [bind_run_error (Prod.ext he rfl)]
      exact Or.inr ⟨e', rfl, hstop⟩
  · rw [hr] at hrun
    have htext : s₁.text = s.text := hrun.text_eq
    have hnext := hf a ⟨s, s₁, hr⟩ s₁ (by rwa [htext])
    rw [bind_run_ok hr]
    refine ⟨hrun.steps_le.trans hnext.steps_le, hnext.text_eq.trans htext, fun ha => ?_⟩
    rcases hrun.same_or_stopped ha with ⟨hsame, hall⟩ | ⟨e, he, hstop⟩
    · rw [bind_run_ok hsame]
      exact hnext.same_or_stopped hall
    · -- The first run goes on and counts; the second stays where it was stopped.
      rw [bind_run_error (Prod.ext he rfl)]
      exact Or.inr ⟨e, rfl, k.mono hstop hnext.steps_le⟩

/-- A step between an entry and an exit that leave the text and the count alone. -/
theorem within {enter : State → State} {leave : State → State → State} {m m' : Engine α}
    (hm : Curbed k m m') (ht : ∀ s, (enter s).text = s.text)
    (hs : ∀ s, (enter s).run.steps = s.run.steps) (ht' : ∀ s after, (leave s after).text = after.text)
    (hs' : ∀ s after, (leave s after).run.steps = after.run.steps) :
    Curbed k (Engine.within enter leave m) (Engine.within enter leave m') := by
  intro s htext
  have hrun := hm (enter s) (by rwa [ht])
  rw [within_run, within_run]
  refine ⟨?_, ?_, fun ha => ?_⟩
  · rw [hs', ← hs s]
    exact hrun.steps_le
  · rw [ht', hrun.text_eq, ht]
  · rw [hs']
    rcases hrun.same_or_stopped (by rwa [hs]) with ⟨hsame, hall⟩ | hstop
    · exact Or.inl ⟨by rw [hsame], hall⟩
    · exact Or.inr hstop

/-- A failure that is passed on need not be looked at. -/
theorem attempt_bind {m : Engine α} {f : Except Failure α → Engine β}
    (hf : ∀ e, f (.error e) = Engine.fail e) : m.attempt >>= f = m >>= fun a => f (.ok a) := by
  funext c s
  rw [bind_run_ok (attempt_run m c s)]
  rcases hr : m c s with ⟨e | a, s₁⟩
  · rw [bind_run_error hr, hf]
    rfl
  · rw [bind_run_ok hr]

theorem lex (text : Text) (start : Int) (stop depth : Option Int) :
    Curbed k (Engine.lex text start stop depth) (Engine.lex text start stop depth) :=
  (emit _).bind fun _ _ => ask <| (ofExcept _).bind fun _ _ => (emit _).bind fun _ _ => pure _

theorem lexSpan (text : Text) (span : Value) (depth : Option Int) (interior : Bool) :
    Curbed k (Engine.lexSpan text span depth interior) (Engine.lexSpan text span depth interior) := by
  have hbetween : ∀ a b : Value,
      Curbed k (Matching.lexBetween text depth a b) (Matching.lexBetween text depth a b) := by
    intro a b
    rw [Matching.lexBetween]
    split
    · exact lex _ _ _ _
    · exact (emit _).bind fun _ _ => fail _
  rw [Matching.lexSpan_eq]
  refine (ofExcept _).bind fun p _ => ?_
  cases interior with
  | true => exact (ofExcept _).bind fun q _ => hbetween q.1 q.2
  | false => exact (pure _).bind fun q _ => hbetween q.1 q.2

theorem textOf (e : Expansion) : Curbed k (Engine.textOf e) (Engine.textOf e) := by
  refine state.bind fun s _ => ?_
  split
  · exact pure _
  · exact pure _
  · exact fail _

theorem withMatcher {m m' : Engine α} (hm : Curbed k m m') :
    Curbed k (Engine.withMatcher m) (Engine.withMatcher m') := by
  intro s ht
  rw [withMatcher_run m ht, withMatcher_run m' ht]
  exact hm s ht

end Curbed

end Engine

/-! ## Rules -/

/-- Every match of the level is the same, or it was stopped. -/
def Level.CurbedMatch (below : Level) (k : Curb) : Prop := ∀ cursor name, cursor.InRow →
  Engine.Curbed k (below.match? cursor name) (below.match? cursor name)

/-- Whatever the level is asked for in the course of a parse is the same, or it was stopped. -/
structure Level.Curbed (below : Level) (k : Curb) : Prop where
  match? : below.CurbedMatch k
  expand : ∀ e, Engine.Curbed k (below.expand e) (below.expand e)
  expandFull : ∀ e, Engine.Curbed k (below.expandFull e) (below.expandFull e)

theorem Engine.Curbed.perform {α : Type} {k : Curb} {below : Level} (hb : below.Curbed k)
    {script : Script α} (h : script.Expanding) :
    Engine.Curbed k (script.perform below) (script.perform below) := by
  induction h with
  | done a => exact pure a
  | fail e => exact fail e
  | @expand r next pass rest ih =>
    have hpass : (Script.expand r next).perform below =
        below.expand r >>= fun a => (next (.ok a)).perform below :=
      attempt_bind fun e => by rw [pass]; rfl
    rw [hpass]
    exact (hb.expand r).bind fun a _ => ih a
  | @expandFull r next pass rest ih =>
    have hpass : (Script.expandFull r next).perform below =
        below.expandFull r >>= fun a => (next (.ok a)).perform below :=
      attempt_bind fun e => by rw [pass]; rfl
    rw [hpass]
    exact (hb.expandFull r).bind fun a _ => ih a

namespace Level

variable {below : Level} {k : Curb}

theorem curbed_matchItem (hb : below.Curbed k) {q : Collected} (hq : q.cursor.InRow) (i : Item) :
    Engine.Curbed k (below.matchItem q i) (below.matchItem q i) := by
  cases i with
  | rule name =>
    refine (hb.match? _ _ hq).bind fun m _ => ?_
    split
    · exact .pure _
    · exact .pure _
  | terminal t =>
    refine (Engine.Curbed.access _).bind fun p _ => ?_
    split
    · split
      · exact .pure _
      · exact .pure _
    · exact .pure _

theorem curbed_matchItems (hb : below.Curbed k) (ha : below.Advances k.settings) (is : List Item) :
    ∀ {q : Collected}, q.cursor.InRow →
      Engine.Curbed k (below.matchItems is q) (below.matchItems is q) := by
  induction is with
  | nil => exact fun _ => .pure _
  | cons i is ih =>
    intro q hq
    refine (curbed_matchItem hb hq i).bind fun m hm => ?_
    cases m with
    | none => exact .pure _
    | some q' =>
      obtain ⟨s, s', hm⟩ := hm
      have hmoves := moves_item ha (itemAttempt below k.settings q i hm)
      exact ih (hmoves.ahead.inRow hq)

theorem curbed_runAction (hb : below.Curbed k) {a : Alternative} (ha : a.Expanding)
    (values : List Value) (start stop : Int) :
    Engine.Curbed k (below.runAction a values start stop) (below.runAction a values start stop) := by
  unfold runAction
  split
  · exact .pure _
  · rename_i hn
    exact .perform hb (ha _ _ hn _ _ _)
  · exact .fail _

theorem curbed_build (hb : below.Curbed k) (name : String) {a : Alternative} (ha : a.Expanding)
    (values : List Value) (start stop : Int) (cursor : Cursor) :
    Engine.Curbed k (below.build name a values start stop cursor)
      (below.build name a values start stop cursor) := by
  refine (curbed_runAction hb ha values start stop).bind fun v _ => ?_
  split
  · exact .pure _
  · split
    · exact .pure _
    · exact .fail _

/-- Counting an alternative is where the number of steps is limited. -/
theorem curbed_countStep : Engine.Curbed k countStep countStep := by
  have hok : ∀ {c : Settings} {s : State},
      c.limits.maxSteps.any (· < ((s.run.steps + 1 : Nat) : Int)) = false →
        countStep c s = (.ok (), s.tally) := by
    intro c s h
    rw [countStep_run, if_neg (Bool.eq_false_iff.mp h)]
  intro s _
  have hsnd : (countStep k.settings s).2 = s.tally := by rw [countStep_run]
  refine ⟨?_, ?_, fun ha => ?_⟩
  · rw [hsnd]
    exact Nat.le_succ _
  · rw [hsnd]
    rfl
  · rw [hsnd]
    rcases k.counts s.run.steps ha with ⟨htight, hloose, hall⟩ | ⟨htight, hstop⟩
    · exact Or.inl ⟨(hok htight).trans (hok hloose).symm, hall⟩
    · refine Or.inr ⟨_, ?_, hstop⟩
      rw [countStep_run]
      exact if_pos htight

theorem curbed_tryAlternative (hb : below.Curbed k) (ha : below.Advances k.settings) {cursor : Cursor}
    (hc : cursor.InRow) (name : String) {a : Alternative} (hx : a.Expanding) :
    Engine.Curbed k (below.tryAlternative cursor name a) (below.tryAlternative cursor name a) := by
  refine curbed_countStep.bind fun _ _ => (Engine.Curbed.access _).bind fun offset _ => ?_
  split
  · exact (curbed_build hb name hx _ _ _ _).bind fun _ _ => .pure _
  · refine (curbed_matchItems hb ha a.items hc).bind fun q _ => ?_
    split
    · exact (curbed_build hb name hx _ _ _ _).bind fun _ _ => .pure _
    · exact .pure _

theorem curbed_tryAlternatives (hb : below.Curbed k) (ha : below.Advances k.settings)
    {cursor : Cursor} (hc : cursor.InRow) (name : String) (as : List Alternative)
    (hx : ∀ a ∈ as, a.Expanding) : ∀ number, Engine.Curbed k
      (below.tryAlternatives cursor name number as) (below.tryAlternatives cursor name number as) := by
  induction as with
  | nil => exact fun _ => .pure _
  | cons a as ih =>
    intro number
    refine (curbed_tryAlternative hb ha hc name (hx a List.mem_cons_self)).bind fun m _ => ?_
    cases m with
    | none => exact ih (fun b hb => hx b (List.mem_cons_of_mem _ hb)) (number + 1)
    | some m => exact (Engine.Curbed.emit _).bind fun _ _ => .pure _

/-- Entering a rule is where the nesting is limited. -/
theorem curbed_matchRule (hx : k.settings.Expanding) (hb : below.Curbed k)
    (ha : below.Advances k.settings) {cursor : Cursor} (hc : cursor.InRow) (name : String) :
    Engine.Curbed k (below.matchRule cursor name) (below.matchRule cursor name) := by
  have htry : ∀ as, k.settings.grammar.alternatives name = .ok as → Engine.Curbed k
      (within (fun s => { s with run := s.run.enter (cursor.entry name) })
        (fun _ s => { s with run := s.run.leave (cursor.entry name) })
        (below.tryAlternatives cursor name 0 as))
      (within (fun s => { s with run := s.run.enter (cursor.entry name) })
        (fun _ s => { s with run := s.run.leave (cursor.entry name) })
        (below.tryAlternatives cursor name 0 as)) := by
    intro as has
    have hexp : ∀ a ∈ as, a.Expanding := by
      unfold Grammar.alternatives at has
      split at has
      · rename_i as' hsome
        cases has
        obtain ⟨r, hr, -, rfl⟩ := Grammar.alternatives?_eq_some hsome
        exact hx.actions r hr
      · cases has
    exact (curbed_tryAlternatives hb ha hc name as hexp 0).within (fun _ => rfl) (fun _ => rfl)
      (fun _ _ => rfl) (fun _ _ => rfl)
  refine Engine.Curbed.ask <| (Engine.Curbed.ofExcept _).bind fun as has =>
    Engine.Curbed.state.bind fun s _ => ?_
  have hok : k.settings.grammar.alternatives name = .ok as := by
    obtain ⟨s, s', hrun⟩ := has
    rw [ofExcept_run] at hrun
    exact congrArg Prod.fst hrun
  split
  · exact .fail _
  · have hdeep : Engine.Curbed k
        (do fail (.nestingLimit name k.settings.limits.maxDepth (← access cursor.offset)) :
          Engine (Option Match))
        (do fail (.nestingLimit name k.settings.limits.maxDepth (← access cursor.offset))) :=
      (Engine.Curbed.access _).bind fun _ _ => .fail _
    rcases k.nests with heq | ⟨hle, hstop⟩
    · simp only [Curb.tightened, heq]
      split
      · exact hdeep
      · exact htry as hok
    · by_cases hd : k.tight.maxDepth ≤ s.run.depth
      · -- The second run is stopped here, whatever the first does.
        obtain ⟨offset, ho⟩ := Cursor.offset_eq_ok_iff.mpr hc
        have hstopped : ∀ s₁, ∃ e, ((do fail (.nestingLimit name k.tight.maxDepth
            (← access cursor.offset)) : Engine (Option Match)) k.tightened s₁).1 = .error e ∧
            ∀ n, k.Stops n e := by
          intro s₁
          rw [ho]
          exact ⟨_, rfl, fun n => hstop n _ _ _⟩
        rw [if_pos (show k.tightened.limits.maxDepth ≤ s.run.depth from hd)]
        split
        · exact hdeep.of_stopped hstopped
        · exact (htry as hok).of_stopped hstopped
      · rw [if_neg (show ¬ k.tightened.limits.maxDepth ≤ s.run.depth from hd), if_neg (by omega)]
        exact htry as hok

end Level

/-! ## Runs -/

namespace Matching

variable {rule : Matching} {k : Curb}

/-- What a guard makes of a match. -/
def unnested (cursor : Cursor) (name : String) : Except Failure (Option Match) → Engine (Option Match)
  | .ok m => pure m
  | .error .stackOverflow => do
    let s ← Engine.state
    let offset ← Engine.access cursor.offset
    .fail (.nestingLimit name s.run.depth offset)
  | .error e => .fail e

theorem guarded_eq (cursor : Cursor) (name : String) :
    rule.guarded cursor name = (rule cursor name).attempt >>= unnested cursor name := rfl

/-- What is made of a match asks for no settings, and neither counts nor changes the text. -/
theorem curbed_unnested (cursor : Cursor) (name : String) (r : Except Failure (Option Match)) :
    Engine.Curbed k (unnested cursor name r) (unnested cursor name r) := by
  unfold unnested
  split
  · exact .pure _
  · exact Engine.Curbed.state.bind fun _ _ => (Engine.Curbed.access _).bind fun _ _ => .fail _
  · exact .fail _

/-- A guarded match is stopped where the match is: that is never for lack of room. -/
theorem curbed_guarded {cursor : Cursor} {name : String}
    (hr : Engine.Curbed k (rule cursor name) (rule cursor name)) :
    Engine.Curbed k (rule.guarded cursor name) (rule.guarded cursor name) := by
  intro s ht
  have hrun := hr s ht
  have hnext := curbed_unnested (k := k) cursor name (rule cursor name k.settings s).1
    (rule cursor name k.settings s).2 (by rwa [hrun.text_eq])
  rw [guarded_eq, bind_run_ok (attempt_run _ _ _), bind_run_ok (attempt_run _ _ _)]
  refine ⟨hrun.steps_le.trans hnext.steps_le, hnext.text_eq.trans hrun.text_eq, fun hall => ?_⟩
  rcases hrun.same_or_stopped hall with ⟨hsame, hall⟩ | ⟨e, he, hstop⟩
  · rw [hsame]
    exact hnext.same_or_stopped hall
  · have hne : e ≠ .stackOverflow := by
      rintro rfl
      exact k.room _ hstop
    rw [he]
    refine Or.inr ⟨e, ?_, k.mono hstop hnext.steps_le⟩
    cases e <;> first | exact absurd rfl hne | rfl

theorem curbed_contribution {r : Rounds} (ha : ∀ q, Engine.Curbed k (r.accept q) (r.accept q))
    (m : Match) : Engine.Curbed k (r.contribution m) (r.contribution m) := by
  unfold Rounds.contribution
  split
  · exact (Engine.Curbed.emit _).bind fun _ _ => .pure _
  · exact ha _

theorem advances_guarded {below : Level} (ha : below.Advances k.settings) {cursor : Cursor}
    {name : String} {m : Match}
    (h : (guarded below.match? cursor name).Gives k.settings (some m)) : cursor.Ahead m.cursor := by
  obtain ⟨s, s', h⟩ := h
  rcases Level.guarded_run _ _ cursor name h with ⟨-, hm⟩ | ⟨-, e, he, -⟩
  · exact (ha cursor name s m (by rw [hm])).ahead
  · cases he

theorem curbed_rounds {below : Level} (hm : below.CurbedMatch k) (ha : below.Advances k.settings)
    {r : Rounds} (hr : ∀ q, Engine.Curbed k (r.accept q) (r.accept q)) (fuel : Nat) :
    ∀ {cursor : Cursor} (found : Array Construct), cursor.InRow → Engine.Curbed k
      (Matching.rounds below.match? r fuel cursor found)
      (Matching.rounds below.match? r fuel cursor found) := by
  induction fuel with
  | zero => exact fun _ _ => .pure _
  | succ fuel ih =>
    intro cursor found hc
    refine (Engine.Curbed.access _).bind fun l _ => ?_
    split
    · exact .pure _
    · split
      · exact ih _ hc.advance
      · refine (curbed_guarded (hm cursor r.name hc)).bind fun m hgives => ?_
        split
        · exact .fail _
        · split
          · exact .fail _
          · have hrow := (advances_guarded ha hgives).inRow hc
            refine (curbed_contribution hr _).bind fun more _ => ?_
            split
            · exact (Engine.Curbed.emit _).bind fun _ _ => ih _ hrow
            · exact (Engine.Curbed.pure _).bind fun _ _ => ih _ hrow

theorem curbed_repeatedly {below : Level} (hm : below.CurbedMatch k) (ha : below.Advances k.settings)
    {r : Rounds} (hr : ∀ q, Engine.Curbed k (r.accept q) (r.accept q)) {cursor : Cursor}
    (hc : cursor.InRow) : Engine.Curbed k
      (repeatedly below.match? r cursor) (repeatedly below.match? r cursor) :=
  .withMatcher ((curbed_rounds hm ha hr _ _ hc).bind fun _ _ => .pure _)

end Matching

namespace Level

variable {below : Level} {k : Curb}

/-- The lexemes of a span are read from their start. -/
theorem inRow_of_lexSpan {c : Settings} {text : Text} {span : Value} {depth : Option Int}
    {interior : Bool} {cursor : Cursor}
    (h : (Engine.lexSpan text span depth interior).Gives c cursor) : cursor.InRow := by
  obtain ⟨s, s', h⟩ := h
  obtain ⟨start, stop, hl⟩ := Matching.lex_of_lexSpan (congrArg Prod.fst h)
  have hi := (Lexer.start_of_lex hl).2
  unfold Cursor.InRow
  omega

theorem curbed_above (hx : k.settings.Expanding) (hb : below.Curbed k)
    (ha : below.Advances k.settings) : below.above.Curbed k := by
  have hrule : below.above.CurbedMatch k := fun cursor name hc => curbed_matchRule hx hb ha hc name
  have habove : below.above.Advances k.settings := advances_above ha
  refine ⟨hrule, fun e => ?_, fun e => ?_⟩
  · refine (Engine.Curbed.textOf e).bind fun _ _ =>
      (Engine.Curbed.lexSpan _ _ _ _).bind fun cursor hc => ?_
    have hguarded := Matching.curbed_guarded (hrule cursor e.rule (inRow_of_lexSpan hc))
    exact (Engine.Curbed.withMatcher hguarded).bind fun _ _ =>
      (Engine.Curbed.emit _).bind fun _ _ => .pure _
  · refine (Engine.Curbed.textOf e).bind fun _ _ =>
      (Engine.Curbed.lexSpan _ _ _ _).bind fun cursor hc => ?_
    exact (Matching.curbed_repeatedly hrule habove (fun _ => .pure _) (inRow_of_lexSpan hc)).bind
      fun _ _ => (Engine.Curbed.emit _).bind fun _ _ => .pure _

/-- **Whatever a level is asked for in the course of a parse is the same under tighter limits, or it was
stopped by them.** -/
theorem curbed (hx : k.settings.Expanding) : ∀ room, (level room).Curbed k
  | 0 => ⟨fun _ _ _ => .fail _, fun _ => .fail _, fun _ => .fail _⟩
  | room + 1 => curbed_above hx (curbed hx room) (advances k.settings room)

end Level

/-! ## Whole texts -/

namespace Matching

variable {below : Level} {k : Curb}

theorem curbed_hooked (textEnd : Nat) (vs : List Value) :
    Engine.Curbed k (hooked textEnd vs) (hooked textEnd vs) := by
  induction vs with
  | nil => exact .pure _
  | cons v vs ih =>
    unfold hooked
    split
    · exact ih.bind fun _ _ => .pure _
    · exact .fail _

theorem curbed_replace (hx : k.settings.Expanding) (hb : below.Curbed k) (textEnd : Nat)
    (q : Construct) : Engine.Curbed k (replace below textEnd q) (replace below textEnd q) := by
  rw [replace_eq]
  refine Engine.Curbed.ask ?_
  show Engine.Curbed k (replaceBy below textEnd q k.settings.hook) (replaceBy below textEnd q k.settings.hook)
  cases hh : k.settings.hook with
  | none => exact .pure _
  | some hook =>
    exact (Engine.Curbed.perform hb (hx.hook hook hh q)).bind fun _ _ =>
      (Engine.Curbed.access _).bind fun _ _ => curbed_hooked _ _

/-- **A parse that is in progress is the same under tighter limits, or it was stopped by them.** -/
theorem curbed_inProgress (hx : k.settings.Expanding) (room : Nat) (text : Text)
    (skipComments : Bool) : Engine.Curbed k
      (inProgress (level room).matchRule (level room) k.settings text skipComments)
      (inProgress (level room).matchRule (level room) k.tightened text skipComments) := by
  refine (Engine.Curbed.lex _ _ _ _).bind fun cursor hc => ?_
  have hrow : cursor.InRow := by
    obtain ⟨s, s', hl⟩ := hc
    have hi := (Lexer.start_of_lex (lex_ok (congrArg Prod.fst hl))).2
    unfold Cursor.InRow
    omega
  exact curbed_repeatedly (Level.curbed hx (room + 1)).match? (Level.advances k.settings (room + 1))
    (curbed_replace hx (Level.curbed hx room) text.length) hrow

end Matching

end Outline
