import Outline.Matcher

/-!
# Steps that leave the nesting alone

A step of the parser may count alternatives, remember parses and report, but once it has ended,
either way, the rules in progress are those from before.

* `Run.nesting`, `Engine.Steady`: the nesting of a matcher, and the steps that keep it;
* `Engine.Steady.bind`, `Engine.Steady.bracket`: how steady steps are put together;
* `Level.Steady`, **`Level.steady`**: whatever a level is asked for is steady, also if actions ask
  for more;
* `Matcher.AtRest`, `Matcher.Reachable`, `Matcher.Reachable.atRest`: between two matches no rule is
  in progress.
-/

namespace Outline

/-- The nesting of a matcher: the number of rules in progress, and which they are. -/
def Run.nesting (r : Run) : Nat × List Entry := (r.depth, r.active)

theorem Run.nesting_leave {r r₀ : Run} {e : Entry} (h : r.nesting = (r₀.enter e).nesting) :
    (r.leave e).nesting = r₀.nesting := by
  have hd : r.depth = r₀.depth + 1 := congrArg Prod.fst h
  have ha : r.active = e :: r₀.active := congrArg Prod.snd h
  rw [nesting, leave, hd, ha, List.erase_cons_head]
  rfl

namespace Engine

variable {α β : Type}

/-- The step leaves the nesting as it was, whether it fails or not. -/
def Steady (m : Engine α) : Prop := ∀ c s, (m c s).2.run.nesting = s.run.nesting

namespace Steady

theorem pure (a : α) : Steady (Pure.pure a : Engine α) := fun _ _ => rfl

theorem fail (e : Failure) : Steady (Engine.fail e : Engine α) := fun _ _ => rfl

theorem settings : Steady Engine.settings := fun _ _ => rfl

theorem state : Steady Engine.state := fun _ _ => rfl

theorem emit (e : Event) : Steady (Engine.emit e) := fun _ _ => rfl

theorem ofExcept : ∀ r : Except Failure α, Steady (Engine.ofExcept r)
  | .ok _ => fun _ _ => rfl
  | .error _ => fun _ _ => rfl

theorem access (r : Except AccessFault α) : Steady (Engine.access r) := ofExcept _

theorem bind {m : Engine α} {f : α → Engine β} (hm : Steady m) (hf : ∀ a, Steady (f a)) :
    Steady (m >>= f) := by
  intro c s
  have h := hm c s
  cases hr : m c s with
  | mk r s₁ =>
    rw [hr] at h
    cases r with
    | ok a => rw [bind_run_ok hr, hf a c s₁, h]
    | error e => rw [bind_run_error hr, h]

theorem attempt {m : Engine α} (hm : Steady m) : Steady m.attempt := fun c s => hm c s

/-- A step between an entry and an exit is steady if the exit undoes what the entry did, given that
the nesting in between is kept. -/
theorem bracket {enter : State → State} {leave : State → State → State} {m : Engine α}
    (hm : Steady m)
    (hl : ∀ s after, after.run.nesting = (enter s).run.nesting →
      (leave s after).run.nesting = s.run.nesting) : Steady (within enter leave m) :=
  fun c s => hl s _ (hm c (enter s))

theorem lex (text : Text) (start : Int) (stop depth : Option Int) :
    Steady (Engine.lex text start stop depth) :=
  (emit _).bind fun _ => settings.bind fun _ => (ofExcept _).bind fun _ => (emit _).bind fun _ =>
    pure _

theorem lexSpan (text : Text) (span : Value) (depth : Option Int) (interior : Bool) :
    Steady (Engine.lexSpan text span depth interior) := by
  refine (ofExcept _).bind fun (a, b) => ?_
  cases interior with
  | true =>
    refine (ofExcept _).bind fun (a, b) => ?_
    dsimp only
    split
    · exact lex _ _ _ _
    · exact (emit _).bind fun _ => fail _
  | false =>
    refine (pure _).bind fun (a, b) => ?_
    dsimp only
    split
    · exact lex _ _ _ _
    · exact (emit _).bind fun _ => fail _

theorem textOf (e : Expansion) : Steady (Engine.textOf e) := by
  refine state.bind fun s => ?_
  split
  · exact pure _
  · exact pure _
  · exact fail _

theorem withMatcher {m : Engine α} (hm : Steady m) : Steady (Engine.withMatcher m) := by
  refine state.bind fun s => ?_
  split
  · exact hm
  · exact bracket hm fun _ _ _ => rfl

end Steady

end Engine

open Engine

/-! ## Levels -/

/-- Whatever the level is asked for is steady. -/
structure Level.Steady (l : Level) : Prop where
  match? : ∀ cursor rule, (l.match? cursor rule).Steady
  expand : ∀ e, (l.expand e).Steady
  expandFull : ∀ e, (l.expandFull e).Steady
  parseAll : ∀ text skip, (l.parseAll text skip).Steady

theorem Level.steady_bottom : Level.bottom.Steady :=
  ⟨fun _ _ => .fail _, fun _ => .fail _, fun _ => .fail _, fun _ _ => .fail _⟩

theorem Engine.Steady.perform {α : Type} {below : Level} (hb : below.Steady) :
    ∀ script : Script α, (script.perform below).Steady
  | .done _ => pure _
  | .fail _ => fail _
  | .expand r next => (hb.expand r).attempt.bind fun a => perform hb (next a)
  | .expandFull r next => (hb.expandFull r).attempt.bind fun a => perform hb (next a)
  | .parse t next => (hb.parseAll t none).attempt.bind fun a => perform hb (next a)
  | .invalidate next => bind (bind (emit _) fun _ _ _ => rfl) fun _ => perform hb next

namespace Level

variable {below : Level}

theorem steady_matchItem (hb : below.Steady) (k : Collected) (i : Item) :
    (below.matchItem k i).Steady := by
  cases i with
  | rule name =>
    refine (hb.match? _ _).bind fun m => ?_
    split
    · exact .pure _
    · exact .pure _
  | terminal t =>
    refine (Engine.Steady.access _).bind fun p => ?_
    split
    · split
      · exact .pure _
      · exact .pure _
    · exact .pure _

theorem steady_matchItems (hb : below.Steady) :
    ∀ (is : List Item) (k : Collected), (below.matchItems is k).Steady
  | [], _ => .pure _
  | i :: is, k => by
    refine (steady_matchItem hb k i).bind fun m => ?_
    cases m with
    | none => exact .pure _
    | some k' => exact steady_matchItems hb is k'

theorem steady_runAction (hb : below.Steady) (a : Alternative) (values : List Value)
    (start stop : Int) : (below.runAction a values start stop).Steady := by
  unfold runAction
  split
  · exact .pure _
  · exact .perform hb _
  · exact .fail _

theorem steady_build (hb : below.Steady) (name : String) (a : Alternative) (values : List Value)
    (start stop : Int) (cursor : Cursor) :
    (below.build name a values start stop cursor).Steady := by
  refine (steady_runAction hb a values start stop).bind fun v => ?_
  split
  · exact .pure _
  · split
    · exact .pure _
    · exact .fail _

theorem steady_countStep : countStep.Steady := by
  refine Engine.Steady.settings.bind fun c => ?_
  refine Engine.Steady.bind (fun _ _ => rfl) fun _ => Engine.Steady.state.bind fun s => ?_
  split
  · exact .fail _
  · exact .pure _

theorem steady_tryAlternative (hb : below.Steady) (cursor : Cursor) (name : String)
    (a : Alternative) : (below.tryAlternative cursor name a).Steady := by
  refine steady_countStep.bind fun _ => (Engine.Steady.access _).bind fun offset => ?_
  split
  · exact (steady_build hb _ _ _ _ _ _).bind fun _ => .pure _
  · refine (steady_matchItems hb _ _).bind fun k => ?_
    split
    · exact (steady_build hb _ _ _ _ _ _).bind fun _ => .pure _
    · exact .pure _

theorem steady_tryAlternatives (hb : below.Steady) (cursor : Cursor) (name : String) :
    ∀ (number : Nat) (as : List Alternative), (below.tryAlternatives cursor name number as).Steady
  | _, [] => .pure _
  | number, a :: as => by
    refine (steady_tryAlternative hb cursor name a).bind fun m => ?_
    cases m with
    | none => exact steady_tryAlternatives hb cursor name (number + 1) as
    | some m => exact (Engine.Steady.emit _).bind fun _ => .pure _

theorem steady_matchRule (hb : below.Steady) (cursor : Cursor) (name : String) :
    (below.matchRule cursor name).Steady := by
  refine Engine.Steady.settings.bind fun c => (Engine.Steady.ofExcept _).bind fun as =>
    Engine.Steady.state.bind fun s => ?_
  split
  · exact .fail _
  · split
    · exact (Engine.Steady.access _).bind fun _ => .fail _
    · exact .bracket (steady_tryAlternatives hb _ _ _ _) fun _ _ => Run.nesting_leave

end Level

/-! ## Runs -/

namespace Matching

variable {rule : Matching}

theorem steady_guarded (hr : ∀ cursor name, (rule cursor name).Steady) (cursor : Cursor)
    (name : String) : (rule.guarded cursor name).Steady := by
  refine (hr cursor name).attempt.bind fun r => ?_
  split
  · exact .pure _
  · exact Engine.Steady.state.bind fun _ => (Engine.Steady.access _).bind fun _ => .fail _
  · exact .fail _

theorem steady_contribution (r : Rounds) (ha : ∀ c, (r.accept c).Steady) (m : Match) :
    (r.contribution m).Steady := by
  unfold Rounds.contribution
  split
  · exact (Engine.Steady.emit _).bind fun _ => .pure _
  · exact ha _

theorem steady_rounds (hr : ∀ cursor name, (rule cursor name).Steady) (r : Rounds)
    (ha : ∀ c, (r.accept c).Steady) :
    ∀ (fuel : Nat) (cursor : Cursor) (found : Array Construct),
      (rule.rounds r fuel cursor found).Steady
  | 0, _, _ => .pure _
  | fuel + 1, cursor, found => by
    refine (Engine.Steady.access _).bind fun l => ?_
    split
    · exact .pure _
    · split
      · exact steady_rounds hr r ha fuel _ _
      · refine (steady_guarded hr _ _).bind fun m => ?_
        split
        · exact .fail _
        · split
          · exact .fail _
          · refine (steady_contribution r ha _).bind fun more => ?_
            split
            · exact (Engine.Steady.emit _).bind fun _ => steady_rounds hr r ha fuel _ _
            · exact (Engine.Steady.pure _).bind fun _ => steady_rounds hr r ha fuel _ _

theorem steady_repeatedly (hr : ∀ cursor name, (rule cursor name).Steady) (r : Rounds)
    (ha : ∀ c, (r.accept c).Steady) (cursor : Cursor) : (rule.repeatedly r cursor).Steady :=
  .withMatcher ((steady_rounds hr r ha _ _ _).bind fun _ => .pure _)

theorem steady_expand (hr : ∀ cursor name, (rule cursor name).Steady) (e : Expansion) :
    (rule.expand e).Steady :=
  (Engine.Steady.textOf e).bind fun _ => (Engine.Steady.lexSpan _ _ _ _).bind fun _ =>
    (Engine.Steady.withMatcher (steady_guarded hr _ _)).bind fun _ =>
      (Engine.Steady.emit _).bind fun _ => .pure _

theorem steady_expandFull (hr : ∀ cursor name, (rule cursor name).Steady) (e : Expansion) :
    (rule.expandFull e).Steady :=
  (Engine.Steady.textOf e).bind fun _ => (Engine.Steady.lexSpan _ _ _ _).bind fun _ =>
    (steady_repeatedly hr _ (fun _ => .pure _) _).bind fun _ =>
      (Engine.Steady.emit _).bind fun _ => .pure _

theorem steady_hooked (textEnd : Nat) : ∀ vs : List Value, (hooked textEnd vs).Steady
  | [] => .pure _
  | v :: vs => by
    unfold hooked
    split
    · exact (steady_hooked textEnd vs).bind fun _ => .pure _
    · exact .fail _

theorem steady_replace {below : Level} (hb : below.Steady) (textEnd : Nat) (k : Construct) :
    (replace below textEnd k).Steady := by
  refine Engine.Steady.settings.bind fun c => ?_
  split
  · exact .pure _
  · exact (Engine.Steady.perform hb _).bind fun _ => (Engine.Steady.access _).bind fun _ =>
      steady_hooked _ _

theorem steady_parseText {below : Level} (hb : below.Steady)
    (hr : ∀ cursor name, (rule cursor name).Steady) (text : Text) (skip : Bool) :
    (rule.parseText below text skip).Steady := by
  refine Engine.Steady.settings.bind fun c => Engine.Steady.bind (.bracket ?_ fun _ _ _ => rfl)
    fun found => Engine.Steady.bind (fun _ _ => rfl) fun _ => (Engine.Steady.emit _).bind fun _ =>
      .pure _
  exact (Engine.Steady.lex _ _ _ _).bind fun _ =>
    steady_repeatedly hr _ (fun _ => steady_replace hb _ _) _

theorem steady_parseAll {below : Level} (hb : below.Steady)
    (hr : ∀ cursor name, (rule cursor name).Steady) (text : Text) (skip : Option Bool) :
    (rule.parseAll below text skip).Steady := by
  refine Engine.Steady.settings.bind fun c => Engine.Steady.state.bind fun s => ?_
  split
  · split
    · exact (Engine.Steady.emit _).bind fun _ => .pure _
    · exact steady_parseText hb hr _ _
  · exact steady_parseText hb hr _ _

end Matching

theorem Level.steady_above {below : Level} (hb : below.Steady) : below.above.Steady where
  match? := steady_matchRule hb
  expand := Matching.steady_expand (steady_matchRule hb)
  expandFull := Matching.steady_expandFull (steady_matchRule hb)
  parseAll := Matching.steady_parseAll hb (steady_matchRule hb)

/-- **Whatever the parser is asked for, the rules in progress are the same before and after.** -/
theorem Level.steady : ∀ room, (level room).Steady
  | 0 => steady_bottom
  | room + 1 => steady_above (steady room)

/-! ## Matchers between matches -/

/-- No rule is in progress. -/
def Matcher.AtRest (m : Matcher) : Prop := m.run.nesting = (0, [])

theorem Matcher.nesting_match? (m : Matcher) (cursor : Cursor) (rule : String) (room : Nat) :
    (m.match? cursor rule room).2.run.nesting = m.run.nesting :=
  Matching.steady_guarded (Level.steady room).match? cursor rule _ { run := m.run }

/-- The matchers of a grammar: a new one, and what it becomes by matches, which may fail, and by
changes of its limits. -/
inductive Matcher.Reachable (g : Grammar) : Matcher → Prop where
  | new (limits : Limits) : Reachable g { grammar := g, limits }
  | match? {m : Matcher} (h : Reachable g m) (cursor : Cursor) (rule : String) (room : Nat) :
      Reachable g (m.match? cursor rule room).2
  | limit {m : Matcher} (h : Reachable g m) (limits : Limits) : Reachable g { m with limits }

theorem Matcher.Reachable.grammar_eq {g : Grammar} {m : Matcher} (h : Reachable g m) :
    m.grammar = g := by
  induction h with
  | new limits => rfl
  | match? _ _ _ _ ih => exact ih
  | limit _ _ ih => exact ih

theorem Matcher.Reachable.atRest {g : Grammar} {m : Matcher} (h : Reachable g m) : m.AtRest := by
  induction h with
  | new limits => rfl
  | match? _ cursor rule room ih => exact (Matcher.nesting_match? _ cursor rule room).trans ih
  | limit _ _ ih => exact ih

end Outline
