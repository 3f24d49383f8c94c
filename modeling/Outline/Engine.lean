import Outline.Event
import Outline.Lexer

/-!
# The engine

What the parser knows while it works, and the steps that read and change it.

* `Settings`: what is fixed during a call, `Limits`: the guards of a matcher;
* `Entry`, `Run`: the rule matches in progress and the number of alternatives tried;
* `ParseCache`: the result of the last complete parse;
* `State`, `Engine`: a step is a function of the settings and the state, and the state outlives a
  failure;
* `Engine.attempt`, `Engine.within`: a step whose failure is an answer, and a step between an entry
  and an exit that is passed either way.
-/

namespace Outline

/-- The guards of a matcher: how deep rules may be nested, and how many alternatives may be tried. -/
structure Limits where
  maxDepth : Int := 200
  maxSteps : Option Int := none
deriving DecidableEq, Repr

/-- What does not change during a call. -/
structure Settings where
  grammar : Grammar
  lexer : Lexer := {}
  /-- How deep brackets of a whole text are looked into. -/
  depth : Option Int := some 0
  /-- Comments between constructs are passed over. -/
  skipComments : Bool := true
  /-- What each construct of a whole text is replaced by. -/
  hook : Option (Construct → Script Value) := none
  limits : Limits := {}

/-- A match of a rule that is in progress: the rule, and the place where it was entered. -/
structure Entry where
  rule : String
  start : Nat
  stop : Nat
  index : Int
deriving DecidableEq, Repr

/-- The work of a matcher so far. -/
structure Run where
  /-- The number of alternatives tried. -/
  steps : Nat := 0
  /-- The number of rule matches in progress. -/
  depth : Nat := 0
  active : List Entry := []
deriving DecidableEq, Repr

namespace Run

/-- A rule match begins. -/
def enter (e : Entry) (r : Run) : Run := { r with depth := r.depth + 1, active := e :: r.active }

/-- A rule match ends. -/
def leave (e : Entry) (r : Run) : Run := { r with depth := r.depth - 1, active := r.active.erase e }

theorem leave_enter (e : Entry) (r : Run) : (r.enter e).leave e = r := by
  simp [enter, leave]

end Run

/-- The result of a complete parse, and what it is the result of: a text of a length, with or without
comments passed over. -/
structure ParseCache where
  constructs : List Construct
  textEnd : Nat
  skipComments : Bool

/-- The result holds for every text of the same length, if comments are treated alike. -/
def ParseCache.isValidFor (c : ParseCache) (text : Text) (skipComments : Bool) : Bool :=
  c.textEnd == text.length && c.skipComments == skipComments

/-- What changes during a call. -/
structure State where
  /-- The matcher that is at work. -/
  run : Run := {}
  /-- The text of the parse in progress. Its matcher serves all expansions. -/
  text : Option Text := none
  cache : Option ParseCache := none
  /-- The reports so far, the latest first. -/
  events : List Event := []

/-- A step of the parser. -/
def Engine (α : Type) : Type := Settings → State → Except Failure α × State

namespace Engine

variable {α β : Type}

/-- Nothing happens. -/
protected def pure (a : α) : Engine α := fun _ s => (.ok a, s)

/-- One step after the other. -/
protected def bind (m : Engine α) (f : α → Engine β) : Engine β := fun c s =>
  match m c s with
  | (.ok a, s) => f a c s
  | (.error e, s) => (.error e, s)

instance : Monad Engine where
  pure := Engine.pure
  bind := Engine.bind

/-- The parser gives up. -/
def fail (e : Failure) : Engine α := fun _ s => (.error e, s)

/-- What is fixed. -/
def settings : Engine Settings := fun c s => (.ok c, s)

/-- What is known. -/
def state : Engine State := fun _ s => (.ok s, s)

/-- Change what is known. -/
def modify (f : State → State) : Engine Unit := fun _ s => (.ok (), f s)

/-- Report something. -/
def emit (e : Event) : Engine Unit := modify fun s => { s with events := e :: s.events }

/-- A result or a failure. -/
def ofExcept : Except Failure α → Engine α
  | .ok a => Engine.pure a
  | .error e => fail e

/-- A part of a value or of a row, or the failure to have it. -/
def access (r : Except AccessFault α) : Engine α := ofExcept (r.mapError .access)

/-- A step whose failure is an answer. -/
def attempt (m : Engine α) : Engine (Except Failure α) := fun c s =>
  match m c s with
  | (r, s) => (.ok r, s)

/-- A step between an entry and an exit. The exit is passed after a failure too; it is told the
state before the entry. -/
def within (enter : State → State) (leave : (before after : State) → State) (m : Engine α) :
    Engine α := fun c s =>
  match m c (enter s) with
  | (r, after) => (r, leave s after)

/-! ## Laws -/

@[simp] theorem pure_run (a : α) (c : Settings) (s : State) : (pure a : Engine α) c s = (.ok a, s) :=
  rfl

@[simp] theorem fail_run (e : Failure) (c : Settings) (s : State) :
    (fail e : Engine α) c s = (.error e, s) := rfl

@[simp] theorem settings_run (c : Settings) (s : State) : settings c s = (.ok c, s) := rfl

@[simp] theorem state_run (c : Settings) (s : State) : state c s = (.ok s, s) := rfl

@[simp] theorem modify_run (f : State → State) (c : Settings) (s : State) :
    modify f c s = (.ok (), f s) := rfl

@[simp] theorem emit_run (e : Event) (c : Settings) (s : State) :
    emit e c s = (.ok (), { s with events := e :: s.events }) := rfl

@[simp] theorem ofExcept_run (r : Except Failure α) (c : Settings) (s : State) :
    ofExcept r c s = (r, s) := by
  cases r <;> rfl

theorem access_run_ok {r : Except AccessFault α} {c : Settings} {s s' : State} {a : α}
    (h : access r c s = (.ok a, s')) : r = .ok a ∧ s' = s := by
  cases r <;> cases h
  exact ⟨rfl, rfl⟩

theorem access_run_error {r : Except AccessFault α} {c : Settings} {s s' : State} {e : Failure}
    (h : access r c s = (.error e, s')) : ∃ f, r = .error f ∧ e = .access f ∧ s' = s := by
  cases r <;> cases h
  exact ⟨_, rfl, rfl, rfl⟩

theorem attempt_run (m : Engine α) (c : Settings) (s : State) :
    m.attempt c s = (.ok (m c s).1, (m c s).2) := rfl

theorem within_run (enter : State → State) (leave : State → State → State) (m : Engine α)
    (c : Settings) (s : State) :
    within enter leave m c s = ((m c (enter s)).1, leave s (m c (enter s)).2) := rfl

theorem bind_run_ok {m : Engine α} {f : α → Engine β} {c : Settings} {s s' : State} {a : α}
    (h : m c s = (.ok a, s')) : (m >>= f) c s = f a c s' := by
  change (match m c s with | (.ok a, s) => f a c s | (.error e, s) => (.error e, s)) = _
  rw [h]

theorem bind_run_error {m : Engine α} {f : α → Engine β} {c : Settings} {s s' : State}
    {e : Failure} (h : m c s = (.error e, s')) : (m >>= f) c s = (.error e, s') := by
  change (match m c s with | (.ok a, s) => f a c s | (.error e, s) => (.error e, s)) = _
  rw [h]

theorem bind_run_ofExcept (r : Except Failure α) (f : α → Engine β) (c : Settings) (s : State) :
    (ofExcept r >>= f) c s = match r with
      | .ok a => f a c s
      | .error e => (.error e, s) := by
  cases r <;> rfl

/-- What a step followed by another can come to. -/
theorem bind_run_cases {m : Engine α} {f : α → Engine β} {c : Settings} {s s' : State}
    {r : Except Failure β} (h : (m >>= f) c s = (r, s')) :
    (∃ a s₁, m c s = (.ok a, s₁) ∧ f a c s₁ = (r, s')) ∨
      ∃ e, m c s = (.error e, s') ∧ r = .error e := by
  cases hm : m c s with
  | mk r₁ s₁ =>
    cases r₁ with
    | ok a =>
      rw [bind_run_ok hm] at h
      exact Or.inl ⟨a, s₁, rfl, h⟩
    | error e =>
      rw [bind_run_error hm] at h
      cases h
      exact Or.inr ⟨e, rfl, rfl⟩

end Engine

end Outline
