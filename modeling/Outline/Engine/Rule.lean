import Outline.Engine.Level

/-!
# Matching rules

A rule tries its alternatives in order, each from the same place; the first whose items all match
decides. Its action is given the values of the items and the stretch of text they cover.

* `Collected`: the values and the stretch so far;
* `Level.matchItem`, `Level.matchItems`: the items from left to right;
* `Level.build`: the construct of a match;
* `Level.tryAlternative`, `Level.tryAlternatives`, `Level.matchRule`.

What a rule found without reading anything adds a value but does not stretch the match, which then
never reaches over the blanks and comments that follow it.
-/

namespace Outline

/-- What the items of an alternative have found so far. -/
structure Collected where
  values : Array Value := #[]
  /-- Where the first item that read anything starts. -/
  start : Option Int := none
  stop : Int
  cursor : Cursor

namespace Collected

/-- A lexeme was read. -/
def addLexeme (c : Collected) (l : Lexeme) (cursor : Cursor) : Collected where
  values := c.values.push (l.value cursor.text)
  start := some (c.start.getD l.start)
  stop := l.stop
  cursor := cursor

/-- A rule has matched. -/
def addConstruct (c : Collected) (found : Construct) (cursor : Cursor) : Collected where
  values := c.values.push (.tuple found.fields)
  start := if cursor.index = c.cursor.index then c.start else some (c.start.getD found.start)
  stop := if cursor.index = c.cursor.index then c.stop else found.stop
  cursor := cursor

end Collected

/-- One more alternative is tried, if the limit allows it. -/
def countStep : Engine Unit := do
  let c ← Engine.settings
  Engine.modify fun s => { s with run := { s.run with steps := s.run.steps + 1 } }
  let s ← Engine.state
  if c.limits.maxSteps.any (· < (s.run.steps : Int)) then .fail (.aborted s.run.steps)

namespace Level

variable (below : Level)

/-- Match an item behind what has been found; a rule whose action dropped the match counts as not
matched. -/
def matchItem (c : Collected) : Item → Engine (Option Collected)
  | .rule name => do
    match ← below.match? c.cursor name with
    | some ⟨cursor, some found⟩ => return some (c.addConstruct found cursor)
    | _ => return none
  | .terminal t => do
    match ← Engine.access (c.cursor.next (t.kind != .comment)) with
    | (some l, cursor) =>
      if l.kind = t.kind ∧ t.accepts (l.text cursor.text) then return some (c.addLexeme l cursor)
      else return none
    | (none, _) => return none

/-- Match all items in order. -/
def matchItems : List Item → Collected → Engine (Option Collected)
  | [], c => return some c
  | i :: is, c => do
    match ← below.matchItem c i with
    | some c => matchItems is c
    | none => return none

/-- What the action of an alternative, or the default, makes of the values. -/
def runAction (a : Alternative) (values : List Value) (start stop : Int) : Engine Value :=
  match a.action with
  | none => return a.defaultValue values start stop
  | some ⟨_, .function run⟩ => (run values start stop).perform below
  | some ⟨_, .inert type⟩ => .fail (.notCallable type)

/-- The match of an alternative of the rule `name`. What is built has to be a construct within the
text; nothing drops the match. -/
def build (name : String) (a : Alternative) (values : List Value) (start stop : Int)
    (cursor : Cursor) : Engine Match := do
  match ← below.runAction a values start stop with
  | .none => return ⟨cursor, none⟩
  | value =>
    match Construct.ofValue (some cursor.text.length) value with
    | .ok found => return ⟨cursor, some found⟩
    | .error defect =>
      .fail (.malformed s!"action for {quoted name} ({a.display})" value defect)

/-- Try an alternative at a cursor. -/
def tryAlternative (cursor : Cursor) (name : String) (a : Alternative) :
    Engine (Option Match) := do
  countStep
  let offset ← Engine.access cursor.offset
  if a.isEmpty then
    return some (← below.build name a [.none] offset offset cursor)
  else
    match ← below.matchItems a.items { stop := offset, cursor } with
    | some c =>
      return some (← below.build name a c.values.toList (c.start.getD c.stop) c.stop c.cursor)
    | none => return none

/-- Try alternatives in order; `number` is that of the first. -/
def tryAlternatives (cursor : Cursor) (name : String) :
    (number : Nat) → List Alternative → Engine (Option Match)
  | _, [] => return none
  | number, a :: as => do
    match ← below.tryAlternative cursor name a with
    | some m =>
      Engine.emit (.matched name number a cursor.index m.cursor.index)
      return some m
    | none => tryAlternatives cursor name (number + 1) as

/-- Match a rule at a cursor. It has to be defined, not to be in progress at the same place, and not
to be nested too deep. -/
def matchRule (cursor : Cursor) (name : String) : Engine (Option Match) := do
  let c ← Engine.settings
  let alternatives ← Engine.ofExcept (c.grammar.alternatives name)
  let entry : Entry := ⟨name, cursor.start, cursor.stop, cursor.index⟩
  let s ← Engine.state
  if s.run.active.contains entry then .fail (.leftRecursion name)
  else if c.limits.maxDepth ≤ s.run.depth then
    let offset ← Engine.access cursor.offset
    .fail (.nestingLimit name c.limits.maxDepth offset)
  else
    Engine.within (fun s => { s with run := s.run.enter entry })
      (fun _ s => { s with run := s.run.leave entry })
      (below.tryAlternatives cursor name 0 alternatives)

end Level

end Outline
