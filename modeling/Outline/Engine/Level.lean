import Outline.Engine

/-!
# Levels

Rules call rules, and actions call the parser, so the parser is built in levels: what one level does is
made of what the level below does. The lowest level has no room left and does nothing but fail.

* `Level`: what the parser can be asked for;
* `Level.bottom`: no room left;
* `Script.perform`: a script run on a level.
-/

namespace Outline

/-- A place behind the lexemes of a match, and what the match built, unless its action dropped it. -/
structure Match where
  cursor : Cursor
  construct : Option Construct

/-- What the parser can be asked for. -/
structure Level where
  /-- Match a rule at a cursor. -/
  match? : Cursor → (rule : String) → Engine (Option Match)
  /-- Match a rule once at the start of a span. -/
  expand : Expansion → Engine (Option Construct)
  /-- Match a rule until a span is used up. -/
  expandFull : Expansion → Engine (List Construct)
  /-- Parse a text. -/
  parseAll : Text → (skipComments : Option Bool) → Engine (List Construct)

/-- The level without room. -/
def Level.bottom : Level where
  match? _ _ := .fail .stackOverflow
  expand _ := .fail .stackOverflow
  expandFull _ := .fail .stackOverflow
  parseAll _ _ := .fail .stackOverflow

/-- Forget the last parse. -/
def invalidate : Engine Unit := do
  .emit .invalidated
  .modify fun s => { s with cache := none }

/-- A script whose requests a level answers. -/
def Script.perform {α : Type} (below : Level) : Script α → Engine α
  | done a => pure a
  | fail e => .fail e
  | expand r next => do (next (← (below.expand r).attempt)).perform below
  | expandFull r next => do (next (← (below.expandFull r).attempt)).perform below
  | parse text next => do (next (← (below.parseAll text none).attempt)).perform below
  | invalidate next => do Outline.invalidate; next.perform below

end Outline
