import Outline.Failure

/-!
# Scripts

What an action or a hook does, step by step: it may ask the parser to expand a span, to parse another
text or to forget the last parse, and it ends in a result or gives up.

* `Expansion`: what is to be expanded, and how;
* `Script`, `Script.bind`: the steps. The answer to a request may be a failure, which a script can
  handle or pass on;
* `Script.Direct`: a script without requests;
* `Script.Upright`: a script that passes on every failure.
-/

namespace Outline

/-- What is to be expanded: a span of a text, by a rule. -/
structure Expansion where
  span : Value
  rule : String
  /-- How deep brackets are looked into. -/
  depth : Option Int := some 0
  /-- The brackets around the span are left out. -/
  interior : Bool := true
  /-- The text of the span, if it is not the one being parsed. -/
  text : Option Text := none
deriving Inhabited

/-- The steps of an action or a hook. -/
inductive Script (α : Type) where
  | done (result : α)
  | fail (failure : Failure)
  /-- Match a rule once at the start of a span. -/
  | expand (request : Expansion) (next : Except Failure (Option Construct) → Script α)
  /-- Match a rule until a span is used up. -/
  | expandFull (request : Expansion) (next : Except Failure (List Construct) → Script α)
  /-- Parse another text in the same session. -/
  | parse (text : Text) (next : Except Failure (List Construct) → Script α)
  /-- Forget the last parse. -/
  | invalidate (next : Script α)

namespace Script

/-- Go on with the result. -/
def bind {α β : Type} (f : α → Script β) : Script α → Script β
  | done a => f a
  | fail e => fail e
  | expand r next => expand r fun a => (next a).bind f
  | expandFull r next => expandFull r fun a => (next a).bind f
  | parse t next => parse t fun a => (next a).bind f
  | invalidate next => invalidate (next.bind f)

instance : Monad Script where
  pure := done
  bind s f := s.bind f

/-- A result or a failure as a script. -/
def ofExcept {α : Type} : Except Failure α → Script α
  | .ok a => done a
  | .error e => fail e

/-- A script that makes no request. -/
inductive Direct {α : Type} : Script α → Prop where
  | done (a : α) : Direct (.done a)
  | fail (e : Failure) : Direct (.fail e)

/-- A script that fails at once where a request fails. -/
inductive Upright {α : Type} : Script α → Prop where
  | done (a : α) : Upright (.done a)
  | fail (e : Failure) : Upright (.fail e)
  | expand {r : Expansion} {next : Except Failure (Option Construct) → Script α}
      (pass : ∀ e, next (.error e) = .fail e) (rest : ∀ a, Upright (next (.ok a))) :
      Upright (.expand r next)
  | expandFull {r : Expansion} {next : Except Failure (List Construct) → Script α}
      (pass : ∀ e, next (.error e) = .fail e) (rest : ∀ a, Upright (next (.ok a))) :
      Upright (.expandFull r next)
  | parse {t : Text} {next : Except Failure (List Construct) → Script α}
      (pass : ∀ e, next (.error e) = .fail e) (rest : ∀ a, Upright (next (.ok a))) :
      Upright (.parse t next)
  | invalidate {next : Script α} (rest : Upright next) : Upright (.invalidate next)

/-! ## Requests as scripts -/

/-- Expand a span and give what was found. -/
def expanded (r : Expansion) : Script (Option Construct) := expand r ofExcept

/-- Expand a whole span and give what was found. -/
def expandedFull (r : Expansion) : Script (List Construct) := expandFull r ofExcept

/-- Parse a text and give what was found. -/
def parsed (text : Text) : Script (List Construct) := parse text ofExcept

end Script

end Outline
