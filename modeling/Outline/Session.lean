import Outline.Engine.Run
import Outline.Grammar.WellFormed

/-!
# Sessions

A session parses texts of one language and remembers its last complete parse.

* `Session`, `Session.new`: a session needs a well-formed grammar;
* `Outcome`: the result of a call, the session after it, and what was reported;
* `Session.parseAll`, `Session.expand`, `Session.expandFull`, `Session.parseStream`,
  `Session.invalidate`: the calls;
* `parseAll`: a text parsed by a new session.
-/

namespace Outline

/-- The settings of a parser, and its last complete parse. -/
structure Session where
  settings : Settings
  cache : Option ParseCache := none

/-- What a call leads to. -/
structure Outcome (α : Type) where
  result : Except Failure α
  session : Session
  /-- What was reported, in order. -/
  events : List Event

namespace Session

/-- A session for a well-formed grammar. -/
def new (settings : Settings) : Except GrammarFault Session :=
  match settings.grammar.fault? with
  | some fault => .error fault
  | none => .ok { settings }

/-- Run a step of the parser outside of any parse. -/
def run {α : Type} (s : Session) (m : Engine α) : Outcome α :=
  let (result, after) := m s.settings { cache := s.cache }
  { result, session := { s with cache := after.cache }, events := after.events.reverse }

/-- The constructs of a text. -/
def parseAll (s : Session) (text : Text) (skipComments : Option Bool := none)
    (room : Nat := defaultRoom) : Outcome (List Construct) :=
  s.run ((level room).parseAll text skipComments)

/-- Match a rule once at the start of a span. -/
def expand (s : Session) (e : Expansion) (room : Nat := defaultRoom) : Outcome (Option Construct) :=
  s.run ((level room).expand e)

/-- Match a rule until a span is used up. -/
def expandFull (s : Session) (e : Expansion) (room : Nat := defaultRoom) :
    Outcome (List Construct) :=
  s.run ((level room).expandFull e)

/-- Match a rule once at a cursor. -/
def parseStream (s : Session) (cursor : Cursor) (rule : String) (room : Nat := defaultRoom) :
    Outcome (Option Match) :=
  s.run (Matching.parseStream (level room).match? cursor rule)

/-- The lexemes of a text. -/
def lex (s : Session) (text : Text) (depth : Option Int := some 0) : Outcome Cursor :=
  s.run (.lex text 0 none depth)

/-- Forget the last parse. -/
def invalidate (s : Session) : Outcome Unit := s.run Outline.invalidate

end Session

/-- Why a text was not parsed by a new session. -/
inductive ParseAllError where
  | grammar (fault : GrammarFault)
  | failure (failure : Failure)

/-- The constructs of a text, found by a new session. -/
def parseAll (settings : Settings) (text : Text) : Except ParseAllError (List Construct) :=
  match Session.new settings with
  | .error fault => .error (.grammar fault)
  | .ok s => (s.parseAll text).result.mapError .failure

end Outline
