import Outline.Engine.Rule

/-!
# Runs

Parsing whole texts and spans: a rule is matched again and again until the lexemes are used up.

* `Engine.lex`, `Engine.lexSpan`: the lexemes of a stretch of text and of a span;
* `Engine.withMatcher`: expansions share the matcher of the parse in progress; outside of a parse each
  has its own;
* `Matching.guarded`: running out of room counts as nesting too deep;
* `Matching.repeatedly`: match again and again. Each round takes a lexeme at least, so the number of
  lexemes left bounds the rounds;
* `Matching.parseStream`, `Matching.expand`, `Matching.expandFull`, `Matching.parseAll`;
* `Level.above`, `level`: the next level, and the level with a given room.
-/

namespace Outline

/-! ## Lexemes -/

namespace Engine

/-- The lexemes of a stretch of text. -/
def lex (text : Text) (start : Int) (stop : Option Int) (depth : Option Int) : Engine Cursor := do
  emit .lexing
  let c ← settings
  let cursor ← ofExcept ((c.lexer.lex text start stop depth).mapError .lex)
  emit (.lexed cursor.size cursor.start cursor.stop depth)
  return cursor

/-- The lexemes of a span, without the brackets around it if only the interior is wanted. -/
def lexSpan (text : Text) (span : Value) (depth : Option Int) (interior : Bool) : Engine Cursor := do
  let (a, b) ← ofExcept ((Span.parts span).mapError .span)
  let (a, b) ← if interior then ofExcept ((Span.interior a b).mapError .span) else pure (a, b)
  match Span.offsets a b with
  | .ok (start, stop) => lex text start stop depth
  | .error fault => do
    emit .lexing
    fail (.span fault)

/-- The text that an expansion is about: the one it gives, or that of the parse in progress. -/
def textOf (e : Expansion) : Engine Text := do
  match e.text, (← state).text with
  | some text, _ => return text
  | none, some text => return text
  | none, none => fail .noText

/-- Work with the matcher of the parse in progress, or with a new one if there is none. -/
def withMatcher {α : Type} (m : Engine α) : Engine α := do
  if (← state).text.isSome then m
  else within (fun s => { s with run := {} }) (fun before s => { s with run := before.run }) m

end Engine

/-! ## Matching again and again -/

/-- A way of matching rules. -/
abbrev Matching : Type := Cursor → (rule : String) → Engine (Option Match)

namespace Matching

variable (rule : Matching)

/-- Match a rule; running out of room counts as nesting too deep. -/
def guarded : Matching := fun cursor name => do
  match ← (rule cursor name).attempt with
  | .ok m => return m
  | .error .stackOverflow =>
    let s ← Engine.state
    let offset ← Engine.access cursor.offset
    .fail (.nestingLimit name s.run.depth offset)
  | .error e => .fail e

/-- How a rule is matched again and again. -/
structure Rounds where
  name : String
  /-- Comments between matches are passed over. -/
  skipComments : Bool := true
  /-- What a construct contributes to the result. -/
  accept : Construct → Engine (List Construct) := fun c => pure [c]
  /-- Progress is reported. -/
  reports : Bool := false

/-- What a match contributes to the result. -/
def Rounds.contribution (r : Rounds) (m : Match) : Engine (List Construct) := do
  match m.construct with
  | none =>
    Engine.emit (.dropped r.name)
    return []
  | some c => r.accept c

/-- Match from a cursor on until no lexeme is left, for at most `fuel` rounds. -/
def rounds (r : Rounds) :
    (fuel : Nat) → Cursor → (found : Array Construct) → Engine (Array Construct)
  | 0, _, found => return found
  | fuel + 1, cursor, found => do
    match ← Engine.access cursor.peek with
    | none => return found
    | some l =>
      if r.skipComments ∧ l.kind = .comment then rounds r fuel cursor.advance found
      else
        match ← rule.guarded cursor r.name with
        | none => .fail (.parse cursor.text l.start r.name .expected)
        | some m =>
          if m.cursor.index = cursor.index then .fail (.parse cursor.text l.start r.name .idle)
          else
            let more ← r.contribution m
            if r.reports then Engine.emit (.progress (100 * m.cursor.index / m.cursor.size))
            rounds r fuel m.cursor (found ++ more)

/-- Match from a cursor on until no lexeme is left. -/
def repeatedly (r : Rounds) (cursor : Cursor) : Engine (List Construct) :=
  .withMatcher do return (← rule.rounds r cursor.unread cursor #[]).toList

/-! ## Requests -/

/-- Match a rule once. -/
def parseStream (cursor : Cursor) (name : String) : Engine (Option Match) :=
  .withMatcher (rule.guarded cursor name)

/-- Match a rule once at the start of a span. -/
def expand (e : Expansion) : Engine (Option Construct) := do
  let text ← Engine.textOf e
  let cursor ← Engine.lexSpan text e.span e.depth e.interior
  let found := (← rule.parseStream cursor e.rule).bind (·.construct)
  Engine.emit (.expanded e.rule e.span found)
  return found

/-- Match a rule until a span is used up. -/
def expandFull (e : Expansion) : Engine (List Construct) := do
  let text ← Engine.textOf e
  let cursor ← Engine.lexSpan text e.span e.depth e.interior
  let found ← rule.repeatedly { name := e.rule } cursor
  Engine.emit (.expandedFull found.length e.rule e.span)
  return found

/-- Every value as a construct within a text. -/
def hooked (textEnd : Nat) : List Value → Engine (List Construct)
  | [] => return []
  | v :: vs => do
    match Construct.ofValue (some textEnd) v with
    | .ok c => return c :: (← hooked textEnd vs)
    | .error defect => .fail (.malformed "expand hook" v defect)

/-- What a construct of a whole text is replaced by. -/
def replace (below : Level) (textEnd : Nat) (c : Construct) : Engine (List Construct) := do
  match (← Engine.settings).hook with
  | none => return [c]
  | some hook =>
    let v ← (hook c).perform below
    hooked textEnd (← Engine.access v.elements)

/-- Parse a text that is not in the cache. The parse is in progress until it ends either way, and its
result is remembered when it ends well. -/
def parseText (below : Level) (text : Text) (skipComments : Bool) : Engine (List Construct) := do
  let c ← Engine.settings
  let found ← Engine.within
    (fun s => { s with cache := none, text := some text, run := {} })
    (fun before s => { s with text := none, run := before.run })
    (do
      let cursor ← Engine.lex text 0 none c.depth
      rule.repeatedly
        { name := c.grammar.start, skipComments, accept := replace below text.length, reports := true }
        cursor)
  Engine.modify fun s => { s with cache := some ⟨found, text.length, skipComments⟩ }
  Engine.emit (.parsed found.length)
  return found

/-- The constructs of a text, from the cache if it holds them. -/
def parseAll (below : Level) (text : Text) (skipComments : Option Bool) :
    Engine (List Construct) := do
  let c ← Engine.settings
  let skipComments := skipComments.getD c.skipComments
  match (← Engine.state).cache with
  | some cache =>
    if cache.isValidFor text skipComments then
      Engine.emit (.reused cache.constructs.length)
      return cache.constructs
    else rule.parseText below text skipComments
  | none => rule.parseText below text skipComments

end Matching

/-! ## Levels -/

/-- The level above another. -/
def Level.above (below : Level) : Level :=
  let rule : Matching := below.matchRule
  { match? := rule
    expand := rule.expand
    expandFull := rule.expandFull
    parseAll := rule.parseAll below }

/-- The level with room for a number of rules nested in each other. -/
def level : (room : Nat) → Level
  | 0 => .bottom
  | room + 1 => (level room).above

/-- The room that is there if nothing else is asked for. -/
def defaultRoom : Nat := 2000

end Outline
