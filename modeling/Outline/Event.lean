import Outline.Grammar

/-!
# Events

What the parser reports while it works.

* `Event`: the things reported;
* `Channel`: which part of the parser reports; `Event.message`: the report in words, if it has any.
-/

namespace Outline

/-- A report of the parser. -/
inductive Event where
  /-- A stretch of text is about to be cut into lexemes. -/
  | lexing
  | lexed (count start stop : Nat) (depth : Option Int)
  | matched (rule : String) (number : Nat) (alternative : Alternative) (start stop : Int)
  | invalidated
  | reused (count : Nat)
  | parsed (count : Nat)
  | expanded (rule : String) (span : Value) (found : Option Construct)
  | expandedFull (count : Nat) (rule : String) (span : Value)
  /-- The action of the rule dropped what had matched. -/
  | dropped (rule : String)
  /-- How much of the text has been read. -/
  | progress (percent : Int)

/-- The parts of the parser that report in words. -/
inductive Channel where
  | lexer
  | matcher
  | session
deriving DecidableEq, Repr

namespace Event

/-- A report in words, and the part it comes from. -/
def message : Event → Option (Channel × String)
  | lexing | progress _ => none
  | lexed count start stop depth =>
    let depth := (depth.elim Value.none Value.int).render
    some (.lexer, s!"Lexed {count} tokens from offsets {start}-{stop} (depth {depth})")
  | matched rule number alternative start stop =>
    let shown := alternative.display
    some (.matcher, s!"{rule}: alternative {number} ({shown}) matched tokens {start}-{stop}")
  | invalidated => some (.session, "Parse cache invalidated")
  | reused count => some (.session, s!"Using cached parse ({count} tokens)")
  | parsed count => some (.session, s!"Parsed {count} toplevel tokens")
  | expanded rule span found =>
    let token := (found.elim Value.none Construct.toValue).render
    some (.session, s!"Expanded {quoted rule} in {span.display}: {token}")
  | expandedFull count rule span =>
    some (.session, s!"Expanded {count} {quoted rule} in {span.display}")
  | dropped rule => some (.session, s!"{rule} matched but was discarded by its action")

/-- The percentage that was reported, if it is a report of progress. -/
def percent? : Event → Option Int
  | progress percent => some percent
  | _ => none

/-- The report comes before a stretch of text is cut. -/
def isLexing : Event → Bool
  | lexing => true
  | _ => false

end Event

end Outline
