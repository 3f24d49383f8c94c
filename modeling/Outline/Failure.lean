import Outline.Construct
import Outline.Lexer.Fault
import Outline.Span

/-!
# Failures

Every way in which parsing ends without a result.

* `ParseFault`: what a required match lacks;
* `Failure`, `Failure.message`: the causes, and what is said about each.
-/

namespace Outline

/-- What a required match lacks. -/
inductive ParseFault where
  /-- No alternative of the rule matched. -/
  | expected
  /-- The match took no lexeme. -/
  | idle
deriving DecidableEq, Repr

/-- What is said about a required match of a rule. -/
def ParseFault.explain (rule : String) : ParseFault → String
  | expected => s!"Expected {rule}"
  | idle => s!"{rule} matched without consuming any input"

/-- Why parsing ended without a result. -/
inductive Failure where
  | lex (error : LexError)
  | parse (text : Text) (offset : Int) (rule : String) (fault : ParseFault)
  /-- A value was to be a construct. -/
  | malformed (source : String) (value : Value) (defect : Defect)
  | undefinedRule (name : String)
  /-- A rule was entered again before anything was read. -/
  | leftRecursion (name : String)
  | nestingLimit (rule : String) (limit : Int) (offset : Int)
  | aborted (steps : Nat)
  | access (fault : AccessFault)
  | span (fault : SpanFault)
  /-- A span was to be expanded outside of any parse. -/
  | noText
  | notCallable (type : String)
  /-- An action or a hook gave up. -/
  | raised (message : String)
  | stackOverflow
deriving Inhabited

/-- What is said about a failure. -/
def Failure.message : Failure → String
  | lex error => error.message
  | parse text offset rule fault => text.pointOut offset (fault.explain rule)
  | malformed source value defect => s!"{source} returned {value.render}; {defect.message}"
  | undefinedRule name => name
  | leftRecursion name => name
  | nestingLimit rule limit offset =>
    s!"Nesting limit of {limit} exceeded matching {quoted rule} at offset {offset}"
  | aborted steps => s!"Parse aborted after {steps} steps"
  | access fault => fault.message
  | span fault => fault.message
  | noText => "No parse is in progress: the text to expand must be given"
  | notCallable type => s!"'{type}' object is not callable"
  | raised message => message
  | stackOverflow => "maximum recursion depth exceeded"

end Outline
