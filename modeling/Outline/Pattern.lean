import Outline.Pattern.Reader
import Outline.Pattern.Run

/-!
# Patterns

A pattern is a regular expression with the text that writes it.

* `Pattern.ofText`: the pattern that a text writes;
* `Pattern.matchesAll`: the pattern matches a text from end to end;
* `Pattern.matchAt`: where a match at an offset ends, in a text read as if it ended at another. The
  text before the offset is seen by anchors and by what looks back;
* `Pattern.escape`: a text written so that it stands for itself.
-/

namespace Outline

/-- A regular expression and the text that writes it. -/
structure Pattern where
  source : String
  regex : Regex
deriving DecidableEq

namespace Pattern

/-- The pattern that a text writes. -/
def ofText (source : String) : Except PatternError Pattern := do
  return ⟨source, ← readRegex (Text.ofString source)⟩

/-- The pattern matches the characters from the first to the last. -/
def matchesAll (p : Pattern) (cs : List Char) : Bool :=
  let text := Text.ofList cs
  (p.regex.run ⟨text, text.length⟩ 0 fun e => if e = text.length then some e else none).isSome

/-- The end of a match that starts at `offset`. -/
def matchAt (p : Pattern) (text : Text) (offset stop : Nat) : Option Nat :=
  p.regex.run ⟨text, min stop text.length⟩ offset some

/-- The characters that a pattern gives a meaning of their own. -/
def special : List Char := "\t\n\x0b\x0c\r #$&()*+-.?[\\]^\x7b|\x7d~".toList

/-- A text written so that it stands for itself. -/
def escape (text : String) : String :=
  String.ofList (text.toList.flatMap fun c => if special.contains c then ['\\', c] else [c])

end Pattern

end Outline
