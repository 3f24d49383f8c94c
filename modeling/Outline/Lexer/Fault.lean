import Outline.Text.Position
import Outline.Text.Quoted

/-!
# Faults of texts

Why a text cannot be cut into lexemes.

* `LexFault`, `LexFault.message`: what is wrong;
* `Halt`: where cutting stops early, for a fault or because the text is shorter than asked for;
* `LexError`, `LexError.message`: the same with the text, or a stretch that the text does not have.
-/

namespace Outline

/-- What is wrong with a text. -/
inductive LexFault where
  | unrecognised (c : Char)
  | unterminatedComment (closer : List Char)
  | unterminatedString (quote : Char)
  | mismatched (found : Char) (expected : List Char)
  | unbalanced (opener : Char)
deriving DecidableEq, Repr

/-- What is said about a fault. -/
def LexFault.message : LexFault → String
  | unrecognised c => s!"Unrecognised character {quotedChars [c]}"
  | unterminatedComment closer => s!"Unterminated comment (expected {quotedChars closer})"
  | unterminatedString quote => s!"Unterminated string (expected {quotedChars [quote]})"
  | mismatched found expected =>
    s!"Mismatched {quotedChars [found]} (expected {quotedChars expected})"
  | unbalanced opener => s!"Unbalanced {quotedChars [opener]}"

/-- Why cutting stops early. -/
inductive Halt where
  | fault (offset : Nat) (fault : LexFault)
  /-- A character behind the end of the text is needed. -/
  | beyondText
deriving DecidableEq, Repr

/-- Why there are no lexemes. -/
inductive LexError where
  | badRange (start stop : Int) (length : Nat)
  | beyondText
  | fault (text : Text) (offset : Nat) (fault : LexFault)
deriving DecidableEq

namespace LexError

/-- A halt as an error about a text. -/
def ofHalt (text : Text) : Halt → LexError
  | .fault offset f => fault text offset f
  | .beyondText => beyondText

/-- What is said about an error. -/
def message : LexError → String
  | badRange start stop length => s!"Invalid range ({start}, {stop}) for text of length {length}"
  | beyondText => "string index out of range"
  | fault text offset f => text.pointOut offset f.message

end LexError

end Outline
