import Outline.Text
import Outline.Value

/-!
# Lexemes

The smallest pieces of a text that a grammar speaks of: a kind and a stretch of text.

* `Kind`: a kind is its name; `Kind.builtin` lists the names that the lexer's own rules use;
* `Lexeme`, `Lexeme.text`, `Lexeme.value`: a lexeme, its text, and what it contributes to the values
  that an action collects.
-/

namespace Outline

/-- A kind of lexeme, known by its name. -/
structure Kind where
  name : String
deriving DecidableEq, Repr, Inhabited

namespace Kind

/-- Letters, digits and the like in a row. -/
def symbol : Kind := ⟨"symbol"⟩

/-- A single mark. -/
def punctuation : Kind := ⟨"punctuation"⟩

/-- An opening bracket. -/
def openParen : Kind := ⟨"open-paren"⟩

/-- A closing bracket. -/
def closeParen : Kind := ⟨"close-paren"⟩

/-- A whole bracketed group. -/
def semanticList : Kind := ⟨"semantic-list"⟩

/-- A text in quotes. -/
def string : Kind := ⟨"string"⟩

/-- A comment. -/
def comment : Kind := ⟨"comment"⟩

/-- An escape character and the character after it. -/
def charquote : Kind := ⟨"charquote"⟩

/-- The end of a line. -/
def newline : Kind := ⟨"newline"⟩

/-- The kinds that the lexer's own rules produce. -/
def builtin : List Kind :=
  [symbol, punctuation, openParen, closeParen, semanticList, string, comment, charquote, newline]

/-- The kind is one of the lexer's own. -/
def isBuiltin (k : Kind) : Bool := builtin.contains k

end Kind

/-- A kind and the offsets of a stretch of text. -/
structure Lexeme where
  kind : Kind
  start : Int
  stop : Int
deriving DecidableEq, Repr, Inhabited

namespace Lexeme

/-- The characters of a lexeme. -/
def text (l : Lexeme) (source : Text) : List Char := source.slice l.start l.stop

/-- What a lexeme contributes to the values of a match: groups and comments their stretch, others
their text. -/
def value (l : Lexeme) (source : Text) : Value :=
  if l.kind = .semanticList ∨ l.kind = .comment then .span l.start l.stop
  else .str (String.ofList (l.text source))

end Lexeme

end Outline
