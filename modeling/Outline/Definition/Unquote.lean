/-!
# Taking off quotes

A pattern in a grammar source stands between quotes. A backslash with one of some characters writes a
character that is hard to write otherwise; any other backslash is kept for the pattern itself.

* `Unquote.escaped`: what a backslash and a character write;
* `Unquote.unescape`, `unquote`: the text inside the quotes.
-/

namespace Outline

namespace Unquote

/-- The character that a backslash and the given one write. -/
def escaped : Char → Option Char
  | '\\' => some '\\'
  | '\'' => some '\''
  | '"' => some '"'
  | 'a' => some '\x07'
  | 'b' => some '\x08'
  | 'f' => some '\x0c'
  | 'n' => some '\n'
  | 'r' => some '\r'
  | 't' => some '\t'
  | 'v' => some '\x0b'
  | _ => none

/-- A backslash and a character, read as one character if there is such. -/
def pair (c : Char) : List Char :=
  match escaped c with
  | some d => [d]
  | none => ['\\', c]

/-- Characters with the escapes among them read. -/
def unescape : List Char → List Char
  | '\\' :: c :: cs => pair c ++ unescape cs
  | c :: cs => c :: unescape cs
  | [] => []

end Unquote

/-- The text between the first and the last character, with its escapes read. -/
def unquote (cs : List Char) : List Char := Unquote.unescape (cs.drop 1).dropLast

end Outline
