import Outline.Unicode.Printable

/-!
# Quoted text

Text shown between quotes, on one line and in printable characters: the quote, the backslash, line
ends and tabs are escaped by a letter, other unprintable characters by their code point.

* `Quoted.quoteFor`: the quote is `'`, unless the text holds one and no `"`;
* `Quoted.encode`: the quoted text; `quoted` is the same for strings.
-/

namespace Outline

namespace Quoted

/-- The hexadecimal digits of a code point, filled up with zeros to a width. -/
def hex (width n : Nat) : List Char :=
  let digits := Nat.toDigits 16 n
  List.replicate (width - digits.length) '0' ++ digits

/-- A code point written in two, four or eight hexadecimal digits. -/
def codePoint (n : Nat) : List Char :=
  if n < 0x100 then '\\' :: 'x' :: hex 2 n
  else if n < 0x10000 then '\\' :: 'u' :: hex 4 n
  else '\\' :: 'U' :: hex 8 n

/-- A character inside quotes. -/
def encodeChar (quote c : Char) : List Char :=
  if c = quote || c = '\\' then ['\\', c]
  else if c = '\n' then ['\\', 'n']
  else if c = '\r' then ['\\', 'r']
  else if c = '\t' then ['\\', 't']
  else if Unicode.isPrintable c then [c]
  else codePoint c.toNat

/-- The quote that a text is put in. -/
def quoteFor (cs : List Char) : Char :=
  if cs.contains '\'' && !cs.contains '"' then '"' else '\''

/-- A text between quotes. -/
def encode (cs : List Char) : List Char :=
  let quote := quoteFor cs
  quote :: cs.flatMap (encodeChar quote) ++ [quote]

end Quoted

/-- Characters shown between quotes. -/
def quotedChars (cs : List Char) : String := String.ofList (Quoted.encode cs)

/-- A string shown between quotes. -/
def quoted (s : String) : String := quotedChars s.toList

end Outline
