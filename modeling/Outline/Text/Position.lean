import Outline.Text
import Outline.Unicode.Blank

/-!
# Lines and columns

Where an offset lies in a text, counted in lines and columns from one, and a message that shows it.

* `Position`, `Text.position`: the line and column of an offset;
* `Text.lines`, `Text.line`: the lines of a text, which newlines part;
* `Text.pointOut`: a message that quotes the line and points at the column;
* `lines_ne_nil`: there is always a first line.
-/

namespace Outline

/-- A line and a column, both counted from one. -/
structure Position where
  line : Nat
  column : Nat
deriving DecidableEq, Repr

/-- The position behind a character that stands at `p`. -/
def Position.next (p : Position) (c : Char) : Position :=
  if c = '\n' then ⟨p.line + 1, 1⟩ else ⟨p.line, p.column + 1⟩

/-- Drop the longest end of which every character satisfies `p`. -/
def trimEnd (p : Char → Bool) (cs : List Char) : List Char :=
  (cs.reverse.dropWhile p).reverse

namespace Text

/-- The position of an offset; one outside the text has the position of the nearer end. -/
def position (t : Text) (offset : Int) : Position :=
  (t.range 0 (min offset.toNat t.length)).foldl Position.next ⟨1, 1⟩

/-- Put a character in front of the first line. -/
def consLine (c : Char) : List (List Char) → List (List Char)
  | [] => [[c]]
  | l :: ls => (c :: l) :: ls

/-- Characters parted at the newlines. -/
def splitLines : List Char → List (List Char)
  | [] => [[]]
  | c :: cs => if c = '\n' then [] :: splitLines cs else consLine c (splitLines cs)

/-- The lines of a text, without the newlines that part them. -/
def lines (t : Text) : List (List Char) := splitLines t.toList

/-- A line by its number, without carriage returns at its end; empty if there is none. -/
def line (t : Text) (number : Int) : List Char :=
  if number < 1 then [] else trimEnd (· == '\r') (t.lines.getD (number.toNat - 1) [])

theorem splitLines_ne_nil : ∀ cs : List Char, splitLines cs ≠ []
  | [] => List.cons_ne_nil _ _
  | c :: cs => by
    rw [splitLines]
    split
    · exact List.cons_ne_nil _ _
    · cases h : splitLines cs <;> exact List.cons_ne_nil _ _

theorem lines_ne_nil (t : Text) : t.lines ≠ [] := splitLines_ne_nil _

/-! ## Pointing at an offset -/

/-- A character that ends a line when text is laid out. -/
def isLineBreak (c : Char) : Bool :=
  let n := c.toNat
  (10 ≤ n && n ≤ 13) || (28 ≤ n && n ≤ 30) || n == 0x85 || n == 0x2028 || n == 0x2029

/-- Text cut behind every line break; a carriage return and the newline after it are one. -/
def cutLines : List Char → List (List Char)
  | [] => []
  | '\r' :: '\n' :: cs => ['\r', '\n'] :: cutLines cs
  | c :: cs => if isLineBreak c then [c] :: cutLines cs else consLine c (cutLines cs)

/-- Move every line that is not blank four columns to the right. -/
def indent (cs : List Char) : List Char :=
  (cutLines cs).flatMap fun l => if l.all Unicode.isBlank then l else List.replicate 4 ' ' ++ l

/-- A caret in a column. -/
def caret (column : Nat) : List Char := List.replicate (column - 1) ' ' ++ ['^']

/-- A message about an offset: its position, its line with a caret below the column, and what
there is to say. -/
def pointOut (t : Text) (offset : Int) (message : String) : String :=
  let p := t.position offset
  let shown := trimEnd Unicode.isBlank (t.line p.line)
  s!"At line {p.line} column {p.column}:\n" ++
    String.ofList (indent (shown ++ '\n' :: caret p.column)) ++ "\n" ++ message

end Text

end Outline
