import Outline.Unicode.Range

/-!
# Blank characters

* `isBlank`: the characters that show as empty space or end a line;
* `isBlank_of_isWhitespace`: the ASCII blanks are among them.
-/

set_option maxRecDepth 4000

namespace Outline.Unicode

/-- The blank characters. -/
def blankRanges : List Range :=
  [(9, 13), (28, 32), (133, 133), (160, 160), (5760, 5760), (8192, 8202), (8232, 8233),
   (8239, 8239), (8287, 8287), (12288, 12288)]

/-- A character that shows as empty space or ends a line. -/
def isBlank (c : Char) : Bool :=
  Range.within c.toNat blankRanges

theorem isBlank_of_isWhitespace {c : Char} (h : c.isWhitespace = true) : isBlank c = true := by
  simp only [Char.isWhitespace, Bool.or_eq_true, decide_eq_true_eq] at h
  rcases h with ((rfl | rfl) | rfl) | rfl <;> rfl

end Outline.Unicode
