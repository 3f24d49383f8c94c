import Outline.Unicode.Alphanumeric
import Outline.Unicode.Blank
import Outline.Unicode.Digit

/-!
# Regular expressions

The structure of a pattern, without regard to how it is written.

* `CharSet`: a set of characters, by ranges and categories, or all others;
* `Anchor`: a condition on the place alone;
* `Regex`: the expressions; `Regex.minWidth`, `Regex.maxWidth`: how many characters a match takes;
* `Regex.looksBackFixed`: whatever is looked back at has one width.
-/

namespace Outline

/-- A category of characters that patterns can name. -/
inductive Category where
  | digit
  | blank
  | word
deriving DecidableEq, Repr

/-- A character belongs to the category. -/
def Category.holds : Category → Char → Bool
  | digit, c => Unicode.isDigit c
  | blank, c => Unicode.isBlank c
  | word, c => Unicode.isWordChar c

/-- A part of a character set. -/
inductive CharRange where
  | between (lo hi : Nat)
  | category (cat : Category) (negated : Bool)
deriving DecidableEq, Repr

/-- A character belongs to the part. -/
def CharRange.holds : CharRange → Char → Bool
  | between lo hi, c => lo ≤ c.toNat && c.toNat ≤ hi
  | category cat negated, c => cat.holds c != negated

/-- A set of characters: those of some part or, if negated, all others. -/
structure CharSet where
  negated : Bool
  parts : List CharRange
deriving DecidableEq, Repr

namespace CharSet

/-- A character belongs to the set. -/
def holds (s : CharSet) (c : Char) : Bool := s.parts.any (·.holds c) != s.negated

/-- The set of a single character. -/
def single (c : Char) : CharSet := ⟨false, [.between c.toNat c.toNat]⟩

/-- Every character but the newline. -/
def anyInLine : CharSet := ⟨true, [.between 10 10]⟩

end CharSet

/-- A condition on a place in the text. -/
inductive Anchor where
  | textStart
  | lineStart
  | textEnd
  /-- The end of the text, or before the newline that ends it. -/
  | lastLineEnd
  | lineEnd
  /-- A word starts or ends here. -/
  | wordEdge
  | notWordEdge
deriving DecidableEq, Repr

/-- How a repetition chooses the number of rounds. -/
inductive Appetite where
  /-- As many as possible, fewer if the rest fails. -/
  | greedy
  /-- As few as possible, more if the rest fails. -/
  | lazy
  /-- As many as possible, each by its first match, whatever the rest does. -/
  | possessive
deriving DecidableEq, Repr

/-- A regular expression. -/
inductive Regex where
  | empty
  | one (set : CharSet)
  | anchor (anchor : Anchor)
  | seq (first second : Regex)
  | either (first second : Regex)
  | group (body : Regex)
  /-- Like a group, but its first match is its only one. -/
  | atomic (body : Regex)
  | repeated (appetite : Appetite) (min : Nat) (max : Option Nat) (body : Regex)
  | ahead (negated : Bool) (body : Regex)
  | behind (negated : Bool) (body : Regex)
deriving DecidableEq, Repr

namespace Regex

/-- One expression after the other. -/
def ofSeq : List Regex → Regex
  | [] => empty
  | [r] => r
  | r :: rs => seq r (ofSeq rs)

/-- The first of the expressions that leads to a match. -/
def ofEither : List Regex → Regex
  | [] => empty
  | [r] => r
  | r :: rs => either r (ofEither rs)

/-- The fewest characters of a match. -/
def minWidth : Regex → Nat
  | empty | anchor _ | ahead _ _ | behind _ _ => 0
  | one _ => 1
  | seq a b => a.minWidth + b.minWidth
  | either a b => min a.minWidth b.minWidth
  | group a | atomic a => a.minWidth
  | repeated _ min _ a => min * a.minWidth

/-- The most characters of a match, unless there is no bound. -/
def maxWidth : Regex → Option Nat
  | empty | anchor _ | ahead _ _ | behind _ _ => some 0
  | one _ => some 1
  | seq a b => do return (← a.maxWidth) + (← b.maxWidth)
  | either a b => do return max (← a.maxWidth) (← b.maxWidth)
  | group a | atomic a => a.maxWidth
  | repeated _ _ max a => if a.maxWidth = some 0 then some 0 else do return (← max) * (← a.maxWidth)

/-- All that is looked back at has one width, so that its start is known. -/
def looksBackFixed : Regex → Bool
  | empty | anchor _ | one _ => true
  | seq a b | either a b => a.looksBackFixed && b.looksBackFixed
  | group a | atomic a | repeated _ _ _ a | ahead _ a => a.looksBackFixed
  | behind _ a => decide (a.maxWidth = some a.minWidth) && a.looksBackFixed

end Regex

end Outline
