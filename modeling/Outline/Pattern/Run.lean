import Outline.Pattern.Regex
import Outline.Text

/-!
# Running a regular expression

An expression is tried at a place of a text, and what has to follow is a function of the place where
it ends. Choices are tried in order, and the first that lets the rest succeed is taken.

* `Subject`: a text read as if it ended at an offset, `Subject.meets`: the anchors;
* `backOff`, `creep`: repetitions of a single character;
* `rounds`: other repetitions. A round that starts where an optional round before it started is not
  tried, so a body that takes nothing ends the repetition;
* `Regex.run`: the place where a match ends, if there is one.
-/

namespace Outline

/-- A text, read as if it ended at an offset. -/
structure Subject where
  text : Text
  stop : Nat

namespace Subject

variable (s : Subject)

/-- The character at a place. -/
def charAt (i : Nat) : Option Char := if i < s.stop then s.text.chars[i]? else none

/-- The character at a place is of a word. -/
def wordAt (i : Nat) : Bool := (s.charAt i).any Unicode.isWordChar

/-- The character before a place is of a word. -/
def wordBefore (i : Nat) : Bool := 0 < i && s.wordAt (i - 1)

/-- The condition holds at the place. An empty text has neither word edges nor places that are
none. -/
def meets (i : Nat) : Anchor → Bool
  | .textStart => i == 0
  | .lineStart => i == 0 || s.charAt (i - 1) == some '\n'
  | .textEnd => i == s.stop
  | .lastLineEnd => i == s.stop || (i + 1 == s.stop && s.charAt i == some '\n')
  | .lineEnd => i == s.stop || s.charAt i == some '\n'
  | .wordEdge => 0 < s.stop && s.wordBefore i != s.wordAt i
  | .notWordEdge => 0 < s.stop && s.wordBefore i == s.wordAt i

/-- How many characters of the set follow in a row, up to `limit`. -/
def runOf (set : CharSet) : (limit : Nat) → (i : Nat) → (count : Nat) → Nat
  | 0, _, count => count
  | limit + 1, i, count =>
    if (s.charAt i).any set.holds then runOf set limit (i + 1) (count + 1) else count

end Subject

/-- What follows an expression, as a function of the place where it ends. -/
abbrev Rest : Type := Nat → Option Nat

/-- Try the rest behind `count` characters, then behind fewer, but not fewer than `min`. -/
def backOff (rest : Rest) (i min : Nat) : (count : Nat) → Option Nat
  | 0 => if min = 0 then rest i else none
  | count + 1 =>
    if count + 1 < min then none
    else match rest (i + (count + 1)) with
      | some e => some e
      | none => backOff rest i min count

/-- Try the rest, then take one more of at most `count` characters. -/
def creep (rest : Rest) : (count : Nat) → (i : Nat) → Option Nat
  | 0, i => rest i
  | count + 1, i =>
    match rest i with
    | some e => some e
    | none => creep rest count (i + 1)

/-- A repetition of which `count` rounds are done. `last` is where the latest optional round
started. -/
def rounds (greedy : Bool) (min : Nat) (max : Option Nat) (body : Nat → Rest → Option Nat)
    (rest : Rest) : (fuel : Nat) → (count : Nat) → (last : Option Nat) → Rest
  | 0, _, _, _ => none
  | fuel + 1, count, last, i =>
    if count < min then
      body i (rounds greedy min max body rest fuel (count + 1) last)
    else
      let again := fun (_ : Unit) =>
        if max.all (count < ·) && last != some i then
          body i (rounds greedy min max body rest fuel (count + 1) (some i))
        else none
      if greedy then
        match again () with
        | some e => some e
        | none => rest i
      else
        match rest i with
        | some e => some e
        | none => again ()

namespace Regex

/-- The bound on the rounds from a place: the required ones, and one for every place to start. -/
def roundsBound (s : Subject) (min i : Nat) : Nat := min + (s.stop - i) + 2

/-- Where the expression and the rest end, tried at a place. -/
def run (s : Subject) : Regex → Nat → Rest → Option Nat
  | empty, i, rest => rest i
  | one set, i, rest => if (s.charAt i).any set.holds then rest (i + 1) else none
  | anchor a, i, rest => if s.meets i a then rest i else none
  | seq a b, i, rest => run s a i fun j => run s b j rest
  | either a b, i, rest =>
    match run s a i rest with
    | some e => some e
    | none => run s b i rest
  | group a, i, rest => run s a i rest
  | atomic a, i, rest => (run s a i some).bind rest
  | ahead negated a, i, rest =>
    if (run s a i some).isSome != negated then rest i else none
  | behind negated a, i, rest =>
    if (decide (a.minWidth ≤ i) && (run s a (i - a.minWidth) some).isSome) != negated then rest i
    else none
  | repeated appetite min max (one set), i, rest =>
    let count := s.runOf set (max.getD (s.stop - i)) i 0
    match appetite with
    | .greedy => backOff rest i min count
    | .lazy => if count < min then none else creep rest (count - min) (i + min)
    | .possessive => if count < min then none else rest (i + count)
  | repeated appetite min max a, i, rest =>
    match appetite with
    | .greedy => rounds true min max (run s a) rest (roundsBound s min i) 0 none i
    | .lazy => rounds false min max (run s a) rest (roundsBound s min i) 0 none i
    | .possessive =>
      let once : Nat → Rest → Option Nat := fun j next => (run s a j some).bind next
      (rounds true min max once some (roundsBound s min i) 0 none i).bind rest

end Regex

end Outline
