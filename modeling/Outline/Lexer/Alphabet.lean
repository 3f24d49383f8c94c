import Outline.Unicode.Alphanumeric

/-!
# Alphabets

What the characters of a language are for.

* `Bracket`, `Comment`: a pair of brackets, and the marks around a comment;
* `Alphabet`: the roles of characters; `Alphabet.cLike` and `Alphabet.lispLike` are two examples;
* `Alphabet.closerOf?`, `Alphabet.isCloser`: brackets. Of several pairs with the same opener the last
  counts, and only a pair of single characters is ever met in a text;
* `Alphabet.commentAt`: the comment that starts here, the longest opener first.
-/

namespace Outline

/-- A pair of brackets. -/
structure Bracket where
  opener : List Char
  closer : List Char
deriving DecidableEq, Repr

/-- The marks around a comment. One that is closed by a newline ends before it, or with the text. -/
structure Comment where
  opener : List Char
  closer : List Char
deriving DecidableEq, Repr

/-- A comment that takes the rest of its line. -/
def Comment.isLine (c : Comment) : Bool := c.closer == ['\n']

/-- The roles of the characters of a language. -/
structure Alphabet where
  /-- What symbols are made of besides letters and numbers. -/
  symbolChars : List Char := ['_']
  punctuation : List Char := "!#$%&*+,-./:;<=>?@^`|~".toList
  brackets : List Bracket := [⟨['('], [')']⟩, ⟨['['], [']']⟩, ⟨['\x7b'], ['\x7d']⟩]
  /-- What starts and ends a string. -/
  quotes : List Char := ['"', '\'']
  /-- What takes away the role of the next character. -/
  escapes : List Char := ['\\']
  comments : List Comment := [⟨['/', '*'], ['*', '/']⟩, ⟨['/', '/'], ['\n']⟩]
  /-- What separates lexemes. -/
  blanks : List Char := [' ', '\t', '\r', '\n', '\x0c', '\x0b']
deriving DecidableEq, Repr

namespace Alphabet

/-- The alphabet of a language like C. -/
def cLike : Alphabet := {}

/-- The alphabet of a language like Lisp. -/
def lispLike : Alphabet where
  symbolChars := "-_+*/<>=!?$%&:~^".toList
  punctuation := "'`,@#.".toList
  quotes := ['"']
  comments := [⟨[';'], ['\n']⟩]

/-- A character that symbols are made of. -/
def isSymbolChar (a : Alphabet) (c : Char) : Bool :=
  Unicode.isAlphanumeric c || a.symbolChars.contains c

/-! ## Brackets -/

/-- The pairs that count: those whose opener no later pair has. -/
def inForce : List Bracket → List Bracket
  | [] => []
  | b :: bs => if bs.any (·.opener == b.opener) then inForce bs else b :: inForce bs

/-- The closer that an opening bracket asks for. -/
def closerOf? (a : Alphabet) (c : Char) : Option (List Char) :=
  ((inForce a.brackets).find? (·.opener == [c])).map (·.closer)

/-- A closing bracket. -/
def isCloser (a : Alphabet) (c : Char) : Bool := (inForce a.brackets).any (·.closer == [c])

/-! ## Comments -/

/-- The first comment with the longest opener. -/
def longestOpener : List Comment → Option Comment
  | [] => none
  | c :: cs =>
    match longestOpener cs with
    | some d => if c.opener.length < d.opener.length then some d else some c
    | none => some c

/-- The comment that starts here: of those whose opener stands here, the one with the longest. -/
def commentAt (a : Alphabet) (cs : List Char) : Option Comment :=
  longestOpener (a.comments.filter (·.opener.isPrefixOf cs))

theorem longestOpener_mem : ∀ {cs : List Comment} {c : Comment}, longestOpener cs = some c → c ∈ cs
  | d :: ds, c, h => by
    rw [longestOpener] at h
    cases hr : longestOpener ds with
    | none => rw [hr] at h; cases h; exact List.mem_cons_self
    | some e =>
      rw [hr] at h
      simp only at h
      split at h <;> cases h
      · exact List.mem_cons_of_mem _ (longestOpener_mem hr)
      · exact List.mem_cons_self

theorem commentAt_mem {a : Alphabet} {cs : List Char} {c : Comment} (h : a.commentAt cs = some c) :
    c ∈ a.comments ∧ c.opener.isPrefixOf cs = true :=
  List.mem_filter.mp (longestOpener_mem h)

end Alphabet

end Outline
