import Outline.Lexer.Alphabet
import Outline.Lexer.Fault

/-!
# Where comments, strings and groups end

Each function reads on from the opening of a construct and gives the offset behind it. The characters
are those from `i` on, up to `stop` or the end of the text, whichever is first: where they end before
`stop`, a reader that needs one more has run off the text.

* `commentEnd`, `stringEnd`;
* `groupEnd`: the end of a bracketed group. The closers that are waited for are a stack of which the
  innermost is `closer`. Inside a group, escapes come first, then brackets, strings and comments.
-/

namespace Outline

/-- The offset at which the marks stand first. -/
def findMark (mark : List Char) : (i : Nat) → List Char → Option Nat
  | i, [] => if mark.isEmpty then some i else none
  | i, c :: cs => if mark.isPrefixOf (c :: cs) then some i else findMark mark (i + 1) cs

/-- The end of a comment that starts at `opening`; `cs` are the characters from there. -/
def commentEnd (comment : Comment) (stop opening : Nat) (cs : List Char) : Except Halt Nat :=
  let inner := comment.opener.length
  match findMark comment.closer (opening + inner) (cs.drop inner) with
  | some i => .ok (if comment.isLine then i else i + comment.closer.length)
  | none =>
    if comment.isLine then .ok stop
    else .error (.fault opening (.unterminatedComment comment.closer))

/-- The end of the characters is reached at `i`, in a construct that does not end there. -/
def ranOut (stop i opening : Nat) (fault : LexFault) : Except Halt Nat :=
  if i < stop then .error .beyondText else .error (.fault opening fault)

/-- The end of a string that starts at `opening`; `i` is behind its quote. -/
def stringEnd (a : Alphabet) (stop opening : Nat) (quote : Char) :
    (i : Nat) → List Char → Except Halt Nat
  | i, [] => ranOut stop i opening (.unterminatedString quote)
  | i, c :: cs =>
    if a.escapes.contains c then
      match cs with
      | [] => ranOut stop (i + 2) opening (.unterminatedString quote)
      | _ :: rest => stringEnd a stop opening quote (i + 2) rest
    else if c = quote then .ok (i + 1)
    else stringEnd a stop opening quote (i + 1) cs

/-- The end of a group that starts at `opening` with `opener`. The next `skip` characters belong to
something that has been read already. -/
def groupEnd (a : Alphabet) (stop opening : Nat) (opener : Char) :
    (skip : Nat) → (closer : List Char) → (outer : List (List Char)) → (i : Nat) → List Char →
      Except Halt Nat
  | skip, _, _, i, [] => ranOut stop (i + skip) opening (.unbalanced opener)
  | skip + 1, closer, outer, i, _ :: cs => groupEnd a stop opening opener skip closer outer (i + 1) cs
  | 0, closer, outer, i, c :: cs =>
    if a.escapes.contains c then groupEnd a stop opening opener 1 closer outer (i + 1) cs
    else match a.closerOf? c with
      | some inner => groupEnd a stop opening opener 0 inner (closer :: outer) (i + 1) cs
      | none =>
        if a.isCloser c then
          if [c] = closer then
            match outer with
            | [] => .ok (i + 1)
            | next :: rest => groupEnd a stop opening opener 0 next rest (i + 1) cs
          else .error (.fault i (.mismatched c closer))
        else if a.quotes.contains c then
          match stringEnd a stop i c (i + 1) cs with
          | .error h => .error h
          | .ok j => groupEnd a stop opening opener (j - i - 1) closer outer (i + 1) cs
        else match a.commentAt (c :: cs) with
          | some comment =>
            match commentEnd comment stop i (c :: cs) with
            | .error h => .error h
            | .ok j => groupEnd a stop opening opener (j - i - 1) closer outer (i + 1) cs
          | none => groupEnd a stop opening opener 0 closer outer (i + 1) cs

end Outline
