import Outline.Lexeme.Cursor
import Outline.Lexer.Extent
import Outline.Pattern

/-!
# Lexers

A lexer cuts a stretch of text into lexemes, from left to right. At each place the first of these
applies: blanks, comments, extensions in order, symbols, escapes, opening brackets, closing brackets,
strings, punctuation. Brackets nested deeper than a limit are not looked into: such a group is one
lexeme.

* `Extension`, `Lexer`: a rule of the caller, and all the rules;
* `Lexer.step`: what is read at one place;
* `Lexer.scan`: the lexemes up to the end of the stretch, or to the place where cutting halts;
* `Lexer.lex`: all the lexemes of a stretch that the text has.
-/

namespace Outline

/-- A rule of the caller: what its pattern matches is handed over with the text and the offsets of
the match. Without a handler, or where the handler gives nothing, the match is passed over. -/
structure Extension where
  pattern : Pattern
  handler : Option (Text → (start stop : Nat) → Option Lexeme) := none

namespace Extension

/-- The extension that passes over what the pattern matches. -/
def skip (pattern : Pattern) : Extension := { pattern }

/-- The extension that makes what the pattern matches a lexeme of a kind. -/
def token (pattern : Pattern) (kind : Kind) : Extension :=
  { pattern, handler := some fun _ start stop => some ⟨kind, start, stop⟩ }

/-- What the extension makes of the text at an offset: a lexeme or nothing, and the offset to go on
from. It has to match at least one character. -/
def tryAt (x : Extension) (text : Text) (i stop : Nat) : Option (Option Lexeme × Nat) :=
  match x.pattern.matchAt text i stop with
  | none => none
  | some e =>
    if e ≤ i then none
    else
      let made := x.handler.bind fun handler => handler text i e
      some (made, max e ((made.map (·.stop.toNat)).getD 0))

end Extension

/-- The rules for cutting texts. -/
structure Lexer where
  alphabet : Alphabet := .cLike
  extensions : List Extension := []
  /-- Symbols with a kind of their own. -/
  keywords : List (String × Kind) := []
  /-- Comments make no lexeme. -/
  ignoreComments : Bool := false
  /-- Line ends make a lexeme. -/
  newlines : Bool := false

/-- What is read at a place: a lexeme or none, where to go on, and how deep in brackets that is. -/
structure LexStep where
  lexeme : Option Lexeme
  resume : Nat
  depth : Nat
deriving DecidableEq

/-- Lexemes in order, and why there are no more if cutting halts. -/
structure Scan where
  lexemes : List Lexeme
  halt : Option Halt
deriving DecidableEq

/-- Put a lexeme in front, if there is one. -/
def Scan.cons (lexeme : Option Lexeme) (s : Scan) : Scan :=
  match lexeme with
  | some l => { s with lexemes := l :: s.lexemes }
  | none => s

namespace Lexer

/-- The kind of a symbol. -/
def symbolKind (x : Lexer) (cs : List Char) : Kind :=
  ((x.keywords.find? (·.1 == String.ofList cs)).map (·.2)).getD .symbol

/-- What the first extension that applies makes of the text at an offset. -/
def extend? (x : Lexer) (text : Text) (i stop : Nat) : Option (Option Lexeme × Nat) :=
  x.extensions.findSome? (·.tryAt text i stop)

/-- The step that takes the characters up to `e` as a lexeme. -/
def take (kind : Kind) (i e depth : Nat) : Except Halt LexStep := .ok ⟨some ⟨kind, i, e⟩, e, depth⟩

/-- Read a symbol that starts at `i`, and of which `cs` are the characters behind the first. -/
def symbolStep (x : Lexer) (stop depth i : Nat) (c : Char) (cs : List Char) : Except Halt LexStep :=
  let more := cs.takeWhile x.alphabet.isSymbolChar
  let e := i + 1 + more.length
  if (cs.dropWhile x.alphabet.isSymbolChar).isEmpty ∧ e < stop then .error .beyondText
  else take (x.symbolKind (c :: more)) i e depth

/-- Read an opening bracket: the bracket where it is not nested too deep, the group otherwise. -/
def openStep (x : Lexer) (stop : Nat) (limit : Option Int) (depth i : Nat) (c : Char)
    (closer : List Char) (cs : List Char) : Except Halt LexStep :=
  if limit.all ((depth : Int) < ·) then take .openParen i (i + 1) (depth + 1)
  else do take .semanticList i (← groupEnd x.alphabet stop i c 0 closer [] (i + 1) cs) depth

/-- Read what stands at the offset `i`: the character `c` and `cs` behind it. -/
def step (x : Lexer) (text : Text) (stop : Nat) (limit : Option Int) (depth i : Nat) (c : Char)
    (cs : List Char) : Except Halt LexStep :=
  let a := x.alphabet
  if a.blanks.contains c then
    .ok ⟨if c = '\n' ∧ x.newlines then some ⟨.newline, i, i + 1⟩ else none, i + 1, depth⟩
  else match a.commentAt (c :: cs) with
    | some comment => do
      let e ← commentEnd comment stop i (c :: cs)
      return ⟨if x.ignoreComments then none else some ⟨.comment, i, e⟩, e, depth⟩
    | none => match x.extend? text i stop with
      | some (lexeme, resume) => .ok ⟨lexeme, resume, depth⟩
      | none =>
        if a.isSymbolChar c then x.symbolStep stop depth i c cs
        else if a.escapes.contains c then take .charquote i (min (i + 2) stop) depth
        else match a.closerOf? c with
          | some closer => x.openStep stop limit depth i c closer cs
          | none =>
            if a.isCloser c then take .closeParen i (i + 1) (depth - 1)
            else if a.quotes.contains c then do
              take .string i (← stringEnd a stop i c (i + 1) cs) depth
            else if a.punctuation.contains c then take .punctuation i (i + 1) depth
            else .error (.fault i (.unrecognised c))

/-- The lexemes from an offset on. The next `skip` characters belong to what has been read. -/
def scanFrom (x : Lexer) (text : Text) (stop : Nat) (limit : Option Int) :
    (skip depth i : Nat) → List Char → Scan
  | skip, _, i, [] => ⟨[], if i + skip < stop then some .beyondText else none⟩
  | skip + 1, depth, i, _ :: cs => x.scanFrom text stop limit skip depth (i + 1) cs
  | 0, depth, i, c :: cs =>
    match x.step text stop limit depth i c cs with
    | .error halt => ⟨[], some halt⟩
    | .ok s => (x.scanFrom text stop limit (s.resume - i - 1) s.depth (i + 1) cs).cons s.lexeme

/-- The lexemes between two offsets. The text may be shorter than `stop`. -/
def scan (x : Lexer) (text : Text) (start stop : Nat) (limit : Option Int := some 0) : Scan :=
  x.scanFrom text stop limit 0 0 start (text.range start stop)

/-- All lexemes between two offsets, which have to be in order and in the text. -/
def lex (x : Lexer) (text : Text) (start : Int := 0) (stop : Option Int := none)
    (limit : Option Int := some 0) : Except LexError Cursor :=
  let stop := stop.getD text.length
  if 0 ≤ start ∧ start ≤ stop ∧ stop ≤ text.length then
    let s := x.scan text start.toNat stop.toNat limit
    match s.halt with
    | some halt => .error (.ofHalt text halt)
    | none => .ok ⟨text, s.lexemes.toArray, start.toNat, stop.toNat, 0⟩
  else .error (.badRange start stop text.length)

end Lexer

end Outline
