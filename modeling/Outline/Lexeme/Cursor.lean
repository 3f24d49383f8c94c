import Outline.Lexeme
import Outline.Value.Bounds

/-!
# Cursors

A place in the row of lexemes that a stretch of text was cut into. Moving a cursor gives a new one, so
that a reader who keeps the old one can go back.

* `Cursor`, `Cursor.atEnd`, `Cursor.unread`;
* `Cursor.next`: the next lexeme, comments passed over or not, and the cursor behind it;
* `Cursor.peek`, `Cursor.advance`, `Cursor.remaining`, `Cursor.offset`;
* `next_cursor`: what `next` leaves alone.

An index below zero counts from the end of the row, so one that is too low has no lexeme.
-/

namespace Outline

/-- A place in a row of lexemes. -/
structure Cursor where
  /-- The text that the lexemes come from. -/
  text : Text
  lexemes : Array Lexeme
  /-- The stretch of text that was cut into the lexemes. -/
  start : Nat
  stop : Nat
  /-- The place of the next lexeme to be read. -/
  index : Int := 0
deriving DecidableEq, Inhabited

namespace Cursor

/-- The number of lexemes in the row. -/
def size (c : Cursor) : Nat := c.lexemes.size

/-- No lexeme is left to read. -/
def atEnd (c : Cursor) : Bool := decide ((c.size : Int) ≤ c.index)

/-- How many lexemes are left to read. -/
def unread (c : Cursor) : Nat := (c.size - c.index).toNat

/-- The lexeme at a place; a place below zero counts from the end. -/
def lexemeAt (c : Cursor) (place : Int) : Except AccessFault Lexeme :=
  let i := if place < 0 then c.size + place else place
  match if i < 0 then none else c.lexemes[i.toNat]? with
  | some l => .ok l
  | none => .error (.outOfRange "tuple")

/-- Read on from a place, for at most `fuel` lexemes: the first lexeme that is not passed over, and
the place behind it. -/
def nextFrom (c : Cursor) (skipComments : Bool) : Nat → Int → Except AccessFault (Option Lexeme × Int)
  | 0, place => .ok (none, place)
  | fuel + 1, place =>
    match c.lexemeAt place with
    | .error e => .error e
    | .ok l =>
      if skipComments && l.kind == .comment then c.nextFrom skipComments fuel (place + 1)
      else .ok (some l, place + 1)

/-- The next lexeme, if any is left, and the cursor behind it. -/
def next (c : Cursor) (skipComments : Bool := true) : Except AccessFault (Option Lexeme × Cursor) :=
  (c.nextFrom skipComments c.unread c.index).map fun (l, place) => (l, { c with index := place })

/-- The next lexeme, also if it is a comment. -/
def peek (c : Cursor) : Except AccessFault (Option Lexeme) :=
  if c.atEnd then .ok none else (c.lexemeAt c.index).map some

/-- The cursor `count` places on, but not beyond the end. -/
def advance (c : Cursor) (count : Int := 1) : Cursor :=
  { c with index := min (c.index + count) c.size }

/-- The lexemes left to read. -/
def remaining (c : Cursor) : List Lexeme :=
  c.lexemes.toList.drop (Text.place c.size c.index)

/-- Where the next lexeme that is no comment starts; the end of the stretch if there is none. -/
def offset (c : Cursor) : Except AccessFault Int :=
  c.next.map fun
    | (some l, _) => l.start
    | (none, _) => c.stop

/-- A cursor differs from another in its place alone. -/
def SameRow (c d : Cursor) : Prop :=
  d.text = c.text ∧ d.lexemes = c.lexemes ∧ d.start = c.start ∧ d.stop = c.stop

theorem next_cursor {c d : Cursor} {skip : Bool} {l : Option Lexeme}
    (h : c.next skip = .ok (l, d)) : c.SameRow d := by
  rw [next] at h
  cases hn : c.nextFrom skip c.unread c.index with
  | error e => rw [hn] at h; cases h
  | ok r => rw [hn] at h; cases h; exact ⟨rfl, rfl, rfl, rfl⟩

end Cursor

end Outline
