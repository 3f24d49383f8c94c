/-!
# Texts

A text is its characters in order; offsets count characters from the start.

* `Text`, `Text.ofString`, `Text.length`, `Text.chars`;
* `Text.range`: the characters between two offsets, as far as the text has them;
* `Text.slice`: the same for offsets that may count from the end;
* `length_range`, `range_eq_drop_take`: a range is a stretch of the character list.
-/

namespace Outline

/-- A text: its characters in order. -/
structure Text where
  chars : Array Char
deriving DecidableEq, Inhabited

namespace Text

/-- The text that a list of characters spells. -/
def ofList (cs : List Char) : Text := ⟨cs.toArray⟩

/-- The text of a string. -/
def ofString (s : String) : Text := ofList s.toList

/-- The characters in order. -/
def toList (t : Text) : List Char := t.chars.toList

/-- The number of characters. -/
def length (t : Text) : Nat := t.chars.size

/-- The characters from `start` up to, but without, `stop`, as far as the text has them. -/
def range (t : Text) (start stop : Nat) : List Char := (t.chars.extract start stop).toList

/-- The place that an offset means: a negative one counts from the end, and one that lies outside
the text means the nearer end. -/
def place (length : Nat) (offset : Int) : Nat :=
  if offset < 0 then (length + offset).toNat else min offset.toNat length

/-- The characters between two offsets that may count from the end. -/
def slice (t : Text) (start stop : Int) : List Char :=
  t.range (place t.length start) (place t.length stop)

@[simp] theorem toList_ofList (cs : List Char) : (ofList cs).toList = cs := rfl

@[simp] theorem length_ofList (cs : List Char) : (ofList cs).length = cs.length := rfl

theorem length_toList (t : Text) : t.toList.length = t.length := rfl

theorem range_eq_drop_take (t : Text) (start stop : Nat) :
    t.range start stop = (t.toList.take stop).drop start := by
  rw [range, Array.toList_extract, List.extract_eq_take_drop, toList, List.drop_take]

theorem length_range (t : Text) (start stop : Nat) :
    (t.range start stop).length = min stop t.length - start := by
  rw [range_eq_drop_take, List.length_drop, List.length_take, length_toList]

theorem place_natCast (length offset : Nat) : place length offset = min offset length := by
  rw [place, if_neg (by omega), Int.toNat_natCast]

theorem slice_natCast (t : Text) {start stop : Nat} (h : stop ≤ t.length) :
    t.slice start stop = t.range start stop := by
  rw [slice, place_natCast, place_natCast, Nat.min_eq_left h, range_eq_drop_take,
    range_eq_drop_take]
  rcases Nat.le_total start t.length with hs | hs
  · rw [Nat.min_eq_left hs]
  · rw [Nat.min_eq_right hs, List.drop_eq_nil_of_le, List.drop_eq_nil_of_le] <;>
      rw [List.length_take, length_toList] <;> omega

end Text

end Outline
