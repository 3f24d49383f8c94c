import Outline.Proofs.Lexer.Shift
import Outline.Proofs.Matching.Coverage

/-!
# Reading further on in a text

A row of lexemes and the same row further on in another text are read alike, and the readings contribute
the same values, but for the offsets in them.

* `Value.shift`, `Construct.shift`: values and constructs `d` characters further on;
* `Cursor.lexemeAt_shift`, `Cursor.next_shift`, `Cursor.peek_shift`, `Cursor.offset_shift`: reading;
* `Cursor.Held`: a row in order whose text is a stretch of another;
* `Cursor.Held.text_eq`, `Cursor.Held.value_eq`: what a lexeme says there.
-/

namespace Outline

/-! ## Values -/

mutual

/-- A value `d` characters further on: its integers are offsets. -/
def Value.shift (d : Nat) : Value → Value
  | .none => .none
  | .bool b => .bool b
  | .int n => .int (n + d)
  | .real text => .real text
  | .str s => .str s
  | .tuple items => .tuple (shiftAll d items)
  | .list items => .list (shiftAll d items)

/-- Values `d` characters further on. -/
def Value.shiftAll (d : Nat) : List Value → List Value
  | [] => []
  | v :: vs => v.shift d :: shiftAll d vs

end

theorem Value.shiftAll_eq_map (d : Nat) : ∀ vs : List Value, Value.shiftAll d vs = vs.map (·.shift d)
  | [] => rfl
  | v :: vs => by rw [Value.shiftAll, shiftAll_eq_map d vs, List.map_cons]

@[simp] theorem Value.shift_tuple (d : Nat) (items : List Value) :
    (Value.tuple items).shift d = .tuple (items.map (·.shift d)) := by
  rw [Value.shift, Value.shiftAll_eq_map]

/-- A construct `d` characters further on. -/
def Construct.shift (d : Nat) (k : Construct) : Construct :=
  ⟨k.fields.map (·.shift d), k.start + d, k.stop + d⟩

/-- A value is a construct of a stretch just where the same value further on is one of the whole text. -/
theorem Construct.ofValue_shift {d m n : Nat} (hmn : m + d ≤ n) {v : Value} {k : Construct}
    (h : Construct.ofValue (some (m : Int)) v = .ok k) :
    Construct.ofValue (some (n : Int)) (v.shift d) = .ok (k.shift d) := by
  obtain ⟨rfl, hle, hbound⟩ := Construct.ofValue_eq_ok_iff.mp h
  have hstop : k.stop ≤ m := by simpa using hbound
  refine Construct.ofValue_eq_ok_iff.mpr ⟨?_, Nat.add_le_add_right hle d, ?_⟩
  · simp [Construct.toValue, Construct.shift, Value.shift]
  · rintro b ⟨⟩
    simp only [Construct.shift]
    omega

/-! ## Rows -/

namespace Cursor

variable (T : Text) (d : Nat) (c : Cursor)

@[simp] theorem text_shift : (c.shift T d).text = T := rfl

@[simp] theorem index_shift : (c.shift T d).index = c.index := rfl

@[simp] theorem size_shift : (c.shift T d).size = c.size := by simp [shift, size]

@[simp] theorem unread_shift : (c.shift T d).unread = c.unread := by simp [unread]

theorem lexemeAt_shift (i : Int) :
    (c.shift T d).lexemeAt i = (c.lexemeAt i).map (Lexeme.shift d) := by
  have hget : ∀ j : Nat, (c.shift T d).lexemes[j]? = c.lexemes[j]?.map (Lexeme.shift d) := by
    simp [shift]
  unfold lexemeAt
  simp only [size_shift, hget]
  generalize (if i < 0 then (c.size : Int) + i else i) = j
  by_cases hj : j < 0
  · simp only [if_pos hj]
    rfl
  · simp only [if_neg hj]
    cases c.lexemes[j.toNat]? <;> rfl

theorem nextFrom_shift (skip : Bool) : ∀ (fuel : Nat) (i : Int),
    (c.shift T d).nextFrom skip fuel i =
      (c.nextFrom skip fuel i).map fun p => (p.1.map (Lexeme.shift d), p.2)
  | 0, i => rfl
  | fuel + 1, i => by
    rw [nextFrom, nextFrom, lexemeAt_shift]
    cases c.lexemeAt i with
    | error e => rfl
    | ok l =>
      simp only [Except.map, Lexeme.shift]
      split
      · exact nextFrom_shift skip fuel (i + 1)
      · rfl

theorem next_shift (skip : Bool) :
    (c.shift T d).next skip =
      (c.next skip).map fun p => (p.1.map (Lexeme.shift d), p.2.shift T d) := by
  unfold next
  rw [unread_shift, index_shift, nextFrom_shift]
  cases c.nextFrom skip c.unread c.index <;> rfl

theorem peek_shift : (c.shift T d).peek = c.peek.map (Option.map (Lexeme.shift d)) := by
  unfold peek atEnd
  rw [size_shift, index_shift, lexemeAt_shift]
  split
  · rfl
  · cases c.lexemeAt c.index <;> rfl

theorem advance_shift : (c.shift T d).advance = c.advance.shift T d := by
  unfold advance
  rw [size_shift]
  rfl

theorem offset_shift : (c.shift T d).offset = c.offset.map (· + (d : Int)) := by
  unfold offset
  rw [next_shift]
  cases c.next with
  | error e => rfl
  | ok p =>
    obtain ⟨l, e⟩ := p
    cases l with
    | none => simp [Except.map, shift]
    | some l => rfl

/-- A row in order, of a text that is a stretch of `T`. -/
structure Held (T : Text) (d : Nat) (c : Cursor) : Prop where
  part : c.text.Part T d
  ordered : c.Ordered

namespace Held

variable {T d c} {e : Cursor} {l : Lexeme} {skip : Bool}

theorem ahead (h : c.Held T d) (he : c.Ahead e) : e.Held T d :=
  ⟨he.row.1.symm ▸ h.part, h.ordered.ahead he⟩

/-- The characters of a lexeme that is read are the same further on. -/
theorem text_eq (h : c.Held T d) (hr : c.Reads skip l e) : (l.shift d).text T = l.text c.text := by
  have hlt := hr.ahead
  have hstop := h.ordered.stop_le
  have hin := h.part.inside
  obtain ⟨h1, h2, h3⟩ := h.ordered.within _ l (by omega) hr.last
  obtain ⟨a, ha⟩ := Int.eq_ofNat_of_zero_le (show 0 ≤ l.start by omega)
  obtain ⟨b, hb⟩ := Int.eq_ofNat_of_zero_le (show 0 ≤ l.stop by omega)
  have hbt : b ≤ c.text.length := by omega
  have hbT : b + d ≤ T.length := by omega
  simp only [Lexeme.text, Lexeme.shift, ha, hb]
  rw [← Int.natCast_add, ← Int.natCast_add, Text.slice_natCast _ hbT, Text.slice_natCast _ hbt,
    h.part.range hbt]

/-- A lexeme that is read contributes the same value further on. -/
theorem value_eq (h : c.Held T d) (hr : c.Reads skip l e) :
    (l.shift d).value T = (l.value c.text).shift d := by
  have ht := h.text_eq hr
  unfold Lexeme.value
  rw [ht]
  show (if l.kind = .semanticList ∨ l.kind = .comment then _ else _) = _
  split
  · simp [Value.span, Value.shift, Lexeme.shift]
  · rfl

end Held

end Cursor

end Outline
