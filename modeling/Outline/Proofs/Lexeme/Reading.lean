import Mathlib.Algebra.Order.Group.Int
import Mathlib.Tactic.Common
import Outline.Lexeme.Cursor

/-!
# What a cursor reads

Reading from a cursor gives the first lexeme that is not passed over.

* `Cursor.InRow`: the place is not too far below zero;
* `Cursor.Reads`: a lexeme is read, and where that leads, said without going through the row;
* **`Cursor.next_eq_some_iff`**: `next` reads just that;
* `Cursor.next_inRow`, `Cursor.offset_eq_ok_iff`: only a place too far below zero cannot be read from;
* `Cursor.Ahead`: a cursor that is reached by reading;
* `Cursor.index_advance`, `Cursor.ahead_advance`: moving on by one lexeme.
-/

namespace Outline

namespace Cursor

/-- The place counts from the start, or from the end and then not too far. -/
def InRow (c : Cursor) : Prop := -(c.size : Int) ≤ c.index

/-- Reading from `c` gives the lexeme `l` and leads to `d`: before `l` there are comments alone, and
only if comments are passed over, and `l` is not one of them. -/
structure Reads (skipComments : Bool) (c : Cursor) (l : Lexeme) (d : Cursor) : Prop where
  row : c.SameRow d
  ahead : c.index < d.index
  inside : d.index ≤ c.size
  last : c.lexemeAt (d.index - 1) = .ok l
  passed : ∀ i, c.index ≤ i → i < d.index - 1 →
    skipComments = true ∧ ∃ k, c.lexemeAt i = .ok k ∧ k.kind = .comment
  kept : ¬ (skipComments = true ∧ l.kind = .comment)

theorem SameRow.refl (c : Cursor) : c.SameRow c := ⟨rfl, rfl, rfl, rfl⟩

theorem SameRow.symm {c d : Cursor} (h : c.SameRow d) : d.SameRow c :=
  ⟨h.1.symm, h.2.1.symm, h.2.2.1.symm, h.2.2.2.symm⟩

theorem SameRow.trans {c d e : Cursor} (h : c.SameRow d) (h' : d.SameRow e) : c.SameRow e :=
  ⟨h'.1.trans h.1, h'.2.1.trans h.2.1, h'.2.2.1.trans h.2.2.1, h'.2.2.2.trans h.2.2.2⟩

theorem SameRow.size_eq {c d : Cursor} (h : c.SameRow d) : d.size = c.size := by
  rw [size, h.2.1, size]

theorem SameRow.eq {c d : Cursor} (h : c.SameRow d) (hi : d.index = c.index) : d = c := by
  obtain ⟨t, ls, a, b, i⟩ := c
  obtain ⟨t', ls', a', b', i'⟩ := d
  obtain ⟨h1, h2, h3, h4⟩ := h
  simp only at h1 h2 h3 h4 hi
  subst h1 h2 h3 h4 hi
  rfl

theorem lexemeAt_isOk {c : Cursor} {i : Int} (h : -(c.size : Int) ≤ i) (h' : i < c.size) :
    ∃ l, c.lexemeAt i = .ok l := by
  simp only [lexemeAt]
  generalize hj : (if i < 0 then (c.size : Int) + i else i) = j
  have hj0 : 0 ≤ j := by split at hj <;> omega
  have hj1 : j.toNat < c.lexemes.size := by
    have : j < c.size := by split at hj <;> omega
    unfold size at this
    omega
  refine ⟨c.lexemes[j.toNat], ?_⟩
  rw [if_neg (by omega), Array.getElem?_eq_getElem hj1]

theorem lexemeAt_natCast {c : Cursor} {p : Nat} (hp : p < c.lexemes.toList.length) :
    c.lexemeAt p = .ok c.lexemes.toList[p] := by
  rw [Array.length_toList] at hp
  simp only [lexemeAt, Array.getElem_toList]
  rw [if_neg (by omega), if_neg (by omega), Int.toNat_natCast, Array.getElem?_eq_getElem hp]

theorem lexemeAt_low {c : Cursor} {i : Int} (h : i < -(c.size : Int)) :
    ∃ e, c.lexemeAt i = .error e := by
  simp only [lexemeAt]
  rw [if_pos (show (if i < 0 then (c.size : Int) + i else i) < 0 by split <;> omega)]
  exact ⟨_, rfl⟩

/-! ## The loop -/

section Loop

variable {c : Cursor} {skip : Bool}

theorem nextFrom_some : ∀ {fuel : Nat} {i p : Int} {l : Lexeme},
    c.nextFrom skip fuel i = .ok (some l, p) →
      i < p ∧ p ≤ i + fuel ∧ c.lexemeAt (p - 1) = .ok l ∧ ¬ (skip = true ∧ l.kind = .comment) ∧
        ∀ j, i ≤ j → j < p - 1 → skip = true ∧ ∃ k, c.lexemeAt j = .ok k ∧ k.kind = .comment
  | 0, _, _, _, h => by cases h
  | fuel + 1, i, p, l, h => by
    rw [nextFrom] at h
    cases hk : c.lexemeAt i with
    | error e => rw [hk] at h; cases h
    | ok k =>
      rw [hk] at h
      simp only at h
      by_cases hs : skip = true ∧ k.kind = .comment
      · rw [if_pos (by simpa using hs)] at h
        obtain ⟨h1, h2, h3, h4, h5⟩ := nextFrom_some h
        refine ⟨by omega, by omega, h3, h4, fun j hj hj' => ?_⟩
        by_cases hij : j = i
        · subst hij; exact ⟨hs.1, k, hk, hs.2⟩
        · exact h5 j (by omega) hj'
      · rw [if_neg (by simpa using hs)] at h
        cases h
        exact ⟨by omega, by omega, by rwa [Int.add_sub_cancel], hs, fun j _ _ => by omega⟩

/-- The loop stops at the lexeme behind the comments, if it is given the rounds to get there. -/
theorem nextFrom_of_passed {p : Int} {l : Lexeme} (hl : c.lexemeAt (p - 1) = .ok l)
    (hk : ¬ (skip = true ∧ l.kind = .comment)) : ∀ {fuel : Nat} {i : Int}, i < p → p ≤ i + fuel →
    (∀ j, i ≤ j → j < p - 1 → skip = true ∧ ∃ k, c.lexemeAt j = .ok k ∧ k.kind = .comment) →
      c.nextFrom skip fuel i = .ok (some l, p)
  | 0, _, h, h', _ => by omega
  | fuel + 1, i, h, h', hp => by
    rw [nextFrom]
    by_cases hi : i = p - 1
    · subst hi
      rw [hl]
      simp only
      rw [if_neg (by simpa using hk), Int.sub_add_cancel]
    · obtain ⟨hs, k, hki, hkk⟩ := hp i le_rfl (by omega)
      rw [hki]
      simp only
      rw [if_pos (by simp [hs, hkk])]
      exact nextFrom_of_passed hl hk (by omega) (by omega) fun j hj hj' => hp j (by omega) hj'

theorem nextFrom_isOk : ∀ {fuel : Nat} {i : Int}, -(c.size : Int) ≤ i → i + fuel ≤ c.size →
    ∃ r, c.nextFrom skip fuel i = .ok r
  | 0, _, _, _ => ⟨_, rfl⟩
  | fuel + 1, i, h, h' => by
    obtain ⟨k, hk⟩ := lexemeAt_isOk (c := c) h (by omega)
    rw [nextFrom, hk]
    simp only
    split
    · exact nextFrom_isOk (by omega) (by omega)
    · exact ⟨_, rfl⟩

end Loop

/-! ## Reading -/

/-- **What `next` reads is the first lexeme that is not passed over.** -/
theorem next_eq_some_iff {c d : Cursor} {skip : Bool} {l : Lexeme} :
    c.next skip = .ok (some l, d) ↔ c.Reads skip l d := by
  constructor
  · intro h
    have hrow := next_cursor h
    rw [next] at h
    cases hn : c.nextFrom skip c.unread c.index with
    | error e => rw [hn] at h; cases h
    | ok r =>
      rw [hn] at h
      obtain ⟨l', p⟩ := r
      cases h
      obtain ⟨h1, h2, h3, h4, h5⟩ := nextFrom_some hn
      unfold unread at h2
      exact ⟨hrow, h1, show p ≤ c.size by omega, h3, h5, h4⟩
  · rintro ⟨hrow, h1, h2, h3, h5, h4⟩
    have hf : d.index ≤ c.index + c.unread := by unfold unread; omega
    rw [next, nextFrom_of_passed h3 h4 h1 hf h5]
    exact congrArg (fun e => Except.ok (some l, e)) (SameRow.eq (c := d) hrow.symm rfl)

theorem Reads.unique {c d d' : Cursor} {skip : Bool} {l l' : Lexeme} (h : c.Reads skip l d)
    (h' : c.Reads skip l' d') : l = l' ∧ d = d' := by
  rw [← next_eq_some_iff] at h h'
  rw [h] at h'
  cases h'
  exact ⟨rfl, rfl⟩

theorem next_inRow {c : Cursor} (h : c.InRow) (skip : Bool) : ∃ r, c.next skip = .ok r := by
  have hn : ∃ r, c.nextFrom skip c.unread c.index = .ok r := by
    by_cases hu : c.index ≤ c.size
    · exact nextFrom_isOk h (by unfold unread; omega)
    · have h0 : c.unread = 0 := by unfold unread; omega
      rw [h0]
      exact ⟨_, rfl⟩
  obtain ⟨r, hr⟩ := hn
  rw [next, hr]
  exact ⟨_, rfl⟩

theorem next_not_inRow {c : Cursor} (h : ¬ c.InRow) (skip : Bool) : ∃ e, c.next skip = .error e := by
  unfold InRow at h
  obtain ⟨e, he⟩ := lexemeAt_low (c := c) (i := c.index) (by omega)
  have hu : c.unread = (c.unread - 1) + 1 := by unfold unread; omega
  rw [next, hu, nextFrom, he]
  exact ⟨e, rfl⟩

theorem offset_eq_ok_iff {c : Cursor} : (∃ o, c.offset = .ok o) ↔ c.InRow := by
  constructor
  · rintro ⟨o, ho⟩
    by_contra h
    obtain ⟨e, he⟩ := next_not_inRow h true
    rw [offset, he] at ho
    cases ho
  · intro h
    obtain ⟨r, hr⟩ := next_inRow h true
    rw [offset, hr]
    exact ⟨_, rfl⟩

/-! ## Cursors reached by reading -/

/-- The cursor stands at the place of another, or further on but not beyond the row. -/
structure Ahead (c d : Cursor) : Prop where
  row : c.SameRow d
  le : c.index ≤ d.index
  inside : d.index ≤ max c.index c.size

theorem Ahead.refl (c : Cursor) : c.Ahead c := ⟨.refl c, le_rfl, le_max_left _ _⟩

theorem Ahead.trans {c d e : Cursor} (h : c.Ahead d) (h' : d.Ahead e) : c.Ahead e := by
  refine ⟨h.row.trans h'.row, h.le.trans h'.le, ?_⟩
  have h1 := h.inside
  have h2 := h'.inside
  have h3 := h.le
  rw [h.row.size_eq] at h2
  omega

theorem Ahead.inRow {c d : Cursor} (h : c.Ahead d) (hc : c.InRow) : d.InRow := by
  unfold InRow at hc ⊢
  rw [h.row.size_eq]
  exact hc.trans h.le

theorem Reads.toAhead {c d : Cursor} {skip : Bool} {l : Lexeme} (h : c.Reads skip l d) : c.Ahead d :=
  ⟨h.row, h.ahead.le, h.inside.trans (le_max_right _ _)⟩

/-! ## Moving on by one -/

theorem lexemeAt_of_peek {c : Cursor} {l : Lexeme} (h : c.peek = .ok (some l)) :
    c.index < c.size ∧ c.lexemeAt c.index = .ok l := by
  unfold peek atEnd at h
  split at h
  · cases h
  · rename_i hi
    cases hl : c.lexemeAt c.index with
    | error e => rw [hl] at h; cases h
    | ok k =>
      rw [hl] at h
      cases h
      exact ⟨by simpa using hi, rfl⟩

theorem size_le_of_peek {c : Cursor} (h : c.peek = .ok none) : (c.size : Int) ≤ c.index := by
  unfold peek atEnd at h
  split at h
  · rename_i hi
    simpa using hi
  · cases hl : c.lexemeAt c.index with
    | error e => rw [hl] at h; cases h
    | ok k => rw [hl] at h; cases h

theorem index_advance {c : Cursor} (h : c.index < c.size) : c.advance.index = c.index + 1 := by
  show min (c.index + 1) (c.size : Int) = c.index + 1
  omega

theorem ahead_advance {c : Cursor} (h : c.index < c.size) : c.Ahead c.advance := by
  refine ⟨⟨rfl, rfl, rfl, rfl⟩, ?_, ?_⟩
  · rw [index_advance h]
    omega
  · rw [index_advance h]
    omega

theorem InRow.advance {c : Cursor} (h : c.InRow) : c.advance.InRow := by
  unfold InRow at h ⊢
  show -(c.size : Int) ≤ min (c.index + 1) c.size
  omega

end Cursor

end Outline
