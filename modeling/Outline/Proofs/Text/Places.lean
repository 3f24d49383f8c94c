import Mathlib.Data.Prod.Lex
import Mathlib.Data.Set.Function
import Outline.Proofs.Text.Lines

/-!
# Offsets and places

A place is a line of a text and a column in it. The offsets of the text, its end among them, and its
places correspond one to one and stand in the same order.

* `Position.In`: the places of a text, said by its lines alone; `Text.offsetAt`: the offset of a place,
  from the lengths of the lines;
* `Position.In.offsetAt_lt`: what comes later has a greater offset, so that offsets tell places apart;
* `Text.line_position`, `Text.column_position`: line and column counted in the text before the offset;
* `Text.EndsLine`: only carriage returns stand between an offset and the end of its line;
* **`Text.position_bijOn`**: the correspondence, and which character stands at the place of an offset.
-/

namespace Outline

/-- A place in a text: one of its lines, and a column of it or the one behind its last character. -/
structure Position.In (p : Position) (t : Text) : Prop where
  line_pos : 0 < p.line
  column_pos : 0 < p.column
  exists_line : ∃ here, t.lines[p.line - 1]? = some here ∧ p.column - 1 ≤ here.length

/-- Places in their order: by lines, and in a line by columns. -/
def Position.rank (p : Position) : ℕ ×ₗ ℕ := toLex (p.line, p.column)

theorem Position.rank_injective : Function.Injective Position.rank := by
  rintro ⟨line, column⟩ ⟨line', column'⟩ h
  obtain ⟨rfl, rfl⟩ := Prod.mk.inj (toLex.injective h)
  rfl

namespace Text

/-- Where the line with a number of lines above it begins: each of these counts with its newline. -/
def lineStart (t : Text) (above : Nat) : Nat := ((t.lines.take above).map (·.length + 1)).sum

/-- The offset of a place. -/
def offsetAt (t : Text) (p : Position) : Nat := t.lineStart (p.line - 1) + (p.column - 1)

variable {t : Text}

/-! ## Where lines begin -/

theorem lineStart_succ {n : Nat} {here : List Char} (h : t.lines[n]? = some here) :
    t.lineStart (n + 1) = t.lineStart n + here.length + 1 := by
  rw [lineStart, List.take_add_one, h, List.map_append, List.sum_append, lineStart]
  simp only [Option.toList_some, List.map_cons, List.map_nil, List.sum_cons, List.sum_nil]
  omega

theorem lineStart_mono (t : Text) {m n : Nat} (h : m ≤ n) : t.lineStart m ≤ t.lineStart n :=
  ((List.take_prefix_take_left h).sublist.map _).sum_le_sum (fun _ _ => Nat.zero_le _)

theorem lineStart_le (t : Text) (n : Nat) : t.lineStart n ≤ t.length + 1 := by
  have h := ((List.take_sublist n t.lines).map (·.length + 1)).sum_le_sum
    (fun _ _ => Nat.zero_le _)
  rwa [lines, sum_length_splitLines, length_toList] at h

end Text

/-! ## The offsets of places -/

namespace Position.In

variable {t : Text} {p q : Position}

/-- A place comes before the lines below it. -/
theorem offsetAt_lt_lineStart (hp : p.In t) : t.offsetAt p < t.lineStart p.line := by
  obtain ⟨here, hline, hcolumn⟩ := hp.exists_line
  have hnext := Text.lineStart_succ hline
  rw [Nat.sub_add_cancel hp.line_pos] at hnext
  rw [Text.offsetAt]
  omega

theorem offsetAt_le (hp : p.In t) : t.offsetAt p ≤ t.length :=
  Nat.le_of_lt_succ (Nat.lt_of_lt_of_le hp.offsetAt_lt_lineStart (t.lineStart_le _))

/-- What comes later in the order of places has a greater offset. -/
theorem offsetAt_lt (hp : p.In t) (h : p.rank < q.rank) : t.offsetAt p < t.offsetAt q := by
  obtain hline | ⟨hline, hcolumn⟩ : p.line < q.line ∨ p.line = q.line ∧ p.column < q.column :=
    Prod.Lex.toLex_lt_toLex.mp h
  · calc t.offsetAt p < t.lineStart p.line := hp.offsetAt_lt_lineStart
      _ ≤ t.lineStart (q.line - 1) := t.lineStart_mono (Nat.le_sub_one_of_lt hline)
      _ ≤ t.offsetAt q := Nat.le_add_right _ _
  · have hpos := hp.column_pos
    rw [Text.offsetAt, Text.offsetAt, hline]
    omega

/-- Different places have different offsets. -/
theorem eq_of_offsetAt (hp : p.In t) (hq : q.In t) (h : t.offsetAt p = t.offsetAt q) : p = q := by
  obtain hlt | heq | hgt := lt_trichotomy p.rank q.rank
  · exact absurd h (Nat.ne_of_lt (hp.offsetAt_lt hlt))
  · exact Position.rank_injective heq
  · exact absurd h.symm (Nat.ne_of_lt (hq.offsetAt_lt hgt))

end Position.In

namespace Text

variable {t : Text} {p : Position} {o : Nat}

/-! ## The places of offsets -/

theorem position_in (ho : o ≤ t.length) : (t.position o).In t := by
  obtain ⟨above, last, first, below, hlines, -, -, -, hpos⟩ := t.exists_line ho
  rw [hpos]
  refine ⟨Nat.succ_pos _, Nat.succ_pos _, last ++ first, ?_, ?_⟩
  · rw [hlines]
    simp
  · simp

theorem offsetAt_position (ho : o ≤ t.length) : t.offsetAt (t.position o) = o := by
  obtain ⟨above, last, first, below, hlines, -, -, hsum, hpos⟩ := t.exists_line ho
  rw [hpos, offsetAt, lineStart, hlines, Nat.add_sub_cancel, Nat.add_sub_cancel, List.take_left, hsum]

theorem position_offsetAt (hp : p.In t) : t.position (t.offsetAt p) = p :=
  (position_in hp.offsetAt_le).eq_of_offsetAt hp (offsetAt_position hp.offsetAt_le)

theorem rank_position_lt {o' : Nat} (h : o < o') (ho' : o' ≤ t.length) :
    (t.position o).rank < (t.position o').rank := by
  have ho : o ≤ t.length := Nat.le_of_lt (Nat.lt_of_lt_of_le h ho')
  obtain hlt | heq | hgt := lt_trichotomy (t.position o).rank (t.position o').rank
  · exact hlt
  · have hsame := congrArg t.offsetAt (Position.rank_injective heq)
    rw [offsetAt_position ho, offsetAt_position ho'] at hsame
    exact absurd hsame (Nat.ne_of_lt h)
  · have hless := (position_in ho').offsetAt_lt hgt
    rw [offsetAt_position ho, offsetAt_position ho'] at hless
    exact absurd h (Nat.lt_asymm hless)

/-- Before the text there is its first place. -/
theorem position_of_nonpos {o : Int} (h : o ≤ 0) : t.position o = t.position 0 := by
  rw [position, position, Int.toNat_of_nonpos h, Int.toNat_zero]

/-- Behind the text there is its last place. -/
theorem position_of_length_le {o : Int} (h : t.length ≤ o) : t.position o = t.position t.length := by
  rw [position, position, Int.toNat_natCast, Nat.min_self, Nat.min_eq_right (by omega)]

/-! ## Lines and columns counted -/

/-- Each newline ends a line. -/
theorem length_above {cs last : List Char} {above : List (List Char)}
    (h : splitLines cs = above ++ [last]) : above.length = cs.count '\n' := by
  induction cs, above, last, h using splitLines_induction with
  | nil => rfl
  | newline cs above last _ ih => rw [List.length_append, ih, List.count_append]; rfl
  | other cs above last c hc _ ih =>
    rw [ih, List.count_append, List.count_cons_of_ne hc, List.count_nil, Nat.add_zero]

/-- The number of a line is that of the newlines before it. -/
theorem line_position (ho : o ≤ t.length) :
    (t.position o).line = (t.toList.take o).count '\n' + 1 := by
  obtain ⟨above, last, first, below, -, hbefore, -, -, hpos⟩ := t.exists_line ho
  rw [hpos, length_above hbefore]

/-- The last line goes back to the last newline. -/
theorem takeWhile_reverse {cs last : List Char} {before : List (List Char)}
    (h : splitLines cs = before ++ [last]) :
    cs.reverse.takeWhile (· != '\n') = last.reverse := by
  induction cs, before, last, h using splitLines_induction with
  | nil => rfl
  | newline cs before last _ _ => rw [List.reverse_append, List.reverse_singleton]; rfl
  | other cs before last c hc _ ih =>
    rw [List.reverse_append, List.reverse_singleton, List.singleton_append,
      List.takeWhile_cons_of_pos (by simpa using hc), ih, List.reverse_append,
      List.reverse_singleton, List.singleton_append]

/-- A column counts the characters behind the last newline before it. -/
theorem column_position (ho : o ≤ t.length) :
    (t.position o).column = ((t.toList.take o).reverse.takeWhile (· != '\n')).length + 1 := by
  obtain ⟨above, last, first, below, -, hbefore, -, -, hpos⟩ := t.exists_line ho
  rw [hpos, takeWhile_reverse hbefore, List.length_reverse]

/-! ## The characters at places -/

/-- Nothing but carriage returns stands between an offset and the end of its line. -/
def EndsLine (t : Text) (o : Nat) : Prop :=
  ∃ returns rest, t.toList.drop o = List.replicate returns '\r' ++ rest ∧
    (rest = [] ∨ rest.head? = some '\n')

/-- The first line goes up to the first newline. -/
theorem exists_behind_line {cs first : List Char} {below : List (List Char)}
    (h : splitLines cs = first :: below) :
    ∃ rest, cs = first ++ rest ∧ (rest = [] ∨ rest.head? = some '\n') := by
  induction cs generalizing first below with
  | nil =>
    cases h
    exact ⟨[], rfl, Or.inl rfl⟩
  | cons c cs ih =>
    by_cases hc : c = '\n'
    · subst hc
      rw [splitLines_newline] at h
      cases h
      exact ⟨'\n' :: cs, rfl, Or.inr rfl⟩
    · obtain ⟨l, ls, hs⟩ := exists_first_line cs
      rw [splitLines_cons_of_ne hc, hs, consLine] at h
      cases h
      obtain ⟨rest, hcs, hrest⟩ := ih hs
      exact ⟨rest, by rw [List.cons_append, ← hcs], hrest⟩

theorem endsLine_iff {first : List Char} {below : List (List Char)}
    (h : splitLines (t.toList.drop o) = first :: below) :
    t.EndsLine o ↔ ∀ c ∈ first, c = '\r' := by
  constructor
  · rintro ⟨returns, rest, hdrop, hrest⟩
    have hreturns : '\n' ∉ List.replicate returns '\r' := fun hmem => by
      cases List.eq_of_mem_replicate hmem
    have hfirst : first = List.replicate returns '\r' := by
      rw [hdrop] at h
      obtain rfl | hrest := hrest
      · rw [List.append_nil, splitLines_of_not_mem hreturns] at h
        exact (List.cons.inj h).1.symm
      · obtain ⟨behind, rfl⟩ := List.head?_eq_some_iff.mp hrest
        rw [splitLines_line hreturns] at h
        exact (List.cons.inj h).1.symm
    intro c hc
    rw [hfirst] at hc
    exact List.eq_of_mem_replicate hc
  · intro hall
    obtain ⟨rest, hdrop, hrest⟩ := exists_behind_line h
    exact ⟨first.length, rest, by rw [hdrop, ← List.eq_replicate_of_mem hall], hrest⟩

/-- Carriage returns at the end of a line are not part of it. -/
theorem getElem?_line_of_endsLine (ho : o ≤ t.length) (h : t.EndsLine o) :
    (t.line (t.position o).line)[(t.position o).column - 1]? = none := by
  obtain ⟨above, last, first, below, hlines, -, hdrop, -, hpos⟩ := t.exists_line ho
  have hfirst := (endsLine_iff hdrop).mp h
  have hline : t.line (above.length + 1 : Nat) = trimEnd (· == '\r') last := by
    rw [t.line_natCast hlines, trimEnd_append_of_forall fun c hc => beq_iff_eq.mpr (hfirst c hc)]
  rw [hpos]
  change (t.line (above.length + 1 : Nat))[last.length]? = none
  rw [hline]
  exact List.getElem?_eq_none (prefix_trimEnd last).length_le

/-- Any other offset is that of the character in its line. -/
theorem getElem?_line_of_not_endsLine (ho : o ≤ t.length) (h : ¬ t.EndsLine o) :
    ∃ c, t.toList[o]? = some c ∧
      (t.line (t.position o).line)[(t.position o).column - 1]? = some c := by
  obtain ⟨above, last, first, below, hlines, -, hdrop, -, hpos⟩ := t.exists_line ho
  obtain ⟨c, hmem, hc⟩ : ∃ c ∈ first, c ≠ '\r' := by
    simpa using fun hall => h ((endsLine_iff hdrop).mpr hall)
  -- the line is kept at least up to a character that is no carriage return
  obtain ⟨as, bs, rfl⟩ := List.append_of_mem hmem
  have hline : t.line (above.length + 1 : Nat) =
      last ++ (as ++ c :: trimEnd (· == '\r') bs) := by
    rw [t.line_natCast hlines, ← List.append_assoc,
      trimEnd_append_cons (p := (· == '\r')) (beq_eq_false_iff_ne.mpr hc), List.append_assoc]
  obtain ⟨rest, hrest, -⟩ := exists_behind_line hdrop
  have hat : t.toList[o]? = (as ++ [c]).head? := by
    rw [← List.head?_drop, hrest]
    cases as <;> rfl
  obtain ⟨d, hd⟩ : ∃ d, (as ++ [c]).head? = some d := by cases as <;> exact ⟨_, rfl⟩
  refine ⟨d, hat.trans hd, ?_⟩
  rw [hpos, ← hd]
  change (t.line (above.length + 1 : Nat))[last.length]? = _
  rw [hline, List.getElem?_append_right (Nat.le_refl _), Nat.sub_self]
  cases as <;> rfl

/-- **Offsets and places correspond one to one, in their order.** The place of an offset says how much of
the text stands before it; an offset outside the text has the place of the nearer end. The character
at the offset is found at its place, unless only carriage returns stand between it and the end of
the line. -/
theorem position_bijOn (t : Text) :
    (∀ o ≤ t.length, (t.position o).In t ∧ t.offsetAt (t.position o) = o) ∧
    Set.BijOn (fun o : ℕ => t.position o) (Set.Iic t.length) {p | p.In t} ∧
    StrictMonoOn (fun o : ℕ => (t.position o).rank) (Set.Iic t.length) ∧
    (∀ o : ℤ, (o < 0 → t.position o = t.position 0) ∧
      (t.length < o → t.position o = t.position t.length)) ∧
    ∀ o ≤ t.length,
      (t.EndsLine o → (t.line (t.position o).line)[(t.position o).column - 1]? = none) ∧
      (¬ t.EndsLine o → ∃ c, t.toList[o]? = some c ∧
        (t.line (t.position o).line)[(t.position o).column - 1]? = some c) := by
  refine ⟨fun o ho => ⟨position_in ho, offsetAt_position ho⟩, ⟨?_, ?_, ?_⟩, ?_, ?_, ?_⟩
  · exact fun o ho => position_in ho
  · intro o ho o' ho' hsame
    have hoffset := congrArg t.offsetAt hsame
    rwa [offsetAt_position ho, offsetAt_position ho'] at hoffset
  · exact fun p hp => ⟨t.offsetAt p, Position.In.offsetAt_le hp, position_offsetAt hp⟩
  · exact fun o _ o' ho' hlt => rank_position_lt hlt ho'
  · exact fun o => ⟨fun h => position_of_nonpos h.le, fun h => position_of_length_le h.le⟩
  · exact fun o ho => ⟨getElem?_line_of_endsLine ho, getElem?_line_of_not_endsLine ho⟩

example : (ofString "a\r\n\nb").position 2 = ⟨1, 3⟩ ∧ (ofString "a\r\n\nb").line 1 = ['a'] ∧
    (ofString "a\r\n\nb").position 4 = ⟨3, 1⟩ := by
  decide

end Text

end Outline
