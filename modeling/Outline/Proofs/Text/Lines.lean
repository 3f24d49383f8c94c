import Mathlib.Algebra.Order.BigOperators.Group.List
import Mathlib.Algebra.Order.Ring.Nat
import Mathlib.Data.List.Induction
import Outline.Text.Position

/-!
# The lines around a place

A text cut in two at a place: the last line of the first part and the first line of the second are one
line of the whole, and the position of the place is counted from the lines of the first part.

* `Text.splitLines_append`: the lines of the two parts;
* `Text.splitLines_induction`: induction on a text along its last line;
* `Text.sum_length_splitLines`: the lines and the newlines between them are all of the text;
* `Text.foldl_next`: the position behind some characters;
* **`Text.exists_line`**, `Text.exists_line_of_getElem?`: the line of a place or of a character, and its
  position in the text;
* `trimEnd_append_cons`, `trimEnd_append_of_forall`, `trimEnd_eq_nil_or`, `prefix_trimEnd`: a line without
  its end.
-/

namespace Outline

namespace Text

/-! ## Lines -/

theorem splitLines_newline (cs : List Char) : splitLines ('\n' :: cs) = [] :: splitLines cs := by
  rw [splitLines, if_pos rfl]

theorem splitLines_cons_of_ne {c : Char} (h : c ≠ '\n') (cs : List Char) :
    splitLines (c :: cs) = consLine c (splitLines cs) := by
  rw [splitLines, if_neg h]

/-- There is always a last line. -/
theorem exists_last_line (cs : List Char) : ∃ before last, splitLines cs = before ++ [last] := by
  obtain h | ⟨before, last, h⟩ := (splitLines cs).eq_nil_or_concat
  · exact absurd h (splitLines_ne_nil cs)
  · exact ⟨before, last, by rw [h, List.concat_eq_append]⟩

/-- There is always a first line. -/
theorem exists_first_line (cs : List Char) : ∃ first behind, splitLines cs = first :: behind :=
  List.exists_cons_of_ne_nil (splitLines_ne_nil cs)

/-- The last line of the first part and the first line of the second are one line. -/
theorem splitLines_append {as bs last first : List Char} {before behind : List (List Char)}
    (ha : splitLines as = before ++ [last]) (hb : splitLines bs = first :: behind) :
    splitLines (as ++ bs) = before ++ (last ++ first) :: behind := by
  induction as generalizing before last with
  | nil =>
    cases before with
    | nil =>
      cases ha
      exact hb
    | cons l before => cases before <;> cases ha
  | cons c as ih =>
    rw [List.cons_append]
    by_cases hc : c = '\n'
    · subst hc
      rw [splitLines_newline] at ha ⊢
      cases before with
      | nil => exact absurd (List.cons.inj ha).2 (splitLines_ne_nil as)
      | cons l before =>
        obtain ⟨rfl, htail⟩ := List.cons.inj ha
        rw [ih htail, List.cons_append]
    · rw [splitLines_cons_of_ne hc] at ha ⊢
      obtain ⟨l, ls, hl⟩ := exists_first_line as
      rw [hl, consLine] at ha
      cases before with
      | nil =>
        obtain ⟨rfl, rfl⟩ := List.cons.inj ha
        rw [ih (show splitLines as = [] ++ [_] from hl), List.nil_append, consLine]
        rfl
      | cons l' before =>
        obtain ⟨rfl, rfl⟩ := List.cons.inj ha
        rw [ih (show splitLines as = (l :: before) ++ [_] from hl)]
        rfl

theorem not_mem_of_mem_splitLines : ∀ {cs l : List Char}, l ∈ splitLines cs → '\n' ∉ l
  | [], l, h => by
    rw [splitLines, List.mem_singleton] at h
    exact h ▸ List.not_mem_nil
  | c :: cs, l, h => by
    by_cases hc : c = '\n'
    · subst hc
      rw [splitLines_newline] at h
      obtain rfl | h := List.mem_cons.mp h
      · exact List.not_mem_nil
      · exact not_mem_of_mem_splitLines h
    · rw [splitLines_cons_of_ne hc] at h
      obtain ⟨first, behind, hs⟩ := exists_first_line cs
      have hfirst : '\n' ∉ first := not_mem_of_mem_splitLines (hs ▸ List.mem_cons_self)
      rw [hs, consLine] at h
      obtain rfl | h := List.mem_cons.mp h
      · exact List.not_mem_cons_of_ne_of_not_mem (fun e => hc e.symm) hfirst
      · exact not_mem_of_mem_splitLines (hs ▸ List.mem_cons_of_mem _ h)

theorem splitLines_of_not_mem : ∀ {cs : List Char}, '\n' ∉ cs → splitLines cs = [cs]
  | [], _ => rfl
  | c :: cs, h => by
    obtain ⟨hc, hcs⟩ := List.ne_and_not_mem_of_not_mem_cons h
    rw [splitLines_cons_of_ne (fun e => hc e.symm), splitLines_of_not_mem hcs, consLine]

/-- A line without a newline in it, and what comes behind its newline. -/
theorem splitLines_line {as : List Char} (h : '\n' ∉ as) (bs : List Char) :
    splitLines (as ++ '\n' :: bs) = as :: splitLines bs := by
  have hs := splitLines_append (show splitLines as = [] ++ [as] from splitLines_of_not_mem h)
    (splitLines_newline bs)
  rwa [List.append_nil] at hs

/-- Each line counts with a newline, although the last has none. -/
theorem sum_length_splitLines : ∀ cs : List Char,
    ((splitLines cs).map (·.length + 1)).sum = cs.length + 1
  | [] => rfl
  | c :: cs => by
    have ih := sum_length_splitLines cs
    by_cases hc : c = '\n'
    · subst hc
      rw [splitLines_newline, List.map_cons, List.sum_cons, ih, List.length_cons, List.length_nil]
      omega
    · obtain ⟨first, behind, hs⟩ := exists_first_line cs
      rw [splitLines_cons_of_ne hc, hs, consLine]
      rw [hs] at ih
      simp only [List.map_cons, List.sum_cons, List.length_cons] at ih ⊢
      omega

theorem splitLines_concat_newline {cs last : List Char} {before : List (List Char)}
    (h : splitLines cs = before ++ [last]) :
    splitLines (cs ++ ['\n']) = (before ++ [last]) ++ [[]] := by
  rw [splitLines_append h (splitLines_newline []), List.append_nil, List.append_assoc]
  rfl

theorem splitLines_concat {cs last : List Char} {before : List (List Char)} {c : Char}
    (h : splitLines cs = before ++ [last]) (hc : c ≠ '\n') :
    splitLines (cs ++ [c]) = before ++ [last ++ [c]] :=
  splitLines_append h (splitLines_cons_of_ne hc [])

/-- A text grows in its last line, or by a newline behind which the next one begins. -/
@[elab_as_elim]
theorem splitLines_induction
    {motive : ∀ cs before last, splitLines cs = before ++ [last] → Prop} (nil : motive [] [] [] rfl)
    (newline : ∀ cs before last (h : splitLines cs = before ++ [last]), motive cs before last h →
      motive (cs ++ ['\n']) (before ++ [last]) [] (splitLines_concat_newline h))
    (other : ∀ cs before last c (hc : c ≠ '\n') (h : splitLines cs = before ++ [last]),
      motive cs before last h → motive (cs ++ [c]) before (last ++ [c]) (splitLines_concat h hc)) :
    ∀ cs before last (h : splitLines cs = before ++ [last]), motive cs before last h := by
  intro cs before last h
  induction cs using List.reverseRecOn generalizing before last with
  | nil =>
    cases before with
    | nil =>
      cases h
      exact nil
    | cons l before => cases before <;> cases h
  | append_singleton cs c ih =>
    obtain ⟨before', last', hcs⟩ := exists_last_line cs
    by_cases hc : c = '\n'
    · subst hc
      obtain ⟨rfl, hl⟩ := List.append_inj' (h.symm.trans (splitLines_concat_newline hcs)) rfl
      cases hl
      exact newline cs before' last' hcs (ih _ _ hcs)
    · obtain ⟨rfl, hl⟩ := List.append_inj' (h.symm.trans (splitLines_concat hcs hc)) rfl
      cases hl
      exact other cs before last' c hc hcs (ih _ _ hcs)

/-! ## Positions -/

/-- The position behind some characters is counted from their lines. -/
theorem foldl_next {cs last : List Char} {before : List (List Char)}
    (h : splitLines cs = before ++ [last]) :
    cs.foldl Position.next ⟨1, 1⟩ = ⟨before.length + 1, last.length + 1⟩ := by
  induction cs, before, last, h using splitLines_induction with
  | nil => rfl
  | newline cs before last _ ih =>
    rw [List.foldl_append, ih, List.foldl_cons, List.foldl_nil, Position.next, if_pos rfl,
      List.length_append]
    rfl
  | other cs before last c hc _ ih =>
    rw [List.foldl_append, ih, List.foldl_cons, List.foldl_nil, Position.next, if_neg hc,
      List.length_append]
    rfl

/-- **The line of a place**: `last` before the place and `first` from there on. What is before it in the
text is the lines above with their newlines and `last`, and its position says so. -/
theorem exists_line (t : Text) {o : Nat} (ho : o ≤ t.length) :
    ∃ above last first below, t.lines = above ++ (last ++ first) :: below ∧
      splitLines (t.toList.take o) = above ++ [last] ∧
      splitLines (t.toList.drop o) = first :: below ∧
      (above.map (·.length + 1)).sum + last.length = o ∧
      t.position o = ⟨above.length + 1, last.length + 1⟩ := by
  obtain ⟨above, last, hbefore⟩ := exists_last_line (t.toList.take o)
  obtain ⟨first, below, hbehind⟩ := exists_first_line (t.toList.drop o)
  refine ⟨above, last, first, below, ?_, hbefore, hbehind, ?_, ?_⟩
  · rw [lines, ← t.toList.take_append_drop o, splitLines_append hbefore hbehind]
  · have hsum := sum_length_splitLines (t.toList.take o)
    rw [hbefore, List.map_append, List.sum_append, List.length_take, length_toList] at hsum
    simp only [List.map_cons, List.map_nil, List.sum_cons, List.sum_nil] at hsum
    omega
  · rw [position, Int.toNat_natCast, Nat.min_eq_left ho, range_eq_drop_take, List.drop_zero,
      foldl_next hbefore]

/-- The line of a character that is no newline, and the position of the character. -/
theorem exists_line_of_getElem? {t : Text} {o : Nat} {c : Char} (hc : t.toList[o]? = some c)
    (hn : c ≠ '\n') : ∃ above before behind below,
      t.lines = above ++ (before ++ c :: behind) :: below ∧
      (above.map (·.length + 1)).sum + before.length = o ∧
      t.position o = ⟨above.length + 1, before.length + 1⟩ := by
  obtain ⟨ho, hget⟩ := List.getElem?_eq_some_iff.mp hc
  obtain ⟨above, before, first, below, hlines, -, hdrop, hsum, hpos⟩ :=
    t.exists_line (Nat.le_of_lt ho)
  obtain ⟨l, ls, hl⟩ := exists_first_line (t.toList.drop (o + 1))
  rw [List.drop_eq_getElem_cons ho, hget, splitLines_cons_of_ne hn, hl, consLine] at hdrop
  obtain ⟨rfl, rfl⟩ := List.cons.inj hdrop
  exact ⟨above, before, l, ls, hlines, hsum, hpos⟩

theorem line_natCast (t : Text) {above below : List (List Char)} {l : List Char}
    (h : t.lines = above ++ l :: below) :
    t.line (above.length + 1 : Nat) = trimEnd (· == '\r') l := by
  have hn : ((above.length + 1 : Nat) : Int).toNat - 1 = above.length := rfl
  rw [line, if_neg (by omega), hn, h, List.getD_eq_getElem?_getD,
    List.getElem?_append_right (Nat.le_refl _), Nat.sub_self]
  rfl

end Text

/-! ## Ends of lines -/

variable {p : Char → Bool}

/-- Nothing is dropped up to a character that is not to be dropped. -/
theorem trimEnd_append_cons {c : Char} (hc : p c = false) (as bs : List Char) :
    trimEnd p (as ++ c :: bs) = as ++ c :: trimEnd p bs := by
  have hcons : (c :: as.reverse).dropWhile p = c :: as.reverse :=
    List.dropWhile_cons_of_neg (Bool.eq_false_iff.mp hc)
  rw [trimEnd, List.reverse_append, List.reverse_cons, List.append_assoc, List.singleton_append,
    List.dropWhile_append, hcons, trimEnd]
  split
  · next he =>
    rw [List.isEmpty_iff.mp he]
    simp
  · simp

/-- All of an end is dropped if each of its characters is to be dropped. -/
theorem trimEnd_append_of_forall {as bs : List Char} (h : ∀ b ∈ bs, p b = true) :
    trimEnd p (as ++ bs) = trimEnd p as := by
  rw [trimEnd, List.reverse_append,
    List.dropWhile_append_of_pos fun b hb => h b (List.mem_reverse.mp hb), trimEnd]

/-- What is left ends in a character that is not to be dropped. -/
theorem trimEnd_eq_nil_or (cs : List Char) :
    trimEnd p cs = [] ∨ ∃ as z, trimEnd p cs = as ++ [z] ∧ p z = false := by
  rw [trimEnd]
  cases h : cs.reverse.dropWhile p with
  | nil => exact Or.inl rfl
  | cons z as =>
    refine Or.inr ⟨as.reverse, z, List.reverse_cons, ?_⟩
    simpa [h] using List.head_dropWhile_not p (l := cs.reverse) (by simp [h])

theorem prefix_trimEnd (cs : List Char) : trimEnd p cs <+: cs := by
  have h := List.reverse_prefix.mpr (List.dropWhile_suffix p (l := cs.reverse))
  rwa [List.reverse_reverse] at h

end Outline
