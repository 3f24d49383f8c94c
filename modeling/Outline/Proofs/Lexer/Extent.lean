import Outline.Lexer.Extent
import Outline.Text

/-!
# Constructs and the end of the stretch

A comment, a string or a symbol that ends within a part of a stretch is the same when the part is all
there is: what comes behind it decides nothing.

* `Text.charAt`, `Text.range_eq_cons`, `Text.take_range`: a stretch, character by character;
* `findMark_take`, `stringEnd_take`, `Alphabet.commentAt_take`, `commentEnd_take`: constructs in the
  first characters alone;
* `stringEnd_bounds`, `commentEnd_bounds`: where they end.
-/

namespace Outline

/-! ## Stretches -/

namespace Text

variable {t : Text} {i stop : Nat}

/-- The character at an offset. -/
def charAt (t : Text) (i : Nat) : Char := t.chars.getD i default

theorem range_eq_nil (h : stop ≤ i) : t.range i stop = [] := by
  apply List.eq_nil_of_length_eq_zero
  rw [length_range]
  omega

theorem range_eq_nil_of_length_le (h : t.length ≤ i) : t.range i stop = [] := by
  apply List.eq_nil_of_length_eq_zero
  rw [length_range]
  omega

theorem range_cons (h : i < stop) (hl : i < t.length) :
    t.range i stop = t.charAt i :: t.range (i + 1) stop := by
  have hi : i < t.toList.length := hl
  have hi' : i < (t.toList.take stop).length := by rw [List.length_take]; omega
  have hc : t.toList[i] = t.charAt i := by
    have ht' : i < t.chars.size := hi
    simp [charAt, toList, ht']
  rw [range_eq_drop_take, range_eq_drop_take, List.drop_eq_getElem_cons hi', List.getElem_take, hc]

theorem range_eq_cons (h : i < stop) (ht : stop ≤ t.length) :
    t.range i stop = t.charAt i :: t.range (i + 1) stop := range_cons h (by omega)

theorem length_range_le (h : i ≤ stop) : i + (t.range i stop).length ≤ stop := by
  rw [length_range]
  omega

theorem take_range {b : Nat} (hb : b ≤ stop) : (t.range i stop).take (b - i) = t.range i b := by
  rw [range_eq_drop_take, range_eq_drop_take, List.drop_take, List.drop_take, List.take_take,
    Nat.min_eq_left (by omega)]

theorem length_range_of_le (ht : stop ≤ t.length) : (t.range i stop).length = stop - i := by
  rw [length_range, Nat.min_eq_left ht]

end Text

/-! ## Marks -/

theorem findMark_bounds {mark : List Char} : ∀ {i j : Nat} {cs : List Char},
    findMark mark i cs = some j → i ≤ j ∧ j + mark.length ≤ i + cs.length
  | i, j, [], h => by
    unfold findMark at h
    split at h
    · rename_i hm
      cases h
      rw [List.isEmpty_iff.mp hm]
      exact ⟨Nat.le_refl _, Nat.le_refl _⟩
    · cases h
  | i, j, c :: cs, h => by
    unfold findMark at h
    split at h
    · rename_i hm
      cases h
      have hl := (List.isPrefixOf_iff_prefix.mp hm).length_le
      exact ⟨Nat.le_refl _, by omega⟩
    · have hb := findMark_bounds h
      rw [List.length_cons]
      omega

/-- Marks that are short enough stand at the start just if they do so in the first characters. -/
theorem isPrefixOf_take {mark cs : List Char} {n : Nat} (h : mark.length ≤ n) :
    mark.isPrefixOf (cs.take n) = mark.isPrefixOf cs := by
  rw [Bool.eq_iff_iff, List.isPrefixOf_iff_prefix, List.isPrefixOf_iff_prefix, List.prefix_take_iff]
  simp [h]

theorem isPrefixOf_of_take {mark cs : List Char} {n : Nat}
    (h : mark.isPrefixOf (cs.take n) = true) : mark.isPrefixOf cs = true := by
  rw [List.isPrefixOf_iff_prefix] at h ⊢
  exact h.trans (List.take_prefix n cs)

/-- The marks are found in the first characters, if they end there. -/
theorem findMark_take {mark : List Char} : ∀ {i j n : Nat} {cs : List Char},
    findMark mark i cs = some j → j + mark.length ≤ i + n →
      findMark mark i (cs.take n) = some j
  | i, j, n, [], h, _ => by rwa [List.take_nil]
  | i, j, n, c :: cs, h, hn => by
    have hb := findMark_bounds h
    have hp : mark.isPrefixOf ((c :: cs).take n) = mark.isPrefixOf (c :: cs) := isPrefixOf_take (by omega)
    unfold findMark at h
    by_cases hm : mark.isPrefixOf (c :: cs) = true
    · rw [if_pos hm] at h
      cases h
      cases n with
      | zero =>
        have he : mark = [] := List.eq_nil_of_length_eq_zero (by omega)
        simp [findMark, he]
      | succ n =>
        rw [hm, List.take_succ_cons] at hp
        rw [List.take_succ_cons, findMark, if_pos hp]
    · rw [if_neg hm] at h
      have hb' := findMark_bounds h
      obtain ⟨n, rfl⟩ : ∃ m, n = m + 1 := ⟨n - 1, by omega⟩
      rw [List.take_succ_cons] at hp ⊢
      rw [findMark, hp, if_neg hm]
      exact findMark_take h (by omega)

/-- Marks found in the first characters are the first in all of them. -/
theorem findMark_of_take {mark : List Char} : ∀ {i j n : Nat} {cs : List Char},
    findMark mark i (cs.take n) = some j → findMark mark i cs = some j
  | i, j, n, [], h => by rwa [List.take_nil] at h
  | i, j, 0, c :: cs, h => by
    have hb := findMark_bounds h
    rw [List.take_zero, findMark] at h
    split at h
    · rename_i hm
      cases h
      simp [findMark, List.isEmpty_iff.mp hm]
    · cases h
  | i, j, n + 1, c :: cs, h => by
    have hb := findMark_bounds h
    have hl : mark.length ≤ n + 1 := by
      have := List.length_take_le (n + 1) (c :: cs)
      omega
    have hp : mark.isPrefixOf ((c :: cs).take (n + 1)) = mark.isPrefixOf (c :: cs) := isPrefixOf_take hl
    rw [List.take_succ_cons] at h hp
    unfold findMark at h ⊢
    rw [hp] at h
    by_cases hm : mark.isPrefixOf (c :: cs) = true
    · rwa [if_pos hm] at h ⊢
    · rw [if_neg hm] at h ⊢
      exact findMark_of_take h

/-! ## Comments -/

namespace Alphabet

variable {a : Alphabet} {cs : List Char} {k : Comment}

/-- The comment with the longest opener comes before those with openers as long. -/
theorem longestOpener_eq_some : ∀ {ks : List Comment} {k : Comment}, longestOpener ks = some k →
    ∃ before behind, ks = before ++ k :: behind ∧
      (∀ d ∈ before, d.opener.length < k.opener.length) ∧
        ∀ d ∈ behind, d.opener.length ≤ k.opener.length
  | [], _, h => by cases h
  | d :: ds, k, h => by
    rw [longestOpener] at h
    cases hr : longestOpener ds with
    | none =>
      rw [hr] at h
      cases h
      cases ds with
      | nil => exact ⟨[], [], rfl, by simp, by simp⟩
      | cons e es =>
        rw [longestOpener] at hr
        split at hr
        · split at hr <;> cases hr
        · cases hr
    | some e =>
      rw [hr] at h
      obtain ⟨before, behind, rfl, hb, ha⟩ := longestOpener_eq_some hr
      simp only at h
      split at h
      · rename_i hlt
        cases h
        exact ⟨d :: before, behind, rfl, List.forall_mem_cons.mpr ⟨hlt, hb⟩, ha⟩
      · rename_i hle
        cases h
        refine ⟨[], before ++ e :: behind, rfl, by simp, fun x hx => ?_⟩
        obtain hx | hx := List.mem_append.mp hx
        · have := hb x hx
          omega
        · obtain rfl | hx := List.mem_cons.mp hx
          · omega
          · have := ha x hx
            omega

theorem longestOpener_append : ∀ {before behind : List Comment} {k : Comment},
    (∀ d ∈ before, d.opener.length < k.opener.length) →
      (∀ d ∈ behind, d.opener.length ≤ k.opener.length) →
        longestOpener (before ++ k :: behind) = some k
  | [], behind, k, _, ha => by
    rw [List.nil_append, longestOpener]
    cases hr : longestOpener behind with
    | none => rfl
    | some d =>
      have := ha d (longestOpener_mem hr)
      simp only
      rw [if_neg (by omega)]
  | d :: before, behind, k, hb, ha => by
    obtain ⟨hd, hb⟩ := List.forall_mem_cons.mp hb
    rw [List.cons_append, longestOpener, longestOpener_append hb ha]
    simp only
    rw [if_pos hd]

/-- A comment starts in the first characters as it does in all of them, if its opener ends there. -/
theorem commentAt_take {n : Nat} (h : a.commentAt cs = some k) (hn : k.opener.length ≤ n) :
    a.commentAt (cs.take n) = some k := by
  obtain ⟨before, behind, hs, hb, ha⟩ := longestOpener_eq_some h
  have hk : k.opener.isPrefixOf (cs.take n) = true := by
    rw [isPrefixOf_take hn]
    exact (commentAt_mem h).2
  have hf : a.comments.filter (·.opener.isPrefixOf (cs.take n)) =
      (a.comments.filter (·.opener.isPrefixOf cs)).filter (·.opener.isPrefixOf (cs.take n)) := by
    rw [List.filter_filter]
    congr 1
    funext d
    cases hd : d.opener.isPrefixOf (cs.take n) with
    | false => simp
    | true => simp [isPrefixOf_of_take hd]
  have hcons : (k :: behind).filter (·.opener.isPrefixOf (cs.take n)) =
      k :: behind.filter (·.opener.isPrefixOf (cs.take n)) := List.filter_cons_of_pos hk
  rw [commentAt, hf, hs, List.filter_append, hcons]
  exact longestOpener_append (fun d hd => hb d (List.mem_filter.mp hd).1)
    fun d hd => ha d (List.mem_filter.mp hd).1

theorem commentAt_eq_none_iff :
    a.commentAt cs = none ↔ ∀ k ∈ a.comments, k.opener.isPrefixOf cs = false := by
  have hnone : ∀ ks : List Comment, longestOpener ks = none ↔ ks = [] := fun ks => by
    cases ks with
    | nil => simp [longestOpener]
    | cons k ks =>
      rw [longestOpener]
      split
      · split <;> simp
      · simp
  rw [commentAt, hnone, List.filter_eq_nil_iff]
  simp only [Bool.not_eq_true]

theorem commentAt_take_none {n : Nat} (h : a.commentAt cs = none) :
    a.commentAt (cs.take n) = none := by
  rw [commentAt_eq_none_iff] at h ⊢
  intro k hk
  cases hp : k.opener.isPrefixOf (cs.take n) with
  | false => rfl
  | true =>
    have hf := h k hk
    rw [isPrefixOf_of_take hp] at hf
    cases hf

/-- All comments have an opener. -/
def Marked (a : Alphabet) : Prop := ∀ k ∈ a.comments, k.opener ≠ []

end Alphabet

theorem commentEnd_bounds {k : Comment} {stop i j : Nat} {cs : List Char}
    (h : commentEnd k stop i cs = .ok j) (hs : i + cs.length ≤ stop)
    (hk : k.opener.isPrefixOf cs = true) : i + k.opener.length ≤ j ∧ j ≤ stop := by
  have hl := (List.isPrefixOf_iff_prefix.mp hk).length_le
  unfold commentEnd at h
  simp only at h
  cases hm : findMark k.closer (i + k.opener.length) (cs.drop k.opener.length) with
  | some m =>
    have hb := findMark_bounds hm
    rw [List.length_drop] at hb
    rw [hm] at h
    cases h
    split <;> omega
  | none =>
    rw [hm] at h
    simp only at h
    split at h <;> cases h
    omega

/-- A comment ends in the first characters where it ends in all of them, if it does so there. -/
theorem commentEnd_take {k : Comment} {stop b i j : Nat} {cs : List Char}
    (h : commentEnd k stop i cs = .ok j) (hs : i + cs.length = stop)
    (hk : k.opener.isPrefixOf cs = true) (hj : j ≤ b) (hb : b ≤ stop) :
    commentEnd k b i (cs.take (b - i)) = .ok j := by
  have hbounds := commentEnd_bounds h (Nat.le_of_eq hs) hk
  have hdrop : (cs.take (b - i)).drop k.opener.length =
      (cs.drop k.opener.length).take (b - i - k.opener.length) := List.drop_take
  unfold commentEnd at h ⊢
  simp only at h ⊢
  rw [hdrop]
  cases hm : findMark k.closer (i + k.opener.length) (cs.drop k.opener.length) with
  | some m =>
    rw [hm] at h
    by_cases hin : m + k.closer.length ≤ b
    · rw [findMark_take hm (by omega)]
      exact h
    · -- only the newline behind a comment that takes the rest of its line can be cut off
      by_cases hline : k.isLine = true
      · have hlen : k.closer.length = 1 := by
          have hc : k.closer = ['\n'] := by simpa [Comment.isLine] using hline
          rw [hc]
          rfl
        simp only [hline, if_true] at h ⊢
        cases h
        cases ht : findMark k.closer (i + k.opener.length)
            ((cs.drop k.opener.length).take (b - i - k.opener.length)) with
        | some m' =>
          rw [findMark_of_take ht] at hm
          cases hm
          rfl
        | none => exact congrArg Except.ok (by omega)
      · simp only [if_neg hline] at h
        cases h
        omega
  | none =>
    rw [hm] at h
    cases ht : findMark k.closer (i + k.opener.length)
        ((cs.drop k.opener.length).take (b - i - k.opener.length)) with
    | some m' =>
      rw [findMark_of_take ht] at hm
      cases hm
    | none =>
      simp only at h ⊢
      split at h
      · rename_i hline
        cases h
        rw [if_pos hline]
        exact congrArg Except.ok (by omega)
      · cases h

/-! ## Strings and symbols -/

theorem ranOut_ne_ok {stop i opening j : Nat} {fault : LexFault} :
    ranOut stop i opening fault ≠ .ok j := by
  unfold ranOut
  split <;> simp

section StringEnd

variable {a : Alphabet} {stop b opening : Nat} {q : Char}

theorem stringEnd_cons {i : Nat} {c : Char} {cs : List Char} (he : ¬ a.escapes.contains c = true) :
    stringEnd a stop opening q i (c :: cs) =
      if c = q then .ok (i + 1) else stringEnd a stop opening q (i + 1) cs := by
  rw [stringEnd.eq_def]
  simp only [if_neg he]

theorem stringEnd_bounds : ∀ {i j : Nat} {cs : List Char},
    stringEnd a stop opening q i cs = .ok j → i < j ∧ j ≤ i + cs.length
  | i, j, [], h => by
    rw [stringEnd] at h
    exact absurd h ranOut_ne_ok
  | i, j, c :: cs, h => by
    by_cases he : a.escapes.contains c = true
    · cases cs with
      | nil =>
        rw [stringEnd, if_pos he] at h
        exact absurd h ranOut_ne_ok
      | cons d cs =>
        rw [stringEnd, if_pos he] at h
        have hb := stringEnd_bounds h
        simp only [List.length_cons]
        omega
    · by_cases hq : c = q
      · rw [stringEnd_cons he, if_pos hq] at h
        cases h
        simp only [List.length_cons]
        omega
      · rw [stringEnd_cons he, if_neg hq] at h
        have hb := stringEnd_bounds h
        simp only [List.length_cons]
        omega

/-- A string ends in the first characters where it ends in all of them, if it does so there. -/
theorem stringEnd_take : ∀ {i j n : Nat} {cs : List Char},
    stringEnd a stop opening q i cs = .ok j → j ≤ i + n →
      stringEnd a b opening q i (cs.take n) = .ok j
  | i, j, n, [], h, _ => by
    rw [stringEnd] at h
    exact absurd h ranOut_ne_ok
  | i, j, n, c :: cs, h, hn => by
    have hb := stringEnd_bounds h
    obtain ⟨n, rfl⟩ : ∃ m, n = m + 1 := ⟨n - 1, by omega⟩
    rw [List.take_succ_cons]
    by_cases he : a.escapes.contains c = true
    · cases cs with
      | nil =>
        rw [stringEnd, if_pos he] at h
        exact absurd h ranOut_ne_ok
      | cons d cs =>
        rw [stringEnd, if_pos he] at h
        have hb' := stringEnd_bounds h
        obtain ⟨n, rfl⟩ : ∃ m, n = m + 1 := ⟨n - 1, by omega⟩
        rw [List.take_succ_cons, stringEnd, if_pos he]
        exact stringEnd_take h (by omega)
    · by_cases hq : c = q
      · rw [stringEnd_cons he, if_pos hq] at h ⊢
        exact h
      · rw [stringEnd_cons he, if_neg hq] at h ⊢
        exact stringEnd_take h (by omega)

end StringEnd

theorem takeWhile_take {p : Char → Bool} : ∀ {n : Nat} {cs : List Char},
    (cs.takeWhile p).length ≤ n → (cs.take n).takeWhile p = cs.takeWhile p
  | n, [], _ => by rw [List.take_nil]
  | 0, c :: cs, h => by
    rw [List.take_zero, List.eq_nil_of_length_eq_zero (Nat.le_zero.mp h)]
    rfl
  | n + 1, c :: cs, h => by
    rw [List.take_succ_cons]
    by_cases hc : p c = true
    · rw [List.takeWhile_cons_of_pos hc] at h ⊢
      rw [List.takeWhile_cons_of_pos hc, takeWhile_take (by simpa using h)]
    · rw [List.takeWhile_cons_of_neg hc, List.takeWhile_cons_of_neg hc]

end Outline
