import Outline.Pattern

/-!
# Where a match ends

A regular expression moves forward and never beyond the end of what it is tried on, so that a match ends
behind the place where it was tried and within the stretch.

* `Subject.Reaches`: the rest is tried at a place further on, and that is where the result comes from;
* `reaches_backOff`, `reaches_creep`, `reaches_rounds`: repetitions;
* `Regex.reaches_run`, **`Pattern.bounds_of_matchAt`**: expressions, and the end of a match.
-/

namespace Outline

namespace Subject

variable {s : Subject} {i e : Nat} {rest : Rest}

/-- The result is that of the rest at some place from `i` on, the end of the subject included. -/
def Reaches (s : Subject) (i : Nat) (rest : Rest) (e : Nat) : Prop :=
  ∃ j, i ≤ j ∧ j ≤ s.stop ∧ rest j = some e

theorem Reaches.here (hi : i ≤ s.stop) (h : rest i = some e) : s.Reaches i rest e :=
  ⟨i, Nat.le_refl i, hi, h⟩

theorem Reaches.later {j : Nat} (hj : i ≤ j) (h : s.Reaches j rest e) : s.Reaches i rest e := by
  obtain ⟨k, hk, hs, he⟩ := h
  exact ⟨k, Nat.le_trans hj hk, hs, he⟩

/-- What reaches a rest that reaches a further one reaches the latter. -/
theorem Reaches.trans {next : Rest} (h : s.Reaches i next e)
    (hn : ∀ j, i ≤ j → j ≤ s.stop → next j = some e → s.Reaches j rest e) : s.Reaches i rest e := by
  obtain ⟨j, hj, hs, he⟩ := h
  exact (hn j hj hs he).later hj

theorem lt_of_charAt {p : Char → Bool} (h : (s.charAt i).any p = true) : i < s.stop := by
  unfold charAt at h
  split at h
  · assumption
  · cases h

theorem runOf_le (set : CharSet) : ∀ (limit count : Nat) {i : Nat}, i ≤ s.stop →
    s.runOf set limit i count + i ≤ s.stop + count
  | 0, count, i, hi => by
    rw [runOf]
    omega
  | limit + 1, count, i, hi => by
    rw [runOf]
    split
    · rename_i hc
      have hi' : i + 1 ≤ s.stop := lt_of_charAt hc
      have hle := runOf_le set limit (count + 1) hi'
      omega
    · omega

end Subject

variable {s : Subject} {i e min : Nat} {rest : Rest}

/-! ## Repetitions -/

theorem reaches_backOff : ∀ {count : Nat}, i + count ≤ s.stop → backOff rest i min count = some e →
    s.Reaches i rest e
  | 0, hi, h => by
    rw [backOff] at h
    split at h
    · exact .here hi h
    · cases h
  | count + 1, hi, h => by
    rw [backOff] at h
    split at h
    · cases h
    · split at h
      · rename_i hr
        cases h
        exact ⟨_, Nat.le_add_right i _, hi, hr⟩
      · exact reaches_backOff (by omega) h

theorem reaches_creep : ∀ {count i : Nat}, i + count ≤ s.stop → creep rest count i = some e →
    s.Reaches i rest e
  | 0, i, hi, h => .here hi h
  | count + 1, i, hi, h => by
    rw [creep] at h
    split at h
    · rename_i hr
      cases h
      exact .here (by omega) hr
    · exact (reaches_creep (by omega) h).later (Nat.le_succ i)

/-- Rounds of a body that moves forward move forward. -/
theorem reaches_rounds {greedy : Bool} {max : Option Nat} {body : Nat → Rest → Option Nat}
    (hb : ∀ {i e : Nat} {next : Rest}, i ≤ s.stop → body i next = some e → s.Reaches i next e) :
    ∀ {fuel count i : Nat} {last : Option Nat}, i ≤ s.stop →
      rounds greedy min max body rest fuel count last i = some e → s.Reaches i rest e
  | 0, _, _, _, _, h => by cases h
  | fuel + 1, count, i, last, hi, h => by
    have hround : ∀ last, body i (rounds greedy min max body rest fuel (count + 1) last) = some e →
        s.Reaches i rest e :=
      fun last h => (hb hi h).trans fun j _ hj hr => reaches_rounds hb hj hr
    have hagain : (if (max.all (count < ·) && last != some i) = true then
        body i (rounds greedy min max body rest fuel (count + 1) (some i)) else none) = some e →
          s.Reaches i rest e := by
      intro h
      split at h
      · exact hround _ h
      · cases h
    rw [rounds] at h
    split at h
    · exact hround _ h
    · simp only at h
      cases greedy with
      | true =>
        simp only [if_true] at h
        split at h
        · rename_i hr
          cases h
          exact hagain hr
        · exact .here hi h
      | false =>
        simp only [Bool.false_eq_true, if_false] at h
        split at h
        · rename_i hr
          cases h
          exact .here hi hr
        · exact hagain h

/-! ## Expressions -/

namespace Regex

/-- A repetition of more than a character goes round by round. -/
theorem run_repeated {appetite : Appetite} {max : Option Nat} {a : Regex}
    (ha : ∀ set, a ≠ .one set) :
    run s (.repeated appetite min max a) i rest = match appetite with
      | .greedy => rounds true min max (run s a) rest (roundsBound s min i) 0 none i
      | .lazy => rounds false min max (run s a) rest (roundsBound s min i) 0 none i
      | .possessive => (rounds true min max (fun j next => (run s a j some).bind next) some
          (roundsBound s min i) 0 none i).bind rest := by
  cases a <;> first | exact absurd rfl (ha _) | rfl

/-- Only the first match of an expression counts, and the rest goes on behind it. -/
theorem reaches_bind {m : Option Nat} (hm : ∀ {j}, m = some j → s.Reaches i some j)
    (h : m.bind rest = some e) : s.Reaches i rest e := by
  obtain ⟨j, hj, hr⟩ := Option.bind_eq_some_iff.mp h
  obtain ⟨k, hk, hs, hkj⟩ := hm hj
  cases hkj
  exact ⟨j, hk, hs, hr⟩

/-- Whatever an expression does, the result comes from the rest at a place further on. -/
theorem reaches_run (r : Regex) : ∀ {i e : Nat} {rest : Rest}, i ≤ s.stop →
    run s r i rest = some e → s.Reaches i rest e := by
  induction r with
  | empty => exact fun hi h => .here hi h
  | one set =>
    intro i e rest hi h
    rw [run] at h
    split at h
    · rename_i hc
      exact ⟨i + 1, Nat.le_succ i, Subject.lt_of_charAt hc, h⟩
    · cases h
  | anchor a =>
    intro i e rest hi h
    rw [run] at h
    split at h
    · exact .here hi h
    · cases h
  | seq a b iha ihb => exact fun hi h => (iha hi h).trans fun j _ hj hr => ihb hj hr
  | either a b iha ihb =>
    intro i e rest hi h
    rw [run] at h
    split at h
    · rename_i hr
      cases h
      exact iha hi hr
    · exact ihb hi h
  | group a ih => exact fun hi h => ih hi h
  | atomic a ih => exact fun hi h => reaches_bind (fun hj => ih hi hj) h
  | ahead negated a ih =>
    intro i e rest hi h
    rw [run] at h
    split at h
    · exact .here hi h
    · cases h
  | behind negated a ih =>
    intro i e rest hi h
    rw [run] at h
    split at h
    · exact .here hi h
    · cases h
  | repeated appetite min max a ih =>
    intro i e rest hi h
    by_cases hone : ∃ set, a = .one set
    · obtain ⟨set, rfl⟩ := hone
      have hle := Subject.runOf_le set (max.getD (s.stop - i)) 0 hi
      cases appetite with
      | greedy => exact reaches_backOff (by omega) h
      | lazy =>
        simp only [run] at h
        split at h
        · cases h
        · exact (reaches_creep (by omega) h).later (Nat.le_add_right i min)
      | possessive =>
        simp only [run] at h
        split at h
        · cases h
        · exact ⟨_, Nat.le_add_right i _, by omega, h⟩
    · rw [run_repeated fun set hset => hone ⟨set, hset⟩] at h
      cases appetite with
      | greedy => exact reaches_rounds ih hi h
      | lazy => exact reaches_rounds ih hi h
      | possessive =>
        refine reaches_bind (fun hj => reaches_rounds (fun hi hr => ?_) hi hj) h
        exact reaches_bind (fun hj => ih hi hj) hr

end Regex

/-- **A match ends behind the offset where it was tried, and within the stretch.** -/
theorem Pattern.bounds_of_matchAt {p : Pattern} {t : Text} {i stop e : Nat} (hi : i ≤ stop)
    (ht : stop ≤ t.length) (h : p.matchAt t i stop = some e) : i ≤ e ∧ e ≤ stop := by
  have hmin : Nat.min stop t.length = stop := Nat.min_eq_left ht
  unfold matchAt at h
  obtain ⟨j, hj, hs, he⟩ := Regex.reaches_run p.regex (show i ≤ Nat.min stop t.length by omega) h
  cases he
  exact ⟨hj, Nat.le_trans hs (Nat.min_le_left _ _)⟩

end Outline
