/-!
# Ranges of characters

A property of characters is a list of ranges of code points in ascending order.

* `Range`, `Range.within`: the ranges and the look-up in them;
* `Range.within_iff`: a code point is found exactly if one of the ranges holds it.
-/

namespace Outline.Unicode

/-- The code points from the first to the second, both included. -/
abbrev Range : Type := Nat × Nat

namespace Range

/-- Whether one of the ranges, listed in ascending order, holds the code point. -/
def within (n : Nat) : List Range → Bool
  | [] => false
  | (lo, hi) :: rest => if n < lo then false else decide (n ≤ hi) || within n rest

/-- The ranges are in ascending order. -/
def Ascending : List Range → Prop
  | [] => True
  | (_, hi) :: rest => (∀ r ∈ rest, hi < r.1) ∧ Ascending rest

theorem within_iff {n : Nat} : ∀ {rs : List Range}, (∀ r ∈ rs, r.1 ≤ r.2) → Ascending rs →
    (within n rs = true ↔ ∃ r ∈ rs, r.1 ≤ n ∧ n ≤ r.2)
  | [], _, _ => by simp [within]
  | (lo, hi) :: rest, hle, hasc => by
    have hlo : lo ≤ hi := hle (lo, hi) List.mem_cons_self
    have ih := within_iff (n := n) (fun r hr => hle r (List.mem_cons_of_mem _ hr)) hasc.2
    by_cases h : n < lo
    · simp only [within, if_pos h, Bool.false_eq_true, List.mem_cons, exists_eq_or_imp, false_iff,
        not_or, not_exists, not_and]
      refine ⟨fun h1 _ => absurd h1 (by omega), fun r hr h1 => ?_⟩
      have := hasc.1 r hr
      omega
    · simp only [within, if_neg h, Bool.or_eq_true, decide_eq_true_eq, ih, List.mem_cons,
        exists_eq_or_imp]
      exact or_congr ⟨fun h1 => ⟨by omega, h1⟩, fun h1 => h1.2⟩ Iff.rfl

end Range

end Outline.Unicode
