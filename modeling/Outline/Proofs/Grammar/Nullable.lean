import Mathlib.Data.List.Nodup
import Mathlib.Data.List.Perm.Subperm
import Outline.Grammar.Nullable

/-!
# The rules that match without reading

The passes over the rules end with just the rules that can match without reading anything.

* `Grammar.Valid`: what every pass keeps of the names that are known;
* `Grammar.Passes`: the passes one after the other; `Grammar.passes_nullable`: how many there are;
* `Grammar.closed_nullable`: one more pass would add nothing;
* **`Grammar.mem_nullable_iff`**: the nullable rules are the derivable ones.
-/

namespace Outline

theorem Alternative.allOf_iff {known : List String} {a : Alternative} :
    a.allOf known = true ↔ ∃ names : List String, names ⊆ known ∧ a.items = names.map Item.rule := by
  unfold allOf
  generalize a.items = is
  constructor
  · intro h
    induction is with
    | nil => exact ⟨[], List.nil_subset _, rfl⟩
    | cons i is ih =>
      rw [List.all_cons, Bool.and_eq_true] at h
      obtain ⟨names, hn, rfl⟩ := ih h.2
      cases i with
      | terminal t => cases h.1
      | rule name =>
        exact ⟨name :: names, List.cons_subset.mpr ⟨by simpa using h.1, hn⟩, rfl⟩
  · rintro ⟨names, hn, rfl⟩
    simpa [List.all_eq_true] using fun name h => hn h

namespace Grammar

variable {g : Grammar} {known : List String}

/-! ## One pass -/

theorem addNullable_cases (known : List String) (r : Rule) :
    addNullable known r = known ∧
        (r.name ∈ known ∨ ∀ a ∈ r.alternatives, a.allOf known = false) ∨
      addNullable known r = known ++ [r.name] ∧ r.name ∉ known ∧
        ∃ a ∈ r.alternatives, a.allOf known = true := by
  unfold addNullable
  by_cases hk : r.name ∈ known
  · rw [if_pos (by simpa using hk)]
    exact Or.inl ⟨rfl, Or.inl hk⟩
  · rw [if_neg (by simpa using hk)]
    by_cases ha : r.alternatives.any (·.allOf known) = true
    · rw [if_pos ha]
      exact Or.inr ⟨rfl, hk, by simpa using ha⟩
    · rw [if_neg ha]
      exact Or.inl ⟨rfl, Or.inr (by simpa using ha)⟩

theorem prefix_addNullable (known : List String) (r : Rule) : known <+: addNullable known r := by
  obtain ⟨h, -⟩ | ⟨h, -⟩ := addNullable_cases known r
  · exact h.symm ▸ List.prefix_rfl
  · exact h.symm ▸ List.prefix_append _ _

theorem prefix_foldl_addNullable :
    ∀ (rs : List Rule) (known : List String), known <+: rs.foldl addNullable known
  | [], _ => List.prefix_rfl
  | r :: rs, known => (prefix_addNullable known r).trans (prefix_foldl_addNullable rs _)

/-- A pass that adds nothing has found no rule to add. -/
theorem addNullable_of_foldl : ∀ {rs : List Rule}, rs.foldl addNullable known = known →
    ∀ r ∈ rs, addNullable known r = known
  | [], _, _, hr => absurd hr List.not_mem_nil
  | s :: rs, h, r, hr => by
    have hs : addNullable known s = known := by
      refine ((prefix_addNullable known s).eq_of_length ?_).symm
      have h1 := (prefix_addNullable known s).length_le
      have h2 := (prefix_foldl_addNullable rs (addNullable known s)).length_le
      rw [List.foldl_cons] at h
      rw [h] at h2
      omega
    obtain rfl | hr := List.mem_cons.mp hr
    · exact hs
    · rw [List.foldl_cons, hs] at h
      exact addNullable_of_foldl h r hr

/-! ## All passes -/

/-- Names that are known: different names of rules, each of a rule that can match without reading. -/
structure Valid (g : Grammar) (known : List String) : Prop where
  nodup : known.Nodup
  subset : known ⊆ g.names
  derives : ∀ name ∈ known, g.Derives name

theorem Valid.addNullable (h : g.Valid known) {r : Rule} (hr : r ∈ g.rules) :
    g.Valid (addNullable known r) := by
  obtain ⟨he, -⟩ | ⟨he, hn, a, ha, hall⟩ := addNullable_cases known r
  · rwa [he]
  · obtain ⟨names, hk, hi⟩ := Alternative.allOf_iff.mp hall
    have hd : g.Derives r.name := .intro hr ha hi fun n hn => h.derives n (hk hn)
    rw [he]
    refine ⟨?_, ?_, ?_⟩
    · rw [← List.concat_eq_append]
      exact List.Nodup.concat hn h.nodup
    · exact List.append_subset.mpr
        ⟨h.subset, List.cons_subset.mpr ⟨List.mem_map_of_mem hr, List.nil_subset _⟩⟩
    · intro n hn
      obtain hn | hn := List.mem_append.mp hn
      · exact h.derives n hn
      · rw [List.mem_singleton.mp hn]
        exact hd

theorem Valid.foldl : ∀ {rs : List Rule} {known : List String}, g.Valid known → rs ⊆ g.rules →
    g.Valid (rs.foldl Grammar.addNullable known)
  | [], _, h, _ => h
  | _ :: _, _, h, hs =>
    (h.addNullable (List.cons_subset.mp hs).1).foldl (List.cons_subset.mp hs).2

theorem Valid.pass (h : g.Valid known) : g.Valid (g.nullablePass known) :=
  h.foldl (List.Subset.refl _)

theorem Valid.length_le (h : g.Valid known) : known.length ≤ g.rules.length := by
  have hle := (List.subperm_of_subset h.nodup h.subset).length_le
  rwa [names, List.length_map] at hle

theorem prefix_pass (g : Grammar) (known : List String) : known <+: g.nullablePass known :=
  prefix_foldl_addNullable g.rules known

theorem length_pass_eq_iff :
    (g.nullablePass known).length = known.length ↔ g.nullablePass known = known :=
  ⟨fun h => ((g.prefix_pass known).eq_of_length h.symm).symm, fun h => by rw [h]⟩

/-- A run of passes: each adds a name, up to the last, which adds nothing. The number counts all of
them. -/
inductive Passes (g : Grammar) : List String → Nat → List String → Prop where
  | last {known : List String} (same : g.nullablePass known = known) : Passes g known 1 known
  | more {known final : List String} {n : Nat} (added : g.nullablePass known ≠ known)
      (rest : Passes g (g.nullablePass known) n final) : Passes g known (n + 1) final

namespace Passes

variable {final final' : List String} {n n' : Nat}

theorem pass_eq (h : g.Passes known n final) : g.nullablePass final = final := by
  induction h with
  | last same => exact same
  | more _ _ ih => exact ih

theorem valid (h : g.Passes known n final) (hv : g.Valid known) : g.Valid final := by
  induction h with
  | last => exact hv
  | more _ _ ih => exact ih hv.pass

/-- There is one run. -/
theorem unique (h : g.Passes known n final) (h' : g.Passes known n' final') :
    n = n' ∧ final = final' := by
  induction h generalizing n' final' with
  | last same =>
    cases h' with
    | last => exact ⟨rfl, rfl⟩
    | more added => exact absurd same added
  | more added _ ih =>
    cases h' with
    | last same => exact absurd same added
    | more _ rest =>
      obtain ⟨rfl, rfl⟩ := ih rest
      exact ⟨rfl, rfl⟩

end Passes

/-- Every pass but the last adds a name of a rule, so that the passes end before the names do. -/
theorem passes_nullableAfter : ∀ (passes : Nat) {known : List String}, g.Valid known →
    g.rules.length ≤ known.length + passes →
    ∃ n ≤ passes + 1, g.Passes known n (g.nullableAfter passes known)
  | 0, known, hv, hle => by
    have hfull := hv.pass.length_le
    have hmore := (g.prefix_pass known).length_le
    exact ⟨1, Nat.le_refl _, .last (length_pass_eq_iff.mp (by omega))⟩
  | passes + 1, known, hv, hle => by
    rw [nullableAfter]
    by_cases hsame : g.nullablePass known = known
    · simp only [if_pos (length_pass_eq_iff.mpr hsame)]
      exact ⟨1, by omega, .last hsame⟩
    · have hlen := mt length_pass_eq_iff.mp hsame
      have hmore := (g.prefix_pass known).length_le
      simp only [if_neg hlen]
      obtain ⟨n, hn, hrun⟩ := passes_nullableAfter passes hv.pass (by omega)
      exact ⟨n + 1, by omega, .more hsame hrun⟩

theorem valid_nil : g.Valid [] := ⟨List.nodup_nil, List.nil_subset _, by simp⟩

theorem passes_nullable (g : Grammar) : ∃ n ≤ g.rules.length + 1, g.Passes [] n g.nullable :=
  passes_nullableAfter g.rules.length valid_nil (Nat.le_add_left _ _)

/-- Names that are closed: no rule has an alternative of these names alone and is not among them. -/
def NullClosed (g : Grammar) (known : List String) : Prop :=
  ∀ r ∈ g.rules, ∀ a ∈ r.alternatives, a.allOf known = true → r.name ∈ known

theorem nullClosed_of_pass (h : g.nullablePass known = known) : g.NullClosed known := by
  intro r hr a ha hall
  obtain ⟨-, hn | hn⟩ | ⟨he, hn, -⟩ := addNullable_cases known r
  · exact hn
  · rw [hn a ha] at hall
    cases hall
  · rw [addNullable_of_foldl h r hr] at he
    exact absurd he.symm (by simp)

theorem valid_nullable : g.Valid g.nullable :=
  let ⟨_, _, hrun⟩ := g.passes_nullable
  hrun.valid valid_nil

theorem closed_nullable : g.NullClosed g.nullable :=
  let ⟨_, _, hrun⟩ := g.passes_nullable
  nullClosed_of_pass hrun.pass_eq

/-- **The nullable rules are those that can match without reading anything.** -/
theorem mem_nullable_iff {name : String} : name ∈ g.nullable ↔ g.Derives name := by
  refine ⟨valid_nullable.derives name, fun h => ?_⟩
  induction h with
  | @intro r a names hr ha hi _ ih =>
    exact closed_nullable r hr a ha (Alternative.allOf_iff.mpr ⟨names, fun n hn => ih n hn, hi⟩)

end Grammar

end Outline
