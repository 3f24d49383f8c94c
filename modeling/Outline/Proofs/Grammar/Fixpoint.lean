import Mathlib.Data.Multiset.MapFold
import Mathlib.Order.Bounds.Defs
import Outline.Proofs.Grammar.Nullable

/-!
# The nullable rules as a least fixpoint

Which rules can match without reading is said in three ways that do not depend on the passes, nor on
the order in which the rules and their alternatives are listed.

* `Grammar.supported`: the rules that have an alternative of given rules alone, and
  `Grammar.isLeast_derives`: the derivable rules are its least fixpoint;
* `Grammar.Unfounded`: rules that only support each other, or rest on terminals and on rules that are
  not defined, and `Grammar.not_mem_nullable_iff_unfounded`: these are all that is not nullable;
* `Grammar.unordered`: a grammar without the order of its rules and alternatives;
* **`Grammar.nullable_isLeast`**: the passes end, with just those rules.
-/

namespace Outline

namespace Grammar

variable {g g' : Grammar} {name : String}

/-! ## The least fixpoint -/

/-- The rules that have an alternative of the given ones alone. -/
def supported (g : Grammar) (known : Set String) : Set String :=
  {name | ∃ r ∈ g.rules, r.name = name ∧ ∃ a ∈ r.alternatives, ∃ names : List String,
    a.items = names.map Item.rule ∧ ∀ n ∈ names, n ∈ known}

theorem supported_derives (g : Grammar) : g.supported {name | g.Derives name} = {name | g.Derives name} := by
  ext name
  constructor
  · rintro ⟨r, hr, rfl, a, ha, names, hi, hd⟩
    exact .intro hr ha hi hd
  · rintro ⟨hr, ha, hi, hd⟩
    exact ⟨_, hr, rfl, _, ha, _, hi, hd⟩

theorem derives_subset {known : Set String} (h : g.supported known ⊆ known) :
    {name | g.Derives name} ⊆ known := by
  intro name hname
  induction hname with
  | intro hr ha hi _ ih => exact h ⟨_, hr, rfl, _, ha, _, hi, ih⟩

theorem isLeast_derives (g : Grammar) :
    IsLeast {known | g.supported known = known} {name | g.Derives name} :=
  ⟨g.supported_derives, fun _ h => derives_subset h.subset⟩

/-! ## Rules without support -/

/-- An item that cannot be passed over, if the given rules cannot: a terminal, one of these rules, or a
rule that is not defined. -/
inductive Blocks (g : Grammar) (names : Set String) : Item → Prop where
  | terminal (t : Terminal) : Blocks g names (.terminal t)
  | among {name : String} (mem : name ∈ names) : Blocks g names (.rule name)
  | undefined {name : String} (not_mem : name ∉ g.names) : Blocks g names (.rule name)

/-- Rules without support from elsewhere: something blocks each alternative of each of them. -/
def Unfounded (g : Grammar) (names : Set String) : Prop :=
  ∀ r ∈ g.rules, r.name ∈ names → ∀ a ∈ r.alternatives, ∃ i ∈ a.items, g.Blocks names i

theorem Derives.mem_names (h : g.Derives name) : name ∈ g.names := by
  cases h with
  | intro hr => exact List.mem_map_of_mem hr

theorem Derives.not_mem_unfounded {names : Set String} (hu : g.Unfounded names)
    (h : g.Derives name) : name ∉ names := by
  induction h with
  | @intro r a others hr ha hi hd ih =>
    intro hmem
    obtain ⟨i, hin, hblocks⟩ := hu r hr hmem a ha
    rw [hi] at hin
    obtain ⟨other, hother, rfl⟩ := List.mem_map.mp hin
    cases hblocks with
    | among hmem => exact ih other hother hmem
    | undefined hnot => exact hnot (hd other hother).mem_names

theorem unfounded_not_nullable (g : Grammar) : g.Unfounded {name | name ∉ g.nullable} := by
  intro r hr hmem a ha
  have hall : a.allOf g.nullable = false := by
    by_contra h
    exact hmem (closed_nullable r hr a ha (Bool.eq_true_of_not_eq_false h))
  obtain ⟨i, hi, hblocks⟩ := List.all_eq_false.mp hall
  refine ⟨i, hi, ?_⟩
  cases i with
  | terminal t => exact .terminal t
  | rule other => exact .among (by simpa using hblocks)

theorem not_mem_nullable_iff_unfounded :
    name ∉ g.nullable ↔ ∃ names, g.Unfounded names ∧ name ∈ names := by
  constructor
  · intro h
    exact ⟨_, g.unfounded_not_nullable, h⟩
  · rintro ⟨names, hu, hmem⟩ h
    exact (mem_nullable_iff.mp h).not_mem_unfounded hu hmem

/-! ## The order of rules and alternatives -/

/-- The names of the rules with their alternatives, without any order. -/
def unordered (g : Grammar) : Multiset (String × Multiset Alternative) :=
  ↑(g.rules.map fun r => (r.name, (r.alternatives : Multiset Alternative)))

theorem exists_rule_of_unordered (h : g.unordered = g'.unordered) {r : Rule} (hr : r ∈ g.rules) :
    ∃ r' ∈ g'.rules, r'.name = r.name ∧ r.alternatives.Perm r'.alternatives := by
  have hmem : (r.name, (r.alternatives : Multiset Alternative)) ∈ g'.unordered := by
    rw [← h]
    exact Multiset.mem_coe.mpr (List.mem_map.mpr ⟨r, hr, rfl⟩)
  obtain ⟨r', hr', heq⟩ := List.mem_map.mp (Multiset.mem_coe.mp hmem)
  obtain ⟨hname, halternatives⟩ := Prod.mk.inj heq
  exact ⟨r', hr', hname, Multiset.coe_eq_coe.mp halternatives.symm⟩

theorem Derives.of_unordered (h : g.unordered = g'.unordered) (hd : g.Derives name) :
    g'.Derives name := by
  induction hd with
  | intro hr ha hi _ ih =>
    obtain ⟨r', hr', hname, hperm⟩ := exists_rule_of_unordered h hr
    rw [← hname]
    exact .intro hr' (hperm.mem_iff.mp ha) hi ih

theorem nullable_perm (h : g.unordered = g'.unordered) : g.nullable.Perm g'.nullable := by
  refine (List.perm_ext_iff_of_nodup valid_nullable.nodup valid_nullable.nodup).mpr fun name => ?_
  rw [mem_nullable_iff, mem_nullable_iff]
  exact ⟨.of_unordered h, .of_unordered h.symm⟩

/-- **The nullable rules are the least fixpoint, whatever the grammar.** The passes end, after at most one
for each rule and the one that adds nothing. What they end with are the derivable rules: the least of
the sets that support just themselves, without any rule that rests on itself, on a terminal or on
a rule that is not defined. The order of rules and alternatives does not matter. -/
theorem nullable_isLeast (g : Grammar) :
    (∃ passes ≤ g.rules.length + 1, ∀ n final,
      g.Passes [] n final ↔ n = passes ∧ final = g.nullable) ∧
    (∀ name, name ∈ g.nullable ↔ g.Derives name) ∧
    IsLeast {known | g.supported known = known} {name | name ∈ g.nullable} ∧
    (∀ name, name ∉ g.nullable ↔ ∃ names, g.Unfounded names ∧ name ∈ names) ∧
    ∀ g' : Grammar, g'.unordered = g.unordered → g'.nullable.Perm g.nullable := by
  refine ⟨?_, fun name => mem_nullable_iff, ?_, fun name => not_mem_nullable_iff_unfounded,
    fun g' h => nullable_perm h⟩
  · obtain ⟨passes, hle, hrun⟩ := g.passes_nullable
    refine ⟨passes, hle, fun n final => ⟨fun h => h.unique hrun, ?_⟩⟩
    rintro ⟨rfl, rfl⟩
    exact hrun
  · have hsets : {name | name ∈ g.nullable} = {name | g.Derives name} :=
      Set.ext fun name => mem_nullable_iff
    rw [hsets]
    exact g.isLeast_derives

example : (ofRules [⟨"late", [⟨[.rule "early", .rule "early"], none⟩]⟩, ⟨"early", [⟨[], none⟩]⟩,
    ⟨"loop", [⟨[.rule "early", .rule "loop"], none⟩]⟩,
    ⟨"lost", [⟨[.rule "nowhere"], none⟩]⟩]).nullable = ["early", "late"] := by
  decide +kernel

end Grammar

end Outline
