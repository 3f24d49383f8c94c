import Mathlib.Tactic.Tauto
import Outline.Proofs.Grammar.Search

/-!
# The faults of grammars

Which fault of a grammar is reported, said of its rules, alternatives and items in order and without the
passes and searches that find it.

* `Grammar.FirstUndefined`, `Grammar.find?_mentioned_eq_some_iff`: the first mention of a rule that is not
  defined;
* `Grammar.FirstCyclic`, `Grammar.find?_isLeftRecursive_eq_some_iff`: the first rule that can be entered again
  from itself before anything is read;
* `Grammar.Verdict`: what is to be said of a grammar;
* **`Grammar.fault?_eq_iff_verdict`**: just that is said, and each search for a rule that can be entered
  again ends and meets defined rules alone.
-/

namespace Outline

open Relation

/-- The rule that an item names. -/
def Item.rule? : Item → Option String
  | .rule name => some name
  | .terminal _ => none

namespace Grammar

variable {g : Grammar}

/-! ## The first mention of an undefined rule -/

/-- The rules among the items are defined. -/
def Knows (g : Grammar) (is : List Item) : Prop := ∀ name, .rule name ∈ is → name ∈ g.names

/-- An item names a rule that is not defined, and all items before it, in the same alternative, in an
alternative before or in a rule before, name defined ones if any. -/
def FirstUndefined (g : Grammar) (name : String) : Prop :=
  name ∉ g.names ∧ ∃ (rules rules' : List Rule) (r : Rule) (as as' : List Alternative) (a : Alternative)
    (is is' : List Item), g.rules = rules ++ r :: rules' ∧ r.alternatives = as ++ a :: as' ∧
      a.items = is ++ .rule name :: is' ∧
      (∀ s ∈ rules, ∀ b ∈ s.alternatives, g.Knows b.items) ∧ (∀ b ∈ as, g.Knows b.items) ∧ g.Knows is

/-- The rule that an item names, if it is not defined. -/
def unknown? (g : Grammar) (i : Item) : Option String := i.rule?.filter (· ∉ g.names)

theorem unknown?_eq_some_iff {i : Item} {name : String} :
    g.unknown? i = some name ↔ i = .rule name ∧ name ∉ g.names := by
  cases i with
  | terminal t => simp [unknown?, Item.rule?]
  | rule n =>
    simp only [unknown?, Item.rule?, Option.filter_eq_some_iff, Option.some.injEq, Item.rule.injEq,
      decide_eq_true_eq]

theorem findSome?_unknown?_eq_none_iff {is : List Item} :
    is.findSome? g.unknown? = none ↔ g.Knows is := by
  rw [List.findSome?_eq_none_iff]
  constructor
  · intro h name hi
    by_contra hn
    have := h _ hi
    rw [unknown?_eq_some_iff.mpr ⟨rfl, hn⟩] at this
    cases this
  · intro h i hi
    refine Option.eq_none_iff_forall_ne_some.mpr fun name hs => ?_
    obtain ⟨rfl, hn⟩ := unknown?_eq_some_iff.mp hs
    exact hn (h name hi)

theorem findSome?_alternatives_eq_none_iff {as : List Alternative} :
    (as.findSome? fun a => a.items.findSome? g.unknown?) = none ↔ ∀ a ∈ as, g.Knows a.items := by
  simp only [List.findSome?_eq_none_iff (l := as), findSome?_unknown?_eq_none_iff]

theorem find?_filterMap_rule? (g : Grammar) : ∀ is : List Item,
    (is.filterMap Item.rule?).find? (!g.names.contains ·) = is.findSome? g.unknown?
  | [] => rfl
  | .terminal t :: is => find?_filterMap_rule? g is
  | .rule name :: is => by
    change (name :: is.filterMap Item.rule?).find? _ = _
    rw [List.findSome?_cons, List.find?_cons, find?_filterMap_rule? g is]
    by_cases h : name ∈ g.names
    · have hu : g.unknown? (.rule name) = none := by simp [unknown?, Item.rule?, h]
      simp [hu, h]
    · have hu : g.unknown? (.rule name) = some name := unknown?_eq_some_iff.mpr ⟨rfl, h⟩
      simp [hu, h]

theorem find?_mentioned (g : Grammar) : g.mentioned.find? (!g.names.contains ·) =
    g.rules.findSome? fun r => r.alternatives.findSome? fun a => a.items.findSome? g.unknown? := by
  have h : g.mentioned = g.rules.flatMap fun r => r.alternatives.flatMap fun a =>
    a.items.filterMap Item.rule? := rfl
  simp only [h, List.find?_flatMap, find?_filterMap_rule?]

theorem find?_mentioned_eq_some_iff {name : String} :
    g.mentioned.find? (!g.names.contains ·) = some name ↔ g.FirstUndefined name := by
  simp only [find?_mentioned, List.findSome?_eq_some_iff, findSome?_alternatives_eq_none_iff]
  constructor
  · rintro ⟨rules, r, rules', hr, ⟨as, a, as', ha, ⟨is, i, is', hi, hname, his⟩, has⟩, hrules⟩
    obtain ⟨rfl, hn⟩ := unknown?_eq_some_iff.mp hname
    exact ⟨hn, rules, rules', r, as, as', a, is, is', hr, ha, hi, hrules,
      fun b hb => findSome?_unknown?_eq_none_iff.mp (has b hb),
      findSome?_unknown?_eq_none_iff.mp (List.findSome?_eq_none_iff.mpr his)⟩
  · rintro ⟨hn, rules, rules', r, as, as', a, is, is', hr, ha, hi, hrules, has, his⟩
    exact ⟨rules, r, rules', hr, ⟨as, a, as', ha, ⟨is, _, is', hi, unknown?_eq_some_iff.mpr ⟨rfl, hn⟩,
      List.findSome?_eq_none_iff.mp (findSome?_unknown?_eq_none_iff.mpr his)⟩,
      fun b hb => findSome?_unknown?_eq_none_iff.mpr (has b hb)⟩, hrules⟩

/-! ## The first rule on a cycle -/

/-- A rule can be entered again before anything is read, and no rule before it can. -/
def FirstCyclic (g : Grammar) (name : String) : Prop :=
  ∃ before behind, g.names = before ++ name :: behind ∧ TransGen g.Enters name name ∧
    ∀ n ∈ before, ¬ TransGen g.Enters n n

theorem find?_isLeftRecursive_eq_some_iff {name : String} :
    g.names.find? (g.isLeftRecursive (g.firstRules · g.nullable)) = some name ↔ g.FirstCyclic name := by
  rw [List.find?_eq_some_iff_append, ← exists_and_left]
  refine exists_congr fun before => ?_
  rw [← exists_and_left]
  refine exists_congr fun behind => ?_
  rw [and_left_comm]
  refine and_congr_right fun hnames => ?_
  rw [isLeftRecursive_iff (by simp [hnames])]
  refine and_congr_right fun _ => forall₂_congr fun n hn => ?_
  rw [Bool.not_eq_true', ← Bool.not_eq_true, isLeftRecursive_iff (by simp [hnames, hn])]

/-! ## The verdict -/

/-- What is to be said of a grammar. -/
inductive Verdict (g : Grammar) : Option GrammarFault → Prop where
  | noStart (hs : g.start ∉ g.names) : Verdict g (some (.undefinedRule g.start))
  | undefined {name : String} (hs : g.start ∈ g.names) (h : g.FirstUndefined name) :
      Verdict g (some (.undefinedRule name))
  | cyclic {name : String} (hs : g.start ∈ g.names) (hc : g.Closed) (h : g.FirstCyclic name) :
      Verdict g (some (.leftRecursion name))
  | wellFormed (h : g.WellFormed) : Verdict g none

/-- The fault that is reported is what is to be said. -/
theorem verdict_fault? (g : Grammar) : g.Verdict g.fault? := by
  cases hf : g.fault? with
  | none => exact .wellFormed (fault?_eq_none_iff.mp hf)
  | some fault =>
    unfold fault? at hf
    by_cases hs : g.start ∈ g.names
    · rw [if_neg (by simpa using hs)] at hf
      cases hm : g.mentioned.find? (!g.names.contains ·) with
      | some name =>
        rw [hm] at hf
        obtain rfl := Option.some.inj hf
        exact .undefined hs (find?_mentioned_eq_some_iff.mp hm)
      | none =>
        simp only [hm, lookup_firstRules] at hf
        obtain ⟨name, hname, rfl⟩ := Option.map_eq_some_iff.mp hf
        have hc : g.Closed := fun n hn => by simpa using List.find?_eq_none.mp hm n hn
        exact .cyclic hs hc (find?_isLeftRecursive_eq_some_iff.mp hname)
    · rw [if_pos (by simpa using hs)] at hf
      obtain rfl := Option.some.inj hf
      exact .noStart hs

/-- What is to be said is reported. -/
theorem Verdict.eq_fault? {r : Option GrammarFault} (h : g.Verdict r) : g.fault? = r := by
  cases h with
  | noStart hs => rw [fault?, if_pos (by simpa using hs)]
  | undefined hs h =>
    rw [fault?, if_neg (by simpa using hs), find?_mentioned_eq_some_iff.mpr h]
  | cyclic hs hc h =>
    have hm : g.mentioned.find? (!g.names.contains ·) = none :=
      List.find?_eq_none.mpr fun n hn => by simpa using hc n hn
    rw [fault?, if_neg (by simpa using hs), hm]
    simp only [lookup_firstRules, find?_isLeftRecursive_eq_some_iff.mpr h, Option.map_some]
  | wellFormed h => exact fault?_eq_none_iff.mpr h

/-- **The fault of a grammar.** Reported is an undefined start rule, or else the first mention of an undefined
rule, or else the first rule that can be entered again from itself before anything is read, or else nothing.
Each search for such a rule, in whatever order it takes the rules that may be entered first, ends, never
looks up an undefined rule and tells whether the goal can be entered again; the one that is run is such a
search. -/
theorem fault?_eq_iff_verdict (g : Grammar) : (∀ r, g.fault? = r ↔ g.Verdict r) ∧
    (g.Closed → ∀ name,
      (∀ more, (∀ n, n ∈ more ↔ n ∈ g.firstRules name g.nullable) → g.Searched name ⟨[], more⟩) ∧
      ∃ s, ReflTransGen (g.Looks name) ⟨[], g.firstRules name g.nullable⟩ s ∧
        if g.isLeftRecursive (g.firstRules · g.nullable) name then ∃ rest, s.pending = name :: rest
        else s.pending = []) := by
  refine ⟨fun r => ⟨?_, Verdict.eq_fault?⟩, fun hc name => ⟨fun more hm => ?_, ?_⟩⟩
  · rintro rfl
    exact g.verdict_fault?
  · exact (Search.sound_start hc hm).searched hc
  · exact reaches_looks g.distinct (by simp) hc (Search.sound_start hc fun _ => Iff.rfl)

/-- A rule that may be entered again behind one that can match without reading, and the search for it. -/
theorem fault?_hidden :
    let b : Rule := ⟨"b", [⟨[], none⟩]⟩
    let a : Rule := ⟨"a", [⟨[.rule "b", .rule "a", .terminal ⟨.symbol, none⟩], none⟩]⟩
    let g : Grammar := ⟨[b, a], "a", by decide⟩
    g.fault? = some (.leftRecursion "a") ∧ g.Searched "a" ⟨[], ["a", "b", "a"]⟩ := by
  intro b a g
  have hitems : (⟨[], none⟩ : Alternative).items = ([] : List String).map Item.rule := rfl
  have hb : g.Derives "b" := .intro (r := b) (by simp [g]) (by simp [b]) hitems (by simp)
  have ha : g.Enters "a" "a" := ⟨_, rfl, _, List.mem_cons_self, ["b"], [_], rfl, by simpa using hb⟩
  have hfirst : ¬ TransGen g.Enters "b" "b" := fun h => by
    obtain ⟨n, ⟨as, has, alt, halt, before, behind, hitems, -⟩, -⟩ := TransGen.head'_iff.mp h
    cases has
    obtain rfl := List.mem_singleton.mp halt
    simp at hitems
  have hc : g.Closed := by decide
  refine ⟨((fault?_eq_iff_verdict g).1 _).mpr (.cyclic (by decide) hc ⟨["b"], [], rfl, .single ha, ?_⟩), ?_⟩
  · simpa using hfirst
  · exact ((fault?_eq_iff_verdict g).2 hc "a").1 _ fun n => by
      rw [show g.firstRules "a" g.nullable = ["b", "a"] by rfl]
      simp only [List.mem_cons, List.not_mem_nil, or_false]
      tauto

end Grammar

end Outline
