import Mathlib.Logic.Relation
import Outline.Grammar.WellFormed
import Outline.Proofs.Grammar.Fixpoint

/-!
# Well-formed grammars

What the search for a rule that can be entered again decides, and what it means that a grammar has no
fault.

* `Grammar.Closed`: the rules that are mentioned are defined;
* `Grammar.Enters`: a rule may be entered from another before anything is read;
* **`Grammar.reaches_iff`**: the search finds just the rules that can be reached;
* **`Grammar.fault?_eq_none_iff`**: the grammars without a fault;
* `Grammar.WellFormed.of_rank`: an order of the rules is enough for a grammar to be well formed;
* `Grammar.WellFormed.startAt`: any rule may be the start.
-/

namespace Outline

open Relation

namespace Grammar

/-- The rules that are mentioned are defined. -/
def Closed (g : Grammar) : Prop := ∀ name ∈ g.mentioned, name ∈ g.names

instance (g : Grammar) : Decidable g.Closed :=
  inferInstanceAs (Decidable (∀ name ∈ g.mentioned, name ∈ g.names))

/-- The alternatives of a rule are found by its name. -/
theorem alternatives?_eq_of_mem (g : Grammar) {r : Rule} (h : r ∈ g.rules) :
    g.alternatives? r.name = some r.alternatives := by
  obtain ⟨as, has⟩ := alternatives?_of_mem (List.mem_map_of_mem h)
  obtain ⟨r', hr', hname, rfl⟩ := alternatives?_eq_some has
  rw [has, List.inj_on_of_nodup_map g.distinct hr' h hname]

/-- An alternative of `name` has a rule `other` behind rules alone that can match without reading. -/
def Enters (g : Grammar) (name other : String) : Prop :=
  ∃ as, g.alternatives? name = some as ∧ ∃ a ∈ as, ∃ (before : List String) (behind : List Item),
    a.items = before.map Item.rule ++ .rule other :: behind ∧ ∀ n ∈ before, g.Derives n

theorem Enters.mem_names {g : Grammar} {name other : String} (h : g.Enters name other) :
    name ∈ g.names := by
  obtain ⟨as, has, -⟩ := h
  obtain ⟨r, hr, rfl, -⟩ := alternatives?_eq_some has
  exact List.mem_map_of_mem hr

variable {g : Grammar}

/-! ## The rules entered first -/

theorem mem_leading_iff {known : List String} {other : String} : ∀ {is : List Item},
    other ∈ leading known is ↔ ∃ (before : List String) (behind : List Item),
      is = before.map Item.rule ++ .rule other :: behind ∧ ∀ n ∈ before, n ∈ known
  | [] => by simp [leading]
  | .terminal t :: is => by
    constructor
    · intro h
      cases h
    · rintro ⟨_ | ⟨n, before⟩, behind, h, -⟩ <;> cases h
  | .rule name :: is => by
    constructor
    · intro h
      unfold leading at h
      by_cases hk : name ∈ known
      · rw [if_pos (by simpa using hk)] at h
        obtain rfl | h := List.mem_cons.mp h
        · exact ⟨[], is, rfl, by simp⟩
        · obtain ⟨before, behind, rfl, hb⟩ := mem_leading_iff.mp h
          exact ⟨name :: before, behind, rfl, List.forall_mem_cons.mpr ⟨hk, hb⟩⟩
      · rw [if_neg (by simpa using hk)] at h
        obtain rfl := List.mem_singleton.mp h
        exact ⟨[], is, rfl, by simp⟩
    · rintro ⟨before, behind, h, hb⟩
      unfold leading
      cases before with
      | nil =>
        cases h
        split <;> exact List.mem_cons_self
      | cons n before =>
        cases h
        obtain ⟨hn, hb⟩ := List.forall_mem_cons.mp hb
        rw [if_pos (by simpa using hn)]
        exact List.mem_cons_of_mem _ (mem_leading_iff.mpr ⟨before, behind, rfl, hb⟩)

theorem mem_firstRules_iff {name other : String} :
    other ∈ g.firstRules name g.nullable ↔ g.Enters name other := by
  unfold firstRules Enters
  cases g.alternatives? name with
  | none => simp
  | some as => simp [List.mem_flatMap, mem_leading_iff, mem_nullable_iff]

/-! ## The search -/

section Search

variable {next : String → List String} {goal : String}

/-- Whatever the search finds can be reached. -/
theorem exists_of_reaches {unvisited toVisit : List String}
    (h : reaches next goal unvisited toVisit = true) :
    ∃ x ∈ toVisit, ReflTransGen (fun a b => b ∈ next a) x goal := by
  fun_induction reaches next goal unvisited toVisit with
  | case1 => cases h
  | case2 _ rest => exact ⟨goal, List.mem_cons_self, .refl⟩
  | case3 unvisited name rest hn hm ih =>
    obtain ⟨x, hx, hr⟩ := ih h
    obtain hx | hx := List.mem_append.mp hx
    · exact ⟨name, List.mem_cons_self, .head hx hr⟩
    · exact ⟨x, List.mem_cons_of_mem _ hx, hr⟩
  | case4 unvisited name rest hn hm ih =>
    obtain ⟨x, hx, hr⟩ := ih h
    exact ⟨x, List.mem_cons_of_mem _ hx, hr⟩

/-- What a search that finds nothing goes by: `visited` has the rules that it is done with. They are not
the goal, and each leads to visited ones and to those still to visit. -/
structure Explored (next : String → List String) (goal : String) (unvisited toVisit : List String)
    (visited : String → Prop) : Prop where
  cover : ∀ x, x ∈ unvisited ∨ visited x
  ne_goal : ∀ x, visited x → x ≠ goal
  leads : ∀ x, visited x → ∀ y ∈ next x, visited y ∨ y ∈ toVisit

namespace Explored

variable {unvisited toVisit rest : List String} {name : String} {visited : String → Prop}

/-- A rule that is left is visited, and those behind it are to be visited. -/
theorem leave (he : Explored next goal unvisited (name :: rest) visited) (hn : name ≠ goal) :
    Explored next goal (unvisited.erase name) (next name ++ rest) fun x => visited x ∨ x = name where
  cover x := by
    by_cases hx : x = name
    · exact Or.inr (Or.inr hx)
    · exact (he.cover x).imp (List.mem_erase_of_ne hx).mpr Or.inl
  ne_goal := by
    rintro x (hx | rfl)
    · exact he.ne_goal x hx
    · exact hn
  leads := by
    rintro x (hx | rfl) y hy
    · obtain h | h := he.leads x hx y hy
      · exact Or.inl (Or.inl h)
      · obtain rfl | h := List.mem_cons.mp h
        · exact Or.inl (Or.inr rfl)
        · exact Or.inr (List.mem_append_right _ h)
    · exact Or.inr (List.mem_append_left _ hy)

/-- A rule that is visited already need not be visited. -/
theorem drop (he : Explored next goal unvisited (name :: rest) visited) (hv : visited name) :
    Explored next goal unvisited rest visited where
  cover := he.cover
  ne_goal := he.ne_goal
  leads x hx y hy := by
    obtain h | h := he.leads x hx y hy
    · exact Or.inl h
    · obtain rfl | h := List.mem_cons.mp h
      · exact Or.inl hv
      · exact Or.inr h

/-- Where nothing is left to visit, nothing else can be reached. -/
theorem closed (he : Explored next goal unvisited [] visited) {x y : String} (hx : visited x)
    (hxy : ReflTransGen (fun a b => b ∈ next a) x y) : visited y := by
  induction hxy with
  | refl => exact hx
  | tail _ hbc ih => exact (he.leads _ ih _ hbc).resolve_right List.not_mem_nil

theorem not_reached (he : Explored next goal unvisited toVisit visited)
    (h : reaches next goal unvisited toVisit = false) :
    ∀ x, visited x ∨ x ∈ toVisit → ¬ ReflTransGen (fun a b => b ∈ next a) x goal := by
  fun_induction reaches next goal unvisited toVisit generalizing visited with
  | case1 unvisited =>
    intro x hx hr
    exact he.ne_goal _ (he.closed (hx.resolve_right List.not_mem_nil) hr) rfl
  | case2 => cases h
  | case3 unvisited name rest hn hm ih =>
    intro x hx
    refine ih (he.leave hn) h x ?_
    obtain hx | hx := hx
    · exact Or.inl (Or.inl hx)
    · obtain rfl | hx := List.mem_cons.mp hx
      · exact Or.inl (Or.inr rfl)
      · exact Or.inr (List.mem_append_right _ hx)
  | case4 unvisited name rest hn hm ih =>
    have hv : visited name := (he.cover name).resolve_left hm
    intro x hx
    refine ih (he.drop hv) h x ?_
    obtain hx | hx := hx
    · exact Or.inl hx
    · obtain rfl | hx := List.mem_cons.mp hx
      · exact Or.inl hv
      · exact Or.inr hx

end Explored

/-- **The search finds just what can be reached**, if at first all are unvisited that lead anywhere, and
the goal is. -/
theorem reaches_iff {unvisited toVisit : List String} (hgoal : goal ∈ unvisited)
    (hnext : ∀ x, x ∉ unvisited → next x = []) : reaches next goal unvisited toVisit = true ↔
      ∃ x ∈ toVisit, ReflTransGen (fun a b => b ∈ next a) x goal := by
  refine ⟨exists_of_reaches, fun ⟨x, hx, hr⟩ => ?_⟩
  by_contra h
  have he : Explored next goal unvisited toVisit (· ∉ unvisited) := by
    refine ⟨fun x => Decidable.em _, ?_, ?_⟩
    · rintro x hx rfl
      exact hx hgoal
    · intro x hx y hy
      rw [hnext x hx] at hy
      cases hy
  exact he.not_reached (Bool.eq_false_iff.mpr h) x (Or.inr hx) hr

end Search

/-! ## No fault -/

theorem firstRules_of_not_mem {name : String} {known : List String} (h : name ∉ g.names) :
    g.firstRules name known = [] := by
  rw [firstRules]
  cases hs : g.alternatives? name with
  | none => rfl
  | some as =>
    obtain ⟨r, hr, rfl, -⟩ := alternatives?_eq_some hs
    exact absurd (List.mem_map_of_mem hr) h

/-- The rules entered first, looked up among those of the rules in order. -/
theorem lookup_firstRules (name : String) (known : List String) :
    (((g.names.map fun n => (n, g.firstRules n known)).find? (·.1 == name)).map (·.2)).getD [] =
      g.firstRules name known := by
  rw [List.find?_map]
  cases h : g.names.find? ((fun p : String × List String => p.1 == name) ∘
      fun n => (n, g.firstRules n known)) with
  | some n =>
    have hn : n = name := by simpa using List.find?_some h
    rw [hn]
    rfl
  | none =>
    have hn : name ∉ g.names := fun hm => by simpa using List.find?_eq_none.mp h name hm
    rw [firstRules_of_not_mem hn]
    rfl

/-- The search of a grammar decides whether a rule can be entered from itself. -/
theorem isLeftRecursive_iff {name : String} (hn : name ∈ g.names) :
    g.isLeftRecursive (g.firstRules · g.nullable) name = true ↔ TransGen g.Enters name name := by
  unfold isLeftRecursive
  rw [reaches_iff hn fun x hx => firstRules_of_not_mem hx, TransGen.head'_iff]
  simp only [mem_firstRules_iff]

/-- The grammar is well formed: its start rule and all rules it mentions are defined, and no rule can be
entered from itself before anything is read. -/
structure WellFormed (g : Grammar) : Prop where
  start : g.start ∈ g.names
  closed : g.Closed
  acyclic : ∀ name, ¬ TransGen g.Enters name name

/-- If the rules that a rule may enter first come after it in some order, none can be entered again. -/
theorem WellFormed.of_rank (hs : g.start ∈ g.names) (hc : g.Closed) (rank : String → Nat)
    (h : ∀ n ∈ g.names, ∀ o ∈ g.firstRules n g.nullable, rank o < rank n) : g.WellFormed := by
  have hlt : ∀ a b, TransGen g.Enters a b → rank b < rank a := fun a b hab => by
    induction hab with
    | single hb => exact h a hb.mem_names _ (mem_firstRules_iff.mpr hb)
    | tail _ hbc ih => exact Nat.lt_trans (h _ hbc.mem_names _ (mem_firstRules_iff.mpr hbc)) ih
  exact ⟨hs, hc, fun name hcycle => Nat.lt_irrefl _ (hlt name name hcycle)⟩

/-- **A grammar has no fault just if it is well formed.** -/
theorem fault?_eq_none_iff : g.fault? = none ↔ g.WellFormed := by
  have hcycle : ∀ name, TransGen g.Enters name name → name ∈ g.names := fun name h => by
    obtain ⟨x, hx, -⟩ := TransGen.head'_iff.mp h
    exact hx.mem_names
  unfold fault?
  by_cases hs : g.start ∈ g.names
  · rw [if_neg (by simpa using hs)]
    cases hm : g.mentioned.find? (!g.names.contains ·) with
    | some name =>
      have hn := List.find?_some hm
      refine iff_of_false (by simp) fun h => ?_
      have := h.closed name (List.mem_of_find?_eq_some hm)
      simp [this] at hn
    | none =>
      have hclosed : g.Closed := fun name hn => by
        simpa using List.find?_eq_none.mp hm name hn
      simp only [lookup_firstRules, Option.map_eq_none_iff, List.find?_eq_none]
      constructor
      · intro h
        exact ⟨hs, hclosed, fun name hc =>
          h name (hcycle name hc) ((isLeftRecursive_iff (hcycle name hc)).mpr hc)⟩
      · intro h name hn hc
        exact h.acyclic name ((isLeftRecursive_iff hn).mp hc)
  · rw [if_pos (by simpa using hs)]
    exact iff_of_false (by simp) fun h => hs h.start

/-! ## Another start -/

/-- A well-formed grammar may start at any of its rules. -/
theorem WellFormed.startAt (h : g.WellFormed) {name : String} (hn : name ∈ g.names) :
    WellFormed { g with start := name } := by
  have henters : ∀ a b, Enters { g with start := name } a b → g.Enters a b := by
    rintro a b ⟨as, has, alt, halt, before, behind, hitems, hbefore⟩
    exact ⟨as, has, alt, halt, before, behind, hitems, fun n hn => .of_unordered (by rfl) (hbefore n hn)⟩
  exact ⟨hn, h.closed, fun other hc => h.acyclic other (TransGen.mono henters other other hc)⟩

end Grammar

end Outline
