import Mathlib.Order.WellFounded
import Outline.Proofs.Grammar.WellFormed

/-!
# The search for a rule that can be entered again

Of the rules that may be entered first, some are looked at and some wait. A rule that was looked at before is
passed over; for another the rules that it may enter first are put in front of those that wait, in any order
and any number of times. The search is over where the goal comes up or nothing waits any more.

* `Search`, `Grammar.Looks`: a state of the search, and a turn of it;
* `Grammar.looks_wellFounded`: there is no search without an end, whatever the grammar;
* `Search.Sound`, `Search.Sound.looks`: what each turn keeps, if the rules that are mentioned are defined;
* `Grammar.Searched`, `Search.Sound.searched`: what all searches from a state come to;
* `Grammar.reaches_looks`: the search of the library is one of them.
-/

namespace Outline

open Relation

/-- The rules that were looked at, and those that wait, the next one in front. -/
structure Search where
  done : List String
  pending : List String

namespace Grammar

/-- The rules that a rule may enter before anything is read, if it is defined. -/
def firsts? (g : Grammar) (name : String) : Option (List String) :=
  if name ∈ g.names then some (g.firstRules name g.nullable) else none

/-- A turn of the search for `goal`. There is none for a rule that would have to be looked up and is not
defined. -/
inductive Looks (g : Grammar) (goal : String) : Search → Search → Prop where
  | again {name : String} {done pending : List String} (hne : name ≠ goal) (hd : name ∈ done) :
      Looks g goal ⟨done, name :: pending⟩ ⟨done, pending⟩
  | first {name : String} {done pending names more : List String} (hne : name ≠ goal)
      (hd : name ∉ done) (hf : g.firsts? name = some names) (hm : ∀ n, n ∈ more ↔ n ∈ names) :
      Looks g goal ⟨done, name :: pending⟩ ⟨name :: done, more ++ pending⟩

variable {g : Grammar} {goal : String}

/-! ## The end of the search -/

/-- How many rules were not looked at. -/
def unseen (g : Grammar) (s : Search) : Nat := (g.names.filter (· ∉ s.done)).length

theorem unseen_lt {name : String} {done : List String} (hn : name ∈ g.names) (hd : name ∉ done)
    (pending more : List String) : g.unseen ⟨name :: done, more⟩ < g.unseen ⟨done, pending⟩ := by
  have hfilter : g.names.filter (· ∉ name :: done) =
      (g.names.filter (· ∉ done)).filter (· ≠ name) := by
    rw [List.filter_filter]
    congr 1
    funext n
    simp
  rw [unseen, unseen, hfilter]
  exact List.length_filter_lt_length_iff_exists.mpr
    ⟨name, List.mem_filter.mpr ⟨hn, by simpa using hd⟩, by simp⟩

/-- **Every search ends**: a turn that makes the waiting rules more is one for a rule that was not looked at
before. -/
theorem looks_wellFounded (g : Grammar) (goal : String) : WellFounded (flip (g.Looks goal)) := by
  refine Subrelation.wf ?_ (InvImage.wf (fun s : Search => (g.unseen s, s.pending.length))
    (WellFounded.prod_lex Nat.lt_wfRel.wf Nat.lt_wfRel.wf))
  intro s' s h
  cases h with
  | again => exact Prod.Lex.right _ (Nat.lt_succ_self _)
  | @first name done pending names more hne hd hf hm =>
    have hn : name ∈ g.names := by
      by_contra hn
      rw [firsts?, if_neg hn] at hf
      cases hf
    exact Prod.Lex.left _ _ (unseen_lt hn hd _ _)

end Grammar

/-! ## What the search keeps -/

/-- All rules of a search can be entered from the goal, those that wait are defined, and the rules that the
goal and those looked at may enter first are among them. -/
structure Search.Sound (g : Grammar) (goal : String) (s : Search) : Prop where
  defined : ∀ n ∈ s.pending, n ∈ g.names
  reached : ∀ n, n ∈ s.done ∨ n ∈ s.pending → TransGen g.Enters goal n
  ne_goal : ∀ n ∈ s.done, n ≠ goal
  leads : ∀ n, n = goal ∨ n ∈ s.done → ∀ m, g.Enters n m → m ∈ s.done ∨ m ∈ s.pending

/-- What all searches for a goal from a state come to: they end, they go on until they are over, all rules
that come up are defined, and where a search is over it tells whether the goal can be entered again. -/
structure Grammar.Searched (g : Grammar) (goal : String) (s : Search) : Prop where
  ends : Acc (flip (g.Looks goal)) s
  defined : ∀ s', ReflTransGen (g.Looks goal) s s' → ∀ n ∈ s'.pending, n ∈ g.names
  goes_on : ∀ s', ReflTransGen (g.Looks goal) s s' →
    s'.pending = [] ∨ (∃ rest, s'.pending = goal :: rest) ∨ ∃ s'', g.Looks goal s' s''
  found : ∀ s', ReflTransGen (g.Looks goal) s s' → ∀ rest, s'.pending = goal :: rest →
    TransGen g.Enters goal goal
  exhausted : ∀ s', ReflTransGen (g.Looks goal) s s' → s'.pending = [] →
    ¬ TransGen g.Enters goal goal

theorem Grammar.Enters.mem_mentioned {g : Grammar} {name other : String} (h : g.Enters name other) :
    other ∈ g.mentioned := by
  obtain ⟨as, has, a, ha, before, behind, hitems, -⟩ := h
  obtain ⟨r, hr, -, rfl⟩ := alternatives?_eq_some has
  exact Grammar.mem_mentioned hr ha (hitems ▸ List.mem_append_right _ List.mem_cons_self)

namespace Search

open Grammar

variable {g : Grammar} {goal : String} {s s' : Search}

theorem sound_start (hg : g.Closed) {more : List String}
    (hm : ∀ n, n ∈ more ↔ n ∈ g.firstRules goal g.nullable) : Sound g goal ⟨[], more⟩ where
  defined n hn := hg n (mem_firstRules_iff.mp ((hm n).mp hn)).mem_mentioned
  reached n hn := .single (mem_firstRules_iff.mp ((hm n).mp (hn.resolve_left List.not_mem_nil)))
  ne_goal n hn := absurd hn List.not_mem_nil
  leads n hn m h := by
    obtain rfl := hn.resolve_right List.not_mem_nil
    exact Or.inr ((hm m).mpr (mem_firstRules_iff.mpr h))

namespace Sound

theorem looks (hg : g.Closed) (h : s.Sound g goal) (hs : g.Looks goal s s') : s'.Sound g goal := by
  cases hs with
  | @again name done pending hne hd =>
    refine ⟨fun n hn => h.defined n (List.mem_cons_of_mem _ hn),
      fun n hn => h.reached n (hn.imp_right (List.mem_cons_of_mem _)), h.ne_goal, fun n hn m hm => ?_⟩
    obtain hm | hm := h.leads n hn m hm
    · exact Or.inl hm
    · obtain rfl | hm := List.mem_cons.mp hm
      · exact Or.inl hd
      · exact Or.inr hm
  | @first name done pending names more hne hd hf hm =>
    have hn : name ∈ g.names := h.defined name List.mem_cons_self
    have hfirst : ∀ n, n ∈ more ↔ g.Enters name n := fun n => by
      rw [firsts?, if_pos hn] at hf
      rw [hm n, ← Option.some.inj hf, mem_firstRules_iff]
    have hname : TransGen g.Enters goal name := h.reached name (Or.inr List.mem_cons_self)
    refine ⟨fun n hn => ?_, fun n hn => ?_, ?_, fun n hn m henters => ?_⟩
    · obtain hn | hn := List.mem_append.mp hn
      · exact hg n ((hfirst n).mp hn).mem_mentioned
      · exact h.defined n (List.mem_cons_of_mem _ hn)
    · obtain hn | hn := hn
      · obtain rfl | hn := List.mem_cons.mp hn
        · exact hname
        · exact h.reached n (Or.inl hn)
      · obtain hn | hn := List.mem_append.mp hn
        · exact hname.tail ((hfirst n).mp hn)
        · exact h.reached n (Or.inr (List.mem_cons_of_mem _ hn))
    · exact List.forall_mem_cons.mpr ⟨hne, h.ne_goal⟩
    · by_cases hnn : n = name
      · subst hnn
        exact Or.inr (List.mem_append_left _ ((hfirst m).mpr henters))
      · obtain hm | hm := h.leads n (hn.imp_right fun hn => (List.mem_cons.mp hn).resolve_left hnn) m henters
        · exact Or.inl (List.mem_cons_of_mem _ hm)
        · obtain rfl | hm := List.mem_cons.mp hm
          · exact Or.inl List.mem_cons_self
          · exact Or.inr (List.mem_append_right _ hm)

theorem run (hg : g.Closed) (h : s.Sound g goal) (hs : ReflTransGen (g.Looks goal) s s') :
    s'.Sound g goal := by
  induction hs with
  | refl => exact h
  | tail _ hstep ih => exact ih.looks hg hstep

/-- Nothing waits: what can be entered from the goal was looked at, and the goal was not. -/
theorem not_transGen (h : s.Sound g goal) (hs : s.pending = []) : ¬ TransGen g.Enters goal goal := by
  have hdone : ∀ n, TransGen g.Enters goal n → n ∈ s.done := fun n hn => by
    have hleads : ∀ n m, n = goal ∨ n ∈ s.done → g.Enters n m → m ∈ s.done := fun n m hn hm =>
      (h.leads n hn m hm).resolve_right (hs ▸ List.not_mem_nil)
    induction hn with
    | single hm => exact hleads _ _ (Or.inl rfl) hm
    | tail _ hm ih => exact hleads _ _ (Or.inr ih) hm
  exact fun hc => h.ne_goal goal (hdone goal hc) rfl

theorem goes_on (h : s.Sound g goal) :
    s.pending = [] ∨ (∃ rest, s.pending = goal :: rest) ∨ ∃ s', g.Looks goal s s' := by
  obtain ⟨done, _ | ⟨name, pending⟩⟩ := s
  · exact Or.inl rfl
  · by_cases hne : name = goal
    · exact Or.inr (Or.inl ⟨pending, by rw [hne]⟩)
    · by_cases hd : name ∈ done
      · exact Or.inr (Or.inr ⟨_, .again hne hd⟩)
      · have hf : g.firsts? name = some _ := if_pos (h.defined name List.mem_cons_self)
        exact Or.inr (Or.inr ⟨_, .first hne hd hf fun _ => Iff.rfl⟩)

/-- **All searches decide whether the goal can be entered again.** -/
theorem searched (hg : g.Closed) (h : s.Sound g goal) : g.Searched goal s where
  ends := (g.looks_wellFounded goal).apply s
  defined _ hs := (h.run hg hs).defined
  goes_on _ hs := (h.run hg hs).goes_on
  found _ hs _ hp := (h.run hg hs).reached goal (Or.inr (hp ▸ List.mem_cons_self))
  exhausted _ hs := (h.run hg hs).not_transGen

end Sound

end Search

/-! ## The search of the library -/

/-- The search that is run goes one way that a search can go. -/
theorem Grammar.reaches_looks {g : Grammar} {goal : String} {unvisited toVisit done : List String}
    (hnodup : unvisited.Nodup) (hu : ∀ n ∈ g.names, n ∈ unvisited ↔ n ∉ done)
    (hg : g.Closed) (hs : Search.Sound g goal ⟨done, toVisit⟩) :
    ∃ s, ReflTransGen (g.Looks goal) ⟨done, toVisit⟩ s ∧
      if reaches (g.firstRules · g.nullable) goal unvisited toVisit then
        ∃ rest, s.pending = goal :: rest
      else s.pending = [] := by
  fun_induction reaches (g.firstRules · g.nullable) goal unvisited toVisit generalizing done with
  | case1 => exact ⟨_, .refl, rfl⟩
  | case2 _ rest => exact ⟨_, .refl, rest, rfl⟩
  | case3 unvisited name rest hne hm ih =>
    have hn : name ∈ g.names := hs.defined name List.mem_cons_self
    have hturn : g.Looks goal ⟨done, name :: rest⟩
        ⟨name :: done, g.firstRules name g.nullable ++ rest⟩ :=
      .first hne ((hu name hn).mp hm) (if_pos hn) fun _ => Iff.rfl
    have hu' : ∀ n ∈ g.names, n ∈ unvisited.erase name ↔ n ∉ name :: done := fun n hn => by
      rw [hnodup.mem_erase_iff, hu n hn, List.mem_cons, not_or]
    obtain ⟨s, hrun, hres⟩ := ih (hnodup.erase name) hu' (hs.looks hg hturn)
    exact ⟨s, .head hturn hrun, hres⟩
  | case4 unvisited name rest hne hm ih =>
    have hn : name ∈ g.names := hs.defined name List.mem_cons_self
    have hturn : g.Looks goal ⟨done, name :: rest⟩ ⟨done, rest⟩ :=
      .again hne (not_not.mp fun hd => hm ((hu name hn).mpr hd))
    obtain ⟨s, hrun, hres⟩ := ih hnodup hu (hs.looks hg hturn)
    exact ⟨s, .head hturn hrun, hres⟩

end Outline
