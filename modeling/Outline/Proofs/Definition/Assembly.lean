import Outline.Proofs.Definition.Spelling

/-!
# Putting pieces together

Pieces are put together into the declarations whose pieces they are, and where they are not the pieces of
any, what is wrong is blamed on one of them.

* `Drafting.pieces`, `Drafting.pieces_add`: the pieces of the part of a rule that has been read;
* `pieces_of_assemble`: what is put together has the pieces, by induction on those that are left;
* `assemble_items`, `assemble_alternative`, `assemble_barred`: items, alternatives and rules are read to
  their ends;
* **`assemble_eq_ok_iff`**: both together;
* `offset_of_assemble`: where the blame is put.
-/

namespace Outline

open AlternativeSource

/-! ## What has been read -/

theorem AlternativeSource.barred_concat (as : List AlternativeSource) (a : AlternativeSource) :
    barred (as ++ [a]) = as.flatMap (fun a => a.pieces ++ [.separator]) ++ a.pieces := by
  induction as with
  | nil => rfl
  | cons b as ih =>
    rw [List.cons_append, barred_cons (by simp), ih]
    simp

namespace Drafting

variable {d d' : Drafting}

/-- The alternative that is being read. -/
def present (d : Drafting) : AlternativeSource := ⟨d.items.reverse, d.action⟩

/-- The pieces behind the head of a rule, as far as it has been read. -/
def pieces (d : Drafting) : List Piece :=
  d.alternatives.reverse.flatMap (fun a => a.pieces ++ [.separator]) ++ d.present.pieces

/-- A piece that is put to a rule is one more of its pieces. -/
theorem pieces_add {p : Piece} (h : d.add p = .ok d') :
    d'.name = d.name ∧ d'.offset = d.offset ∧ d'.pieces = d.pieces ++ [p] := by
  obtain ⟨name, offset, as, is, action⟩ := d
  cases p with
  | item n pattern =>
    cases action with
    | some => cases h
    | none =>
      cases h
      exact ⟨rfl, rfl, by simp [pieces, present, AlternativeSource.pieces]⟩
  | action n =>
    cases action with
    | some => cases h
    | none =>
      cases h
      exact ⟨rfl, rfl, by simp [pieces, present, AlternativeSource.pieces]⟩
  | separator =>
    cases h
    exact ⟨rfl, rfl, by simp [pieces, present, bar, AlternativeSource.pieces]⟩
  | start => cases h
  | token => cases h
  | rule => cases h
  | terminator => cases h

/-- The pieces of a rule that is finished. -/
theorem pieces_close (d : Drafting) :
    d.close.pieces = .rule d.name :: (d.pieces ++ [.terminator]) := by
  simp [close, bar, Declaration.pieces, pieces, present, barred_concat]

theorem filled_close (d : Drafting) : d.close.Filled := by
  simp [close, bar, Declaration.Filled]

end Drafting

/-- The pieces of the rule that is being read, if there is one. -/
def pending : Option Drafting → List Piece
  | none => []
  | some d => .rule d.name :: d.pieces

variable {source : Text}

/-! ## What is put together has the pieces -/

/-- Declarations behind another, where that has been put together. -/
theorem ok_of_assemble_cons {d : Declaration} {draft : Option Drafting} {ps : List Located}
    {ds : List Declaration}
    (h : (do return d :: (← assemble source draft ps) : Except SourceError (List Declaration)) = .ok ds) :
    ∃ rest, assemble source draft ps = .ok rest ∧ ds = d :: rest := by
  cases hr : assemble source draft ps with
  | error e => rw [hr] at h; cases h
  | ok rest =>
    rw [hr] at h
    cases h
    exact ⟨rest, rfl, rfl⟩

theorem pieces_of_assemble {ps : List Located} : ∀ {draft : Option Drafting} {ds : List Declaration},
    assemble source draft ps = .ok ds →
      pending draft ++ ps.map (·.piece) = ds.flatMap (·.pieces) ∧ ∀ d ∈ ds, d.Filled := by
  induction ps with
  | nil =>
    rintro (_ | d) ds h
    · cases h
      exact ⟨rfl, by simp⟩
    · cases h
  | cons p ps ih =>
    obtain ⟨piece, offset⟩ := p
    rintro (_ | d) ds h
    · cases piece with
      | start name | token name =>
        obtain ⟨rest, hr, rfl⟩ := ok_of_assemble_cons h
        obtain ⟨hp, hf⟩ := ih hr
        exact ⟨congrArg (_ :: ·) hp, List.forall_mem_cons.mpr ⟨trivial, hf⟩⟩
      | rule name => exact @ih (some { name, offset }) ds h
      | item | action | separator | terminator => cases h
    · by_cases ht : piece = .terminator
      · subst ht
        obtain ⟨rest, hr, rfl⟩ := ok_of_assemble_cons h
        obtain ⟨hp, hf⟩ := ih hr
        refine ⟨?_, List.forall_mem_cons.mpr ⟨d.filled_close, hf⟩⟩
        rw [List.flatMap_cons, d.pieces_close, ← hp]
        simp [pending]
      · rw [assemble] at h
        cases hd : d.add piece with
        | error fault => rw [hd] at h; cases h
        | ok d' =>
          rw [hd] at h
          obtain ⟨hname, -, hpieces⟩ := Drafting.pieces_add hd
          obtain ⟨hp, hf⟩ := ih h
          refine ⟨?_, hf⟩
          rw [← hp, pending, pending, hname, hpieces]
          simp
        exact ht

/-! ## All pieces are read -/

section

variable {ps : List Located} {rest : List Piece} {d : Drafting}

theorem assemble_add {p : Located} {d' : Drafting} (h : d.add p.piece = .ok d') :
    assemble source (some d) (p :: ps) = assemble source (some d') ps := by
  obtain ⟨piece, offset⟩ := p
  cases piece <;> first | cases h; done | (simp only at h; rw [assemble, h]; simp)

/-- Items are read to their end. -/
theorem assemble_items (source : Text) {is : List (String × Option String)}
    (h : ps.map (·.piece) = is.map (fun (name, pattern) => .item name pattern) ++ rest) :
    ∃ qs, qs.map (·.piece) = rest ∧ ∀ d : Drafting, d.action = none →
      assemble source (some d) ps =
        assemble source (some { d with items := is.reverse ++ d.items }) qs := by
  induction is generalizing ps with
  | nil => exact ⟨ps, h, fun _ _ => rfl⟩
  | cons i is ih =>
    obtain ⟨p, ps, rfl, hp, hps⟩ := List.map_eq_cons_iff.mp h
    obtain ⟨qs, hqs, hrun⟩ := ih hps
    refine ⟨qs, hqs, fun d hd => ?_⟩
    have hadd : d.add p.piece = .ok { d with items := i :: d.items } := by
      rw [hp]
      simp [Drafting.add, hd]
    rw [assemble_add hadd, hrun { d with items := i :: d.items } hd]
    simp

/-- An alternative is read to its end, behind others or as the first. -/
theorem assemble_alternative (source : Text) {a : AlternativeSource}
    (h : ps.map (·.piece) = a.pieces ++ rest) :
    ∃ qs, qs.map (·.piece) = rest ∧ ∀ d : Drafting, d.items = [] → d.action = none →
      assemble source (some d) ps =
        assemble source (some { d with items := a.items.reverse, action := a.action }) qs := by
  obtain ⟨is, action⟩ := a
  rw [AlternativeSource.pieces, List.append_assoc] at h
  obtain ⟨qs, hqs, hrun⟩ := assemble_items source h
  cases action with
  | none =>
    refine ⟨qs, hqs, fun d hi ha => ?_⟩
    rw [hrun d ha, hi, List.append_nil]
    simp [← ha]
  | some name =>
    obtain ⟨q, qs, rfl, hq, hqs'⟩ := List.map_eq_cons_iff.mp hqs
    refine ⟨qs, hqs', fun d hi ha => ?_⟩
    rw [hrun d ha, hi, List.append_nil]
    refine assemble_add ?_
    rw [hq]
    simp [Drafting.add, ha]

/-- Alternatives are read to the end of their rule. -/
theorem assemble_barred (source : Text) {as : List AlternativeSource} (has : as ≠ [])
    (h : ps.map (·.piece) = barred as ++ .terminator :: rest) :
    ∃ qs, qs.map (·.piece) = rest ∧ ∀ d : Drafting, d.items = [] → d.action = none →
      assemble source (some d) ps = (do
        return .rule d.name (d.alternatives.reverse ++ as) :: (← assemble source none qs)) := by
  induction as generalizing ps with
  | nil => exact absurd rfl has
  | cons a as ih =>
    by_cases hne : as = []
    · subst hne
      obtain ⟨qs, hqs, hrun⟩ := assemble_alternative source h
      obtain ⟨⟨_, offset⟩, qs, rfl, rfl, hqs'⟩ := List.map_eq_cons_iff.mp hqs
      refine ⟨qs, hqs', fun d hi ha => ?_⟩
      rw [hrun d hi ha, assemble]
      simp [Drafting.close, Drafting.bar]
    · rw [barred_cons hne, List.append_assoc] at h
      obtain ⟨qs, hqs, hrun⟩ := assemble_alternative source h
      obtain ⟨q, qs, rfl, hq, hqs'⟩ := List.map_eq_cons_iff.mp hqs
      obtain ⟨qs', hqs', hrun'⟩ := ih hne hqs'
      refine ⟨qs', hqs', fun d hi ha => ?_⟩
      have hadd : ∀ e : Drafting, e.add q.piece = .ok e.bar := fun e => by rw [hq]; rfl
      rw [hrun d hi ha, assemble_add (hadd _), hrun' _ rfl rfl]
      simp [Drafting.bar]

end

theorem assemble_of_pieces {ds : List Declaration} (hf : ∀ d ∈ ds, d.Filled) :
    ∀ {ps : List Located}, ps.map (·.piece) = ds.flatMap (·.pieces) →
      assemble source none ps = .ok ds := by
  induction ds with
  | nil =>
    intro ps h
    rw [List.map_eq_nil_iff.mp h]
    rfl
  | cons d ds ih =>
    intro ps h
    obtain ⟨hd, hf'⟩ := List.forall_mem_cons.mp hf
    cases d with
    | start name | token name =>
      obtain ⟨⟨_, offset⟩, qs, rfl, rfl, hqs⟩ := List.map_eq_cons_iff.mp h
      rw [assemble, ih hf' hqs]
      rfl
    | rule name as =>
      obtain ⟨⟨_, offset⟩, qs, rfl, rfl, hqs⟩ := List.map_eq_cons_iff.mp h
      have hbarred : qs.map (·.piece) = barred as ++ .terminator :: ds.flatMap (·.pieces) := by
        simpa [List.flatMap_def] using hqs
      obtain ⟨qs', hqs', hrun⟩ := assemble_barred source hd hbarred
      rw [assemble, hrun _ rfl rfl, ih hf' hqs']
      rfl

/-- **Pieces are put together into the declarations whose pieces they are.** -/
theorem assemble_eq_ok_iff {ps : List Located} {ds : List Declaration} :
    assemble source none ps = .ok ds ↔
      (∀ d ∈ ds, d.Filled) ∧ ps.map (·.piece) = ds.flatMap (·.pieces) :=
  ⟨fun h => (pieces_of_assemble h).symm, fun ⟨hf, h⟩ => assemble_of_pieces hf h⟩

/-! ## What is blamed -/

/-- What is wrong is blamed on a piece, or on the head of the rule that is being read. -/
theorem offset_of_assemble {n : Nat} {e : SourceError} {ps : List Located} :
    ∀ {draft : Option Drafting}, (∀ d ∈ draft, d.offset ≤ n) → (∀ p ∈ ps, p.offset ≤ n) →
      assemble source draft ps = .error e → ∃ (o : Nat) (f : SourceFault), e = .fault source o f ∧ o ≤ n := by
  induction ps with
  | nil =>
    rintro (_ | d) hd - h
    · cases h
    · cases h
      exact ⟨d.offset, _, rfl, hd d rfl⟩
  | cons p ps ih =>
    obtain ⟨piece, offset⟩ := p
    intro draft hd hp h
    obtain ⟨hoffset, hps⟩ := List.forall_mem_cons.mp hp
    have hrest : ∀ {d : Declaration}, (do return d :: (← assemble source none ps) :
        Except SourceError (List Declaration)) = .error e → assemble source none ps = .error e := by
      intro d h
      cases hr : assemble source none ps with
      | error e' => rw [hr] at h; exact h
      | ok ds => rw [hr] at h; cases h
    cases draft with
    | none =>
      cases piece with
      | start name | token name => exact ih (by simp) hps (hrest h)
      | rule name => exact @ih (some { name, offset }) (by simpa using hoffset) hps h
      | item | action | separator | terminator =>
        cases h
        exact ⟨offset, _, rfl, hoffset⟩
    | some d =>
      by_cases ht : piece = .terminator
      · subst ht
        exact ih (by simp) hps (hrest h)
      · rw [assemble] at h
        cases hadd : d.add piece with
        | error fault =>
          rw [hadd] at h
          cases h
          exact ⟨offset, fault, rfl, hoffset⟩
        | ok d' =>
          rw [hadd] at h
          have hd' : d'.offset ≤ n := (Drafting.pieces_add hadd).2.1 ▸ hd d rfl
          exact @ih (some d') (by simpa using hd') hps h
        exact ht

end Outline
