import Outline.Proofs.Grammar.WellFormed
import Outline.Proofs.Lexeme.Reading
import Outline.Proofs.Matching.Attempt

/-!
# Matches lead forward

A match leads to a cursor further on, and only a rule that can match without reading anything leads to
the cursor where it began. Nothing is asked of the grammar, of the actions or of the limits.

* `Grammar.Skips`: the items that can match without reading;
* `Cursor.Moves`: a cursor further on, or the same one for a reason;
* `Level.Advances`, **`Level.advances`**: whatever a level matches leads forward.
-/

namespace Outline

/-- The item is a rule that can match without reading anything. -/
def Grammar.Skips (g : Grammar) (i : Item) : Prop := ∃ name, i = .rule name ∧ g.Derives name

theorem Grammar.derives_of_skips {g : Grammar} {r : Rule} {a : Alternative} (hr : r ∈ g.rules)
    (ha : a ∈ r.alternatives) (h : ∀ i ∈ a.items, g.Skips i) : g.Derives r.name := by
  have hall : a.allOf g.nullable = true := by
    simp only [Alternative.allOf, List.all_eq_true]
    intro i hi
    obtain ⟨name, rfl, hn⟩ := h i hi
    simpa using mem_nullable_iff.mpr hn
  exact mem_nullable_iff.mp (closed_nullable r hr a ha hall)

namespace Cursor

/-- A cursor is reached by reading, and it stands at the same place only if `idle` holds. -/
structure Moves (c : Cursor) (idle : Prop) (d : Cursor) : Prop where
  ahead : c.Ahead d
  idle_of_eq : d.index = c.index → idle

variable {c d e : Cursor} {p q : Prop}

theorem Moves.imp (h : c.Moves p d) (hpq : p → q) : c.Moves q d :=
  ⟨h.ahead, fun hi => hpq (h.idle_of_eq hi)⟩

theorem Moves.trans (h : c.Moves p d) (h' : d.Moves q e) : c.Moves (p ∧ q) e := by
  refine ⟨h.ahead.trans h'.ahead, fun hi => ?_⟩
  have h1 := h.ahead.le
  have h2 := h'.ahead.le
  exact ⟨h.idle_of_eq (by omega), h'.idle_of_eq (by omega)⟩

end Cursor

namespace Level

variable {below : Level} {c : Settings}

/-- Whatever the level matches leads forward. -/
def Advances (below : Level) (c : Settings) : Prop :=
  ∀ (cursor : Cursor) (name : String) (s : State) (m : Match),
    (below.match? cursor name c s).1 = .ok (some m) →
      cursor.Moves (c.grammar.Derives name) m.cursor

theorem moves_item (hb : below.Advances c) {k k' : Collected} {i : Item} {s s' : State}
    (h : ItemAttempt below c k s i (.ok (some k')) s') :
    k.cursor.Moves (c.grammar.Skips i) k'.cursor := by
  cases h with
  | @construct name cursor found _ hm =>
    have hmoves := hb k.cursor name s ⟨cursor, some found⟩ (by rw [hm])
    exact hmoves.imp fun hd => ⟨name, rfl, hd⟩
  | lexeme hn =>
    have hr := Cursor.next_eq_some_iff.mp hn
    refine ⟨hr.toAhead, fun hi => ?_⟩
    have hlt := hr.ahead
    change _ = _ at hi
    exact absurd hi (by simp only [Collected.addLexeme]; omega)

theorem moves_items (hb : below.Advances c) : ∀ (is : List Item) {k k' : Collected} {s s' : State},
    below.matchItems is k c s = (.ok (some k'), s') →
      k.cursor.Moves (∀ i ∈ is, c.grammar.Skips i) k'.cursor
  | [], k, k', s, s', h => by
    cases h
    exact ⟨.refl _, fun _ i hi => absurd hi List.not_mem_nil⟩
  | i :: is, k, k', s, s', h => by
    obtain ⟨e, -, he⟩ | ⟨-, he⟩ | ⟨k₁, s₁, hi, h⟩ := matchItems_cons below c h
    · cases he
    · cases he
    · have h1 := moves_item hb hi
      have h2 := moves_items hb is h
      exact (h1.trans h2).imp fun ⟨h, hs⟩ => List.forall_mem_cons.mpr ⟨h, hs⟩

theorem moves_alternative (hb : below.Advances c) {cursor : Cursor} {name : String}
    {a : Alternative} {s s' : State} {m : Match}
    (h : AlternativeAttempt below c cursor name a s (.ok (some m)) s') :
    cursor.Moves (∀ i ∈ a.items, c.grammar.Skips i) m.cursor := by
  generalize hr : Except.ok (some m) = r at h
  cases h with
  | aborted => cases hr
  | lost => cases hr
  | raised => cases hr
  | noMatch => cases hr
  | @built offset k r s₁ _ ho h hk =>
    have hmoves := moves_items hb a.items h
    obtain ⟨v, -, rfl⟩ | ⟨e, -, rfl⟩ := build_cases below c hk
    · rwa [Alternative.cursor_of_verdict hr.symm] at hmoves
    · cases hr

theorem moves_alternatives (hb : below.Advances c) {cursor : Cursor} {name : String} {m : Match} :
    ∀ (as : List Alternative) (number : Nat) {s s' : State},
      below.tryAlternatives cursor name number as c s = (.ok (some m), s') →
      ∃ a ∈ as, cursor.Moves (∀ i ∈ a.items, c.grammar.Skips i) m.cursor
  | [], _, _, _, h => by cases h
  | a :: as, number, s, s', h => by
    obtain ⟨e, -, he⟩ | ⟨m', s₁, ha, hm, -⟩ | ⟨s₁, -, h⟩ := tryAlternatives_cons below c h
    · cases he
    · cases hm
      exact ⟨a, List.mem_cons_self, moves_alternative hb ha⟩
    · obtain ⟨b, hbm, hb⟩ := moves_alternatives hb as (number + 1) h
      exact ⟨b, List.mem_cons_of_mem _ hbm, hb⟩

theorem advances_above (hb : below.Advances c) : below.above.Advances c := by
  intro cursor name s m h
  change (below.matchRule cursor name c s).1 = _ at h
  cases hm : below.matchRule cursor name c s with
  | mk r s' =>
    rw [hm] at h
    change r = _ at h
    subst h
    cases ruleAttempt below c cursor name hm with
    | @entered as _ _ has _ _ hr =>
      obtain ⟨rule, hrule, rfl, rfl⟩ := Grammar.alternatives?_eq_some has
      obtain ⟨a, ha, hmoves⟩ := moves_alternatives hb rule.alternatives 0 hr
      exact hmoves.imp (Grammar.derives_of_skips hrule ha)

/-- **A match leads forward, unless its rule can match without reading anything.** -/
theorem advances (c : Settings) : ∀ room, (level room).Advances c
  | 0 => by
    intro cursor name s m h
    cases h
  | room + 1 => advances_above (advances c room)

end Level

end Outline
