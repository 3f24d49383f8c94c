import Outline.Proofs.Matching.OrderedChoice

/-!
# Derivations

Why a rule matched: which alternative did, what its items found, which lexemes the terminals read on
the way, and which bounds its action was handed. Nothing is said about what did not match.

* `Alternative.Direct`: actions that ask for nothing;
* `Placed`: a lexeme and its place, which is what a terminal reads;
* `Grammar.Parses`, `Grammar.ParsesRow`: derivations of a rule and of a row of items;
* `Level.Parsing`, **`Level.parsing`**: every match of every level has a derivation, whatever the limits
  are and whichever rules are in progress.
-/

namespace Outline

open Engine

/-- The action, if it is a function, asks for nothing. -/
def Alternative.Direct (a : Alternative) : Prop :=
  ∀ name run, a.action = some ⟨name, .function run⟩ → ∀ values start stop,
    (run values start stop).Direct

/-- A lexeme and its place in the row. -/
structure Placed where
  lexeme : Lexeme
  place : Int

namespace Grammar

mutual

/-- A rule matches: the items of an alternative match, its action is handed the bounds of what they
found, and what the action makes is the match. The readings are those of the terminals in order. -/
inductive Parses (g : Grammar) :
    Cursor → String → (start stop : Int) → Match → List Placed → Prop where
  | rule {c d : Cursor} {name : String} {as : List Alternative} {a : Alternative} {offset : Int}
      {fs : List Finding} {rs : List Placed} {v : Value} {m : Match}
      (h : g.alternatives? name = some as) (ha : a ∈ as) (ho : c.offset = .ok offset)
      (hr : ParsesRow g c a.items fs d rs)
      (hv : a.Builds (a.collected fs) (Finding.start offset fs) (Finding.stop offset fs) v)
      (hm : a.verdict name d v = .ok m) :
      Parses g c name (Finding.start offset fs) (Finding.stop offset fs) m rs

/-- A row of items matches from left to right. -/
inductive ParsesRow (g : Grammar) :
    Cursor → List Item → List Finding → Cursor → List Placed → Prop where
  | nil {c : Cursor} : ParsesRow g c [] [] c []
  | lexeme {c d e : Cursor} {t : Terminal} {l : Lexeme} {is : List Item} {fs : List Finding}
      {rs : List Placed} (h : c.Reads (t.kind != .comment) l d)
      (hl : l.kind = t.kind ∧ t.accepts (l.text c.text)) (hr : ParsesRow g d is fs e rs) :
      ParsesRow g c (.terminal t :: is) (.ofLexeme l c.text :: fs) e (⟨l, d.index - 1⟩ :: rs)
  | construct {c d e : Cursor} {name : String} {start stop : Int} {found : Construct}
      {is : List Item} {fs : List Finding} {ps rs : List Placed}
      (h : Parses g c name start stop ⟨d, some found⟩ ps) (hr : ParsesRow g d is fs e rs) :
      ParsesRow g c (.rule name :: is) (.ofConstruct found c d :: fs) e (ps ++ rs)

end

end Grammar

/-! ## Matches have derivations -/

namespace Level

variable {below : Level} {c : Settings}

/-- Every match of the level has a derivation. -/
def Parsing (below : Level) (c : Settings) : Prop :=
  ∀ (cursor : Cursor) (name : String) (s : State) (m : Match),
    (below.match? cursor name c s).1 = .ok (some m) →
      ∃ start stop rs, c.grammar.Parses cursor name start stop m rs

theorem parses_items (hb : below.Parsing c) : ∀ (is : List Item) {k k' : Collected} {s s' : State},
    below.matchItems is k c s = (.ok (some k'), s') →
      ∃ fs d rs, c.grammar.ParsesRow k.cursor is fs d rs ∧ k' = k.addAll fs d
  | [], k, k', s, s', h => by
    cases h
    exact ⟨[], k.cursor, [], .nil, k.addAll_nil.symm⟩
  | i :: is, k, k', s, s', h => by
    obtain ⟨e, -, he⟩ | ⟨-, he⟩ | ⟨k₁, s₁, hi, h⟩ := matchItems_cons below c h
    · cases he
    · cases he
    · obtain ⟨fs, e, rs, hr, rfl⟩ := parses_items hb is h
      cases hi with
      | @construct name cursor found _ hm =>
        obtain ⟨start, stop, ps, hp⟩ := hb k.cursor name s ⟨cursor, some found⟩ (by rw [hm])
        refine ⟨_, e, ps ++ rs, .construct hp hr, ?_⟩
        rw [Collected.addConstruct_eq, Collected.addAll_cons]
      | @lexeme t l cursor hn hl =>
        have ht := (Cursor.next_cursor hn).1
        rw [ht] at hl
        refine ⟨_, e, _ :: rs, .lexeme (Cursor.next_eq_some_iff.mp hn) hl hr, ?_⟩
        rw [Collected.addLexeme_eq, ht, Collected.addAll_cons]

theorem builds_of_runAction {a : Alternative} (ha : a.Direct) {values : List Value}
    {start stop : Int} {s s' : State} {v : Value}
    (h : below.runAction a values start stop c s = (.ok v, s')) :
    a.Builds values start stop v := by
  unfold runAction at h
  cases hn : a.action with
  | none =>
    rw [hn] at h
    cases h
    exact .default hn
  | some named =>
    rw [hn] at h
    obtain ⟨label, run | type⟩ := named
    · have hd := ha label run hn values start stop
      simp only at h
      generalize hs : run values start stop = script at h hd
      cases hd with
      | done v' =>
        cases h
        exact .action hn hs
      | fail e => cases h
    · cases h

/-- What is collected behind the items of an alternative, as its action gets it. -/
theorem parses_alternative (hb : below.Parsing c) {cursor : Cursor} {name : String}
    {a : Alternative} (ha : a.Direct) {s s' : State} {m : Match}
    (h : AlternativeAttempt below c cursor name a s (.ok (some m)) s') :
    ∃ offset fs d rs v, cursor.offset = .ok offset ∧ c.grammar.ParsesRow cursor a.items fs d rs ∧
      a.Builds (a.collected fs) (Finding.start offset fs) (Finding.stop offset fs) v ∧
      a.verdict name d v = .ok m := by
  generalize hr : Except.ok (some m) = r at h
  cases h with
  | aborted => cases hr
  | lost => cases hr
  | raised => cases hr
  | noMatch => cases hr
  | @built offset k r s₁ _ ho h hk =>
    obtain ⟨fs, d, rs, hrow, rfl⟩ := parses_items hb a.items h
    obtain ⟨v, hrun, rfl⟩ | ⟨e, -, rfl⟩ := build_cases below c hk
    · have hv := builds_of_runAction ha hrun
      obtain ⟨hstart, hstop⟩ := Collected.span_addAll offset cursor d fs
      rw [hstart, hstop, valuesOf, Collected.values_addAll] at hv
      refine ⟨offset, fs, d, rs, v, ho, hrow, hv, ?_⟩
      change _ = Except.map some (a.verdict name d v) at hr
      cases hd : a.verdict name d v <;> rw [hd] at hr <;> cases hr
      rfl
    · cases hr

theorem attempt_of_alternatives {cursor : Cursor} {name : String} {m : Match} :
    ∀ (as : List Alternative) (number : Nat) {s s' : State},
      below.tryAlternatives cursor name number as c s = (.ok (some m), s') →
      ∃ a ∈ as, ∃ s s', AlternativeAttempt below c cursor name a s (.ok (some m)) s'
  | [], _, _, _, h => by cases h
  | a :: as, number, s, s', h => by
    obtain ⟨e, -, he⟩ | ⟨m', s₁, hm, he, -⟩ | ⟨s₁, -, h⟩ := tryAlternatives_cons below c h
    · cases he
    · cases he
      exact ⟨a, List.mem_cons_self, s, s₁, hm⟩
    · obtain ⟨b, hbm, hatt⟩ := attempt_of_alternatives as (number + 1) h
      exact ⟨b, List.mem_cons_of_mem _ hbm, hatt⟩

theorem parsing_above (hd : ∀ r ∈ c.grammar.rules, ∀ a ∈ r.alternatives, a.Direct)
    (hb : below.Parsing c) : below.above.Parsing c := by
  intro cursor name s m h
  change (below.matchRule cursor name c s).1 = _ at h
  cases hm : below.matchRule cursor name c s with
  | mk r s' =>
    rw [hm] at h
    change r = _ at h
    subst h
    cases ruleAttempt below c cursor name hm with
    | @entered as _ _ has _ _ hr =>
      obtain ⟨rule, hrule, -, rfl⟩ := Grammar.alternatives?_eq_some has
      obtain ⟨a, ha, s₁, s₂, hatt⟩ := attempt_of_alternatives rule.alternatives 0 hr
      obtain ⟨offset, fs, d, rs, v, ho, hrow, hv, hver⟩ := parses_alternative hb (hd rule hrule a ha) hatt
      exact ⟨_, _, rs, .rule has ha ho hrow hv hver⟩

/-- **Every match has a derivation.** -/
theorem parsing (hd : ∀ r ∈ c.grammar.rules, ∀ a ∈ r.alternatives, a.Direct) :
    ∀ room, (level room).Parsing c
  | 0 => by
    intro cursor name s m h
    cases h
  | room + 1 => parsing_above hd (parsing hd room)

end Level

end Outline
