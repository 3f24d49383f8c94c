import Outline.Proofs.Engine.Turns
import Outline.Proofs.Matching.Nesting
import Outline.Session

/-!
# The work of a parser is bounded

On any grammar, also one that is not well-formed, matches are nested no deeper than there are rules and
places to enter them at, and a whole text takes no more rounds than it has lexemes.

* `Matching.turns_of_inProgress`, `Session.turns_of_parseAll`: the rounds behind a parse;
* **`Grammar.bounded`**: how deep matches are nested, and how many rounds there are.
-/

namespace Outline

open Engine

/-- What a parse in progress comes to is what the rounds over its lexemes come to. -/
theorem Matching.turns_of_inProgress {rule : Matching} (below : Level) {c : Settings} {text : Text}
    (skipComments : Bool) {cursor : Cursor} {s s₁ : State} (ha : rule.Advances c)
    (hl : Engine.lex text 0 none c.depth c s = (.ok cursor, s₁)) (hs : s₁.text.isSome = true) :
    ∃ cs out s', rule.Turns (wholeText below c text skipComments) c cursor s₁ cs out s' ∧
      rule.inProgress below c text skipComments c s = (out, s') := by
  obtain ⟨cs, out, s', hturns, hrounds⟩ := turns_of_rounds
    (r := wholeText below c text skipComments) ha cursor.unread cursor #[] s₁ le_rfl
  refine ⟨cs, out, s', hturns, ?_⟩
  rw [inProgress, bind_run_ok hl, repeatedly, withMatcher_run _ hs]
  cases out with
  | error e => exact bind_run_error hrounds
  | ok found =>
    rw [bind_run_ok hrounds]
    simp

namespace Session

/-- A parser that begins to parse a text, and what it knows when the lexemes are there. -/
def lexed (s : Session) (text : Text) : State :=
  (Engine.lex text 0 none s.settings.depth s.settings (Matching.begun text { cache := s.cache })).2

/-- What a parse gives is what is remembered of the text, a complaint of the lexer, or what the rounds over
the lexemes come to: however many there are, each begins further on than the one before. -/
theorem turns_of_parseAll (s : Session) (text : Text) (skip : Option Bool) (room : Nat) :
    (∃ k ∈ s.cache, k.isValidFor text (skip.getD s.settings.skipComments) = true ∧
      (s.parseAll text skip (room + 1)).result = .ok k.constructs) ∨
    (∃ e, s.settings.lexer.lex text 0 none s.settings.depth = .error e ∧
      (s.parseAll text skip (room + 1)).result = .error (.lex e)) ∨
    ∃ cursor cs out s', s.settings.lexer.lex text 0 none s.settings.depth = .ok cursor ∧
      Matching.Turns (level room).matchRule
        (Matching.wholeText (level room) s.settings text (skip.getD s.settings.skipComments)) s.settings
        cursor (s.lexed text) cs out s' ∧
      (s.parseAll text skip (room + 1)).result = out ∧
      cs.Pairwise (·.index < ·.index) ∧ cs.length ≤ cursor.size := by
  obtain ⟨c, cache⟩ := s
  let rule : Matching := (level room).matchRule
  have hresult : ((⟨c, cache⟩ : Session).parseAll text skip (room + 1)).result =
      (rule.parseAll (level room) text skip c { cache }).1 := rfl
  rw [hresult, Matching.parseAll_run]
  cases hk : cache.filter (·.isValidFor text (skip.getD c.skipComments)) with
  | some k =>
    obtain ⟨hmem, hv⟩ := Option.filter_eq_some_iff.mp hk
    exact Or.inl ⟨k, hmem, hv, rfl⟩
  | none =>
    simp only [Matching.parseText_run]
    have hlex := Matching.lex_run (c := c) text 0 none c.depth (Matching.begun text { cache })
    cases hx : c.lexer.lex text 0 none c.depth with
    | error e =>
      rw [hx] at hlex
      refine Or.inr (Or.inl ⟨e, rfl, ?_⟩)
      rw [Matching.inProgress, bind_run_error hlex]
    | ok cursor =>
      rw [hx] at hlex
      have hlexed : (⟨c, cache⟩ : Session).lexed text = _ := congrArg Prod.snd hlex
      obtain ⟨cs, out, s', hturns, hp⟩ := Matching.turns_of_inProgress (level room)
        (skip.getD c.skipComments) (Matching.advances_level c (room + 1)) hlex rfl
      obtain ⟨hplaces, -, hcount⟩ := hturns.places (Matching.advances_level c (room + 1))
      refine Or.inr (Or.inr ⟨cursor, cs, out, s', rfl, hlexed ▸ hturns, ?_, hplaces, ?_⟩)
      · have hp : rule.inProgress (level room) c text (skip.getD c.skipComments) c
            (Matching.begun text { cache }) = (out, s') := hp
        rw [hp]
        cases out <;> rfl
      · refine hcount.trans_eq ?_
        rw [Cursor.unread, (Lexer.start_of_lex hx).2]
        omega

end Session

/-- **Parsing is bounded on every grammar.** If actions ask for nothing, a matcher at rest never has more
matches in progress than there are rules and places left to enter them at, so that a nesting limit that
allows for as many is never met, however many alternatives may be tried. And whatever actions do, a text
takes at most as many rounds as it has lexemes, each beginning further on than the one before. -/
theorem Grammar.bounded (g : Grammar) :
    (g.Direct → ∀ (m : Matcher) (cursor : Cursor) (rule : String) (room : Nat), m.grammar = g →
      m.AtRest →
      (∀ left ps q, Pending m.settings (m.call cursor rule) room left ps q →
        ps.length ≤ g.rules.length * (cursor.unread + 1) ∧
        ∀ as, q.Entered m.settings as → (q :: ps).length ≤ g.rules.length * (cursor.unread + 1)) ∧
      ((g.rules.length * (cursor.unread + 1) : Nat) ≤ m.limits.maxDepth →
        g.rules.length * (cursor.unread + 1) < room → ∀ name limit offset,
          (m.match? cursor rule room).1 = .error (.nestingLimit name limit offset) →
            g.Raises (.nestingLimit name limit offset) ∨ g.Raises .stackOverflow)) ∧
    ∀ (s : Session) (text : Text) (skip : Option Bool) (room : Nat), s.settings.grammar = g →
      (∃ k ∈ s.cache, k.isValidFor text (skip.getD s.settings.skipComments) = true ∧
        (s.parseAll text skip (room + 1)).result = .ok k.constructs) ∨
      (∃ e, s.settings.lexer.lex text 0 none s.settings.depth = .error e ∧
        (s.parseAll text skip (room + 1)).result = .error (.lex e)) ∨
      ∃ cursor cs out s', s.settings.lexer.lex text 0 none s.settings.depth = .ok cursor ∧
        Matching.Turns (level room).matchRule
          (Matching.wholeText (level room) s.settings text (skip.getD s.settings.skipComments))
          s.settings cursor (s.lexed text) cs out s' ∧
        (s.parseAll text skip (room + 1)).result = out ∧
        cs.Pairwise (·.index < ·.index) ∧ cs.length ≤ cursor.size := by
  constructor
  · rintro hd m cursor rule room rfl hm
    refine ⟨fun left ps q hp => ⟨hp.length_le hd hm, fun as hq => ?_⟩, fun hmax hroom _ _ _ h => ?_⟩
    · exact hp.length_lt hd hm hq.defined hq.fresh
    · exact m.raises_of_match? hd hm hmax hroom h
  · exact fun s text skip room _ => s.turns_of_parseAll text skip room

/-! ## A rule that goes on with itself -/

/-- A rule that goes on with itself behind a symbol, or reads nothing. -/
def Grammar.chain : Grammar := .ofRules
  [⟨"toplevel", [{ items := [.terminal ⟨.symbol, none⟩, .rule "toplevel"] }, {}]⟩]

/-- The start of a row of two symbols. -/
def Cursor.twoSymbols : Cursor where
  text := .ofString "a b"
  lexemes := #[⟨.symbol, 0, 1⟩, ⟨.symbol, 2, 3⟩]
  start := 0
  stop := 3

theorem Grammar.not_action_chain : ∀ r ∈ chain.rules, ∀ a ∈ r.alternatives, a.action = none := by
  have hnone : ∀ r ∈ chain.rules, ∀ a ∈ r.alternatives, a.action.isNone := by decide
  exact fun r hr a ha => Option.isNone_iff_eq_none.mp (hnone r hr a ha)

/-- Two symbols are matched with three matches in progress at once, which is as many as there can be; a
limit of three is not met. A text of two symbols takes two rounds at most. -/
theorem Grammar.bounded_chain :
    (({ grammar := .chain, limits := ⟨3, none⟩ } : Matcher).match? .twoSymbols "toplevel" 4).1.isOk ∧
    (∀ name limit offset,
      (({ grammar := .chain, limits := ⟨3, none⟩ } : Matcher).match? .twoSymbols "toplevel" 4).1 ≠
        .error (.nestingLimit name limit offset)) ∧
    (∀ left ps q, Pending { grammar := .chain, limits := ⟨3, none⟩ } ⟨⟨.twoSymbols, "toplevel"⟩, {}⟩ 4
      left ps q → ps.length ≤ 3) ∧
    ∃ cs out s', Matching.Turns (level 3).matchRule
      (Matching.wholeText (level 3) { grammar := .chain } (.ofString "a b") true) { grammar := .chain }
      .twoSymbols (({ settings := { grammar := .chain } } : Session).lexed (.ofString "a b")) cs out s' ∧
      cs.length ≤ 2 := by
  have hnone : ∀ e, ¬ Grammar.chain.Raises e := by
    rintro e ⟨r, hr, a, ha, label, run, hn, -⟩
    rw [Grammar.not_action_chain r hr a ha] at hn
    cases hn
  have hd : Grammar.chain.Direct := fun r hr a ha name run hn => by
    rw [Grammar.not_action_chain r hr a ha] at hn
    cases hn
  obtain ⟨hmatch, hparse⟩ := Grammar.bounded .chain
  obtain ⟨hdeep, hlimit⟩ := hmatch hd { grammar := .chain, limits := ⟨3, none⟩ } .twoSymbols "toplevel" 4
    rfl rfl
  refine ⟨by decide +kernel, fun name limit offset h => ?_, fun left ps q hp => (hdeep left ps q hp).1, ?_⟩
  · obtain hr | hr := hlimit (by decide) (by decide) name limit offset h
    · exact hnone _ hr
    · exact hnone _ hr
  · have hlex : ({} : Lexer).lex (.ofString "a b") 0 none (some 0) = .ok .twoSymbols := by
      decide +kernel
    obtain ⟨k, hk, -⟩ | ⟨e, he, -⟩ | ⟨cursor, cs, out, s', hc, hturns, -, -, hcount⟩ :=
      hparse { settings := { grammar := .chain } } (.ofString "a b") none 3 rfl
    · cases hk
    · rw [show _ = _ from hlex] at he
      cases he
    · rw [show _ = _ from hlex] at hc
      cases hc
      exact ⟨cs, out, s', hturns, hcount⟩

end Outline
