import Outline.Proofs.Session.Limits
import Outline.Proofs.Session.Moment

/-!
# Parses inside parses

While a parse is in progress its text is at hand: an action that expands a span need not say what text it
is a span of, and the expansion is done by the matcher of the parse. An action may also parse another text.
Behind that the text of the outer parse is no longer at hand: a parse that ends leaves none, whatever was
there when it began.

* `State.inProgress`: the text in progress and the matcher at work on it;
* `Engine.invariant_forgotten`: while a text is in progress nothing is remembered;
* `Task.text_of_parse`: behind a parse no text is in progress;
* `Task.Leads.text_of_parse`: a parse inside which no other is begun is in progress to its end;
* **`Session.inProgress_parse`**: both, in every history.
-/

namespace Outline

open Engine

/-- The text of the parse in progress, and the matcher that is at work on it. -/
def State.inProgress (s : State) : Option (Text × Run) := s.text.map (·, s.run)

theorem State.inProgress_eq_none {s : State} : s.inProgress = none ↔ s.text = none := Option.map_eq_none_iff

variable {c : Settings} {s s' : State}

/-! ## Behind a parse -/

/-- While a text is in progress nothing is remembered: a parse that begins forgets what was, and a parse
that ends leaves no text in progress. -/
theorem Engine.invariant_forgotten (t₀ : Task) (s₀ : State) :
    Invariant c t₀ s₀ fun s => s.text.isSome → s.cache = none where
  run _ h := h
  report _ h := h
  forget _ _ := rfl
  begun _ _ _ := rfl
  parse _ _ _ _ ht := by
    rw [Matching.parseText_run] at ht
    split at ht <;> cases ht

/-- Behind a parse no text is in progress. -/
theorem Task.text_of_parse {room : Nat} {text : Text} {skip : Option Bool}
    (hs : s.text.isSome → s.cache = none) : ((parse (room + 1) text skip).run c s).2.text = none := by
  show (Matching.parseAll (level room).matchRule (level room) text skip c s).2.text = none
  rw [Matching.parseAll_run]
  split
  · rename_i k hk
    -- What is remembered has no text beside it.
    by_contra ht
    rw [hs (Option.isSome_iff_ne_none.mpr ht)] at hk
    cases hk
  · rw [Matching.parseText_run]
    split <;> rfl

theorem Engine.textOf_none {e : Expansion} (he : e.text = none) (hs : s.text = none) :
    (textOf e c s).1 = .error .noText := by
  obtain ⟨_, _, _, _, _⟩ := e
  obtain ⟨_, _, _, _⟩ := s
  cases he
  cases hs
  rfl

/-! ## Inside a parse -/

namespace Task

/-- If no parse is begun inside another, its text stays in progress. -/
theorem Leads.text_of_parse {room : Nat} {text : Text} {skip : Option Bool} {t : Task}
    (hlone : (parse room text skip).Lone c s) (h : (parse room text skip).Leads c s t s') :
    t = parse room text skip ∧ s' = s ∨ s'.text = some text := by
  obtain hself | ⟨t₁, s₁, hb, hl⟩ := h.head
  · exact Or.inl hself
  · right
    have hinvariant : Invariant c t₁ s₁ (·.text = some text) :=
      hlone.invariant hb (fun _ _ => id) (fun _ _ _ => id) fun _ => id
    cases hb with
    | readText hk hcut =>
      exact hinvariant.leads (.whole _ _ _) hl (congrArg State.text (eq_of_lex hcut))

end Task

/-! ## Histories -/

namespace Session

theorem Moment.text_of_parse {room : Nat} (m : Moment c room) {left : Nat} {text : Text}
    {skip : Option Bool} (hm : m.task = .parse (left + 1) text skip) : m.after.text = none := by
  rw [Moment.after, hm]
  exact Task.text_of_parse (m.invariant invariant_forgotten nofun fun _ _ ht => by cases ht)

/-- **What a parse leaves in progress.** Behind a parse nothing is in progress, so that what is in progress
is the same before and behind it just where no parse was in progress, or where there was no room to begin
one; an expansion without a text of its own fails from there on. If actions only look into spans, that never
happens inside a parse: in its whole course its text is in progress, and whatever is expanded is matched by
its matcher. -/
theorem inProgress_parse {c : Settings} {room : Nat} (m : Moment c room) {left : Nat} {text : Text}
    {skip : Option Bool} (hm : m.task = .parse left text skip) :
    (m.after.inProgress = m.state.inProgress ↔ left = 0 ∨ m.state.inProgress = none) ∧
    (0 < left → m.after.inProgress = none ∧ ∀ e : Expansion, e.text = none → ∀ below,
      ((level (below + 1)).expand e c m.after).1 = .error .noText ∧
      ((level (below + 1)).expandFull e c m.after).1 = .error .noText) ∧
    (c.Inward → ∀ (m : Moment c room) (text : Text) (skip : Option Bool), m.call = .parseAll text skip →
      m.task = m.call.task room ∨ m.state.text = some text ∧ m.state.atWork = m.state) := by
  refine ⟨?_, ?_, ?_⟩
  · cases left with
    | zero =>
      have hsame : m.after = m.state := by
        rw [Moment.after, hm]
        rfl
      exact ⟨fun _ => Or.inl rfl, fun _ => by rw [hsame]⟩
    | succ left =>
      have hnone := State.inProgress_eq_none.mpr (m.text_of_parse hm)
      refine ⟨fun h => Or.inr (h.symm.trans hnone), fun h => ?_⟩
      obtain h | h := h
      · cases h
      · exact hnone.trans h.symm
  · intro hleft
    obtain ⟨left, rfl⟩ : ∃ n, left = n + 1 := ⟨left - 1, by omega⟩
    have htext := m.text_of_parse hm
    exact ⟨State.inProgress_eq_none.mpr htext, fun e he below =>
      ⟨fst_bind_error (textOf_none he htext), fst_bind_error (textOf_none he htext)⟩⟩
  · rintro hc ⟨before, k, t, s, hl⟩ text skip rfl
    obtain ⟨rfl, -⟩ | htext := Task.Leads.text_of_parse (Task.lone_of_inward hc room text skip) hl
    · exact Or.inl rfl
    · exact Or.inr ⟨htext, State.atWork_of_text (by rw [show s.text = _ from htext]; rfl)⟩

/-- A parse that is called from outside leaves in progress what was in progress before: nothing. -/
theorem inProgress_ofCall :
    let m := Moment.ofCall { grammar := .groups } 4 [] (.parseAll (.ofString "(a)") none)
    m.state.inProgress = none ∧ m.after.inProgress = m.state.inProgress := by
  intro m
  exact ⟨rfl, (inProgress_parse m rfl).1.mpr (Or.inr rfl)⟩

end Session

/-! ## A text inside another -/

/-- An action that parses a text of its own. -/
def NamedAction.aside : NamedAction := ⟨"aside", .function fun _ start stop =>
  (Script.parsed (.ofString ";")).bind fun found =>
    .done (.tuple [.str "n", .tuple (found.map Construct.toValue), .int start, .int stop])⟩

/-- An action that looks at the first thing in a group. -/
def NamedAction.peep : NamedAction := ⟨"peep", .function fun values start stop =>
  (Script.expanded { span := values.headD .none, rule := "entry" }).bind fun
    | some found => .done (.tuple (found.fields ++ [.int start, .int stop]))
    | none => .done .none⟩

/-- Symbols, with or without a text aside, groups and punctuation marks. -/
def Grammar.interrupted (action : Option NamedAction) : Grammar := .ofRules
  [⟨"toplevel", [{ items := [.terminal ⟨.symbol, none⟩], action },
    { items := [.terminal ⟨.semanticList, none⟩], action := some .peep },
    { items := [.terminal ⟨.punctuation, none⟩] }]⟩,
    ⟨"entry", [{ items := [.terminal ⟨.symbol, none⟩] }]⟩]

/-- The row of a symbol and a group. -/
def Cursor.symbolAndGroup : Cursor :=
  ⟨.ofString "p (a)", #[⟨.symbol, 0, 1⟩, ⟨.semanticList, 2, 5⟩], 0, 5, 0⟩

/-- The action of the symbol has a text parsed aside. Behind it the text of the group is not in progress any
more, and the group cannot be looked into. Without the text aside it can. -/
theorem Session.inProgress_interrupted :
    (∃ m : Moment { grammar := .interrupted (some .aside) } 6,
      m.call = .parseAll (.ofString "p (a)") none ∧ m.task = .parse 5 (.ofString ";") none ∧
      m.state.text = some (.ofString "p (a)") ∧ m.after.inProgress ≠ m.state.inProgress) ∧
    ((⟨{ grammar := .interrupted (some .aside) }, none⟩ : Session).parseAll (.ofString "p (a)") none
      6).result = .error .noText ∧
    ((⟨{ grammar := .interrupted none }, none⟩ : Session).parseAll (.ofString "p (a)") none
      6).result.toOption.map List.length = some 2 := by
  let c : Settings := { grammar := .interrupted (some .aside) }
  let text := Text.ofString "p (a)"
  let entry := Cursor.symbolAndGroup.entry "toplevel"
  let begun : State := { text := some text, events := [.lexed 2 0 5 (some 0), .lexing] }
  let found : Collected := ({ stop := 0, cursor := .symbolAndGroup } : Collected).addLexeme ⟨.symbol, 0, 1⟩
    { Cursor.symbolAndGroup with index := 1 }
  have hlex : Engine.lex text 0 none c.depth c (Matching.begun text {}) = (.ok .symbolAndGroup, begun) := rfl
  have hunread : Cursor.symbolAndGroup.unread = 1 + 1 := rfl
  have hdefined : c.grammar.alternatives? "toplevel" = some
      [{ items := [.terminal ⟨.symbol, none⟩], action := some .aside },
        { items := [.terminal ⟨.semanticList, none⟩], action := some .peep },
        { items := [.terminal ⟨.punctuation, none⟩] }] := rfl
  have hshallow : (0 : Int) < 200 := by decide
  have hitems : (level 5).matchItems [.terminal ⟨.symbol, none⟩] { stop := 0, cursor := .symbolAndGroup } c
      (begun.enter entry).tally = (.ok (some found), (begun.enter entry).tally) := rfl
  have hrounds : Task.Leads c (.parse 6 text none) {} (.rounds 6 (Matching.wholeText (level 5) c text
      ((none : Option Bool).getD c.skipComments)) Cursor.symbolAndGroup.unread .symbolAndGroup #[]) begun :=
    .step .refl (.readText rfl hlex)
  rw [hunread] at hrounds
  have hrule := hrounds.step (.round rfl fun h => nomatch h.2)
  have hchoice := hrule.step (.enter ⟨hdefined, List.not_mem_nil, hshallow⟩)
  have hbuild := hchoice.step (.matched rfl rfl hitems)
  have hparse := (hbuild.step (.action rfl)).step .askParse
  refine ⟨⟨⟨[], .parseAll text none, _, _, hparse⟩, rfl, rfl, rfl, ?_⟩, rfl, by decide +kernel⟩
  intro h
  cases h

end Outline
