import Outline.Proofs.Matching.Calls
import Outline.Session

/-!
# When a rule is refused

A rule is refused where a match in progress has the same rule, the same stretch of text and the same place
in its row of lexemes. This says nothing about the text and the lexemes themselves: a stretch that is
expanded inside its own match is refused even if it is cut into other lexemes this time.

* `RuleCall.Refused`, `RuleCall.Refused.run`: a call is refused, and what it comes to;
* **`Pending.refused_iff`**: when that happens, and when the rule would really be matched again at the very
  same cursor;
* `NamedAction.look`, `Grammar.looking`: a group that is expanded by the rule that found it.
-/

namespace Outline

open Engine

/-- The rule of the call is defined, but it is in progress at what is taken for the same place. -/
structure RuleCall.Refused (c : Settings) (q : RuleCall) : Prop where
  defined : ∃ as, c.grammar.alternatives? q.rule = some as
  active : q.entry ∈ q.state.run.active

/-- A call that is refused fails at once. -/
theorem RuleCall.Refused.run {c : Settings} {q : RuleCall} (h : q.Refused c) (below : Level) :
    below.above.match? q.cursor q.rule c q.state = (.error (.leftRecursion q.rule), q.state) := by
  obtain ⟨as, has⟩ := h.defined
  cases hr : below.above.match? q.cursor q.rule c q.state with
  | mk r s' =>
    cases Level.ruleAttempt below c q.cursor q.rule hr with
    | undefined hn => rw [hn] at has; cases has
    | again => rfl
    | tooDeep _ ha => exact absurd h.active ha
    | entered _ ha => exact absurd h.active ha

theorem Goal.entry_eq_iff {p q : Goal} : p.entry = q.entry ↔ p.rule = q.rule ∧
    p.cursor.start = q.cursor.start ∧ p.cursor.stop = q.cursor.stop ∧
      p.cursor.index = q.cursor.index := by
  simp only [Goal.entry, Cursor.entry, Entry.mk.injEq]

/-- Two goals at what is taken for the same place are the same if the text and the lexemes are. -/
theorem Goal.eq_iff_of_entry {p q : Goal} (h : p.entry = q.entry) :
    p = q ↔ p.cursor.text = q.cursor.text ∧ p.cursor.lexemes = q.cursor.lexemes := by
  obtain ⟨hrule, hstart, hstop, hindex⟩ := Goal.entry_eq_iff.mp h
  obtain ⟨⟨t, ls, a, b, i⟩, name⟩ := p
  obtain ⟨⟨t', ls', a', b', i'⟩, name'⟩ := q
  simp only at hrule hstart hstop hindex
  subst hrule hstart hstop hindex
  simp

namespace Pending

variable {c : Settings} {top q : RuleCall} {room left : Nat} {ps : List RuleCall}

/-- A call is refused if and only if a match in progress has its entry. -/
theorem refused_iff_exists (h : Pending c top room left ps q) (ht : top.state.run.nesting = (0, [])) :
    q.Refused c ↔ ∃ p ∈ ps, p.entry = q.entry := by
  have hmem : q.entry ∈ q.state.run.active ↔ ∃ p ∈ ps, p.entry = q.entry := by
    rw [h.active_eq ht, List.mem_map]
  refine ⟨fun hq => hmem.mp hq.active, fun hp => ⟨?_, hmem.mpr hp⟩⟩
  obtain ⟨p, hp, he⟩ := hp
  exact (Goal.entry_eq_iff.mp he).1 ▸ h.defined p hp

/-- **When a rule is refused.** Below a call with which a matcher begins, a call is refused just if a match
in progress has the same rule, the same stretch and the same place in its row; it then fails at once. The
very same match is in progress just if what has these has the same text and the same lexemes too. -/
theorem refused_iff (h : Pending c top room left ps q) (ht : top.state.run.nesting = (0, [])) :
    (q.Refused c ↔ ∃ p ∈ ps, p.rule = q.rule ∧ p.cursor.start = q.cursor.start ∧
      p.cursor.stop = q.cursor.stop ∧ p.cursor.index = q.cursor.index) ∧
    (q.Refused c → ∀ below : Level,
      below.above.match? q.cursor q.rule c q.state = (.error (.leftRecursion q.rule), q.state)) ∧
    (q.Refused c → ((∃ p ∈ ps, p.toGoal = q.toGoal) ↔
      ∀ p ∈ ps, p.rule = q.rule → p.cursor.start = q.cursor.start → p.cursor.stop = q.cursor.stop →
        p.cursor.index = q.cursor.index →
          p.cursor.text = q.cursor.text ∧ p.cursor.lexemes = q.cursor.lexemes)) := by
  have hiff := h.refused_iff_exists ht
  refine ⟨hiff.trans ?_, fun hq => hq.run, fun hq => ⟨?_, fun hall => ?_⟩⟩
  · simp only [Goal.entry_eq_iff]
  · rintro ⟨p, hp, hpq⟩ p' hp' hrule hstart hstop hindex
    -- no entry is in progress twice, so that `p'` is `p`
    have he : p'.entry = p.entry := by
      rw [hpq]
      exact Goal.entry_eq_iff.mpr ⟨hrule, hstart, hstop, hindex⟩
    rw [List.inj_on_of_nodup_map (h.nodup ht) hp' hp he, hpq]
    exact ⟨rfl, rfl⟩
  · obtain ⟨p, hp, he⟩ := hiff.mp hq
    obtain ⟨hrule, hstart, hstop, hindex⟩ := Goal.entry_eq_iff.mp he
    exact ⟨p, hp, (Goal.eq_iff_of_entry he).mpr (hall p hp hrule hstart hstop hindex)⟩

end Pending

/-! ## A group that is expanded by its own rule -/

/-- An action that looks into a group with its brackets, by the rule of whole texts. -/
def NamedAction.look (depth : Int) : NamedAction := ⟨"look", .function fun values start stop =>
  match values with
  | [span] =>
    .expand { span, rule := "toplevel", depth := some depth, interior := false } fun answer =>
      match answer with
      | .ok (some found) => .done (.tuple (found.fields ++ [.int start, .int stop]))
      | .ok none => .done .none
      | .error e => .fail e
  | _ => .done .none⟩

/-- Groups, and symbols in brackets of their own. A group is looked into by the same rule. -/
def Grammar.looking (depth : Int) : Grammar := .ofRules
  [⟨"toplevel", [{ items := [.terminal ⟨.semanticList, none⟩], action := some (.look depth) },
    { items := [.terminal ⟨.openParen, none⟩, .terminal ⟨.symbol, none⟩,
        .terminal ⟨.closeParen, none⟩] }]⟩]

/-- No rule is entered from a rule, so that the grammar is well-formed. -/
theorem Grammar.fault?_looking : (looking 1).fault? = none :=
  fault?_eq_none_iff.mpr (.of_rank (by decide) (by decide) (fun _ => 0) (by decide))

namespace Session

/-- A new parser for such groups. -/
def looking (depth : Int) : Session := { settings := { grammar := .looking depth } }

/-- The start of the row of one group. -/
def group : Cursor := ⟨.ofString "(a)", #[⟨.semanticList, 0, 3⟩], 0, 3, 0⟩

/-- The start of the row of what the group is made of. -/
def opened : Cursor :=
  ⟨.ofString "(a)", #[⟨.openParen, 0, 1⟩, ⟨.symbol, 1, 2⟩, ⟨.closeParen, 2, 3⟩], 0, 3, 0⟩

/-- The first match of the text. -/
def first : RuleCall := ⟨⟨group, "toplevel"⟩, {
  text := some (.ofString "(a)")
  events := [.lexed 1 0 3 (some 0), .lexing] }⟩

/-- In the course of the first match the rule is asked for on the lexemes of the whole text, cut to the
depth. -/
theorem pending_looking {depth : Int} {cursor : Cursor}
    (hx : ({} : Lexer).lex (.ofString "(a)") 0 (some 3) (some depth) = .ok cursor) :
    ∃ s, Pending (looking depth).settings first 3 2 [first] ⟨⟨cursor, "toplevel"⟩, s⟩ := by
  let c := (looking depth).settings
  let entered := first.state.enter first.entry
  let found : Collected := ({ stop := 0, cursor := group } : Collected).addLexeme ⟨.semanticList, 0, 3⟩
    { group with index := 1 }
  have hdefined : c.grammar.alternatives? "toplevel" = some
      [{ items := [.terminal ⟨.semanticList, none⟩], action := some (.look depth) },
        { items := [.terminal ⟨.openParen, none⟩, .terminal ⟨.symbol, none⟩,
            .terminal ⟨.closeParen, none⟩] }] := rfl
  have hitems : (level 2).matchItems [.terminal ⟨.semanticList, none⟩] { stop := 0, cursor := group } c
      entered.tally = (.ok (some found), entered.tally) := rfl
  let lexed : State := { entered.tally with
    events := .lexed cursor.size cursor.start cursor.stop (some depth) :: .lexing :: entered.tally.events }
  have hspan : lexSpan (.ofString "(a)") (.span 0 3) (some depth) false c entered.tally =
      (.ok cursor, lexed) := by
    have hlex : lexSpan (.ofString "(a)") (.span 0 3) (some depth) false c entered.tally =
        Engine.lex (.ofString "(a)") 0 (some 3) (some depth) c entered.tally := rfl
    rw [hlex, Matching.lex_run]
    have hc : c.lexer.lex (.ofString "(a)") 0 (some 3) (some depth) = .ok cursor := hx
    rw [hc]
  have hasks : (level 2).AlternativeAsks c group
      { items := [.terminal ⟨.semanticList, none⟩], action := some (.look depth) } entered
      ⟨⟨cursor, "toplevel"⟩, lexed⟩ :=
    .action rfl rfl hitems rfl (.expand rfl rfl hspan)
  have hshallow : (0 : Int) < 200 := by decide
  exact ⟨lexed, .inner .start ⟨_, ⟨hdefined, List.not_mem_nil, hshallow⟩, .here hasks⟩⟩

theorem lex_looking : (looking 1).settings.lexer.lex (.ofString "(a)") 0 none (some 0) = .ok group ∧
    ({} : Lexer).lex (.ofString "(a)") 0 (some 3) (some 0) = .ok group ∧
    ({} : Lexer).lex (.ofString "(a)") 0 (some 3) (some 1) = .ok opened := by decide +kernel

/-- Looked into without going into brackets the group is met again just as it is, and its rule is
refused. -/
theorem refused_looking : ∃ s, Pending (looking 0).settings first 3 2 [first] ⟨⟨group, "toplevel"⟩, s⟩ ∧
    (⟨⟨group, "toplevel"⟩, s⟩ : RuleCall).Refused (looking 0).settings ∧
    ∃ p ∈ [first], p.toGoal = ⟨group, "toplevel"⟩ := by
  obtain ⟨s, hp⟩ := pending_looking lex_looking.2.1
  obtain ⟨hiff, -, hsame⟩ := hp.refused_iff rfl
  have hq := hiff.mpr ⟨first, List.mem_singleton_self _, rfl, rfl, rfl, rfl⟩
  refine ⟨s, hp, hq, (hsame hq).mpr fun p hp _ _ _ _ => ?_⟩
  rw [List.mem_singleton.mp hp]
  exact ⟨rfl, rfl⟩

/-- Looked into one level deeper the group is a row of three lexemes, of which none has been looked at so
far. Its rule is refused all the same, and the parse fails. -/
theorem refused_looking_deeper :
    (looking 1).settings.grammar.fault? = none ∧
    Engine.lex (.ofString "(a)") 0 none (some 0) (looking 1).settings (Matching.begun (.ofString "(a)") {}) =
      (.ok group, first.state) ∧
    (∃ s, Pending (looking 1).settings first 3 2 [first] ⟨⟨opened, "toplevel"⟩, s⟩ ∧
      (⟨⟨opened, "toplevel"⟩, s⟩ : RuleCall).Refused (looking 1).settings) ∧
    (¬ ∃ p ∈ [first], p.rule = "toplevel" ∧ p.cursor.index = opened.index ∧
      p.cursor.text = opened.text ∧ p.cursor.lexemes = opened.lexemes) ∧
    ((looking 1).parseAll (.ofString "(a)") none 4).result = .error (.leftRecursion "toplevel") := by
  obtain ⟨s, hp⟩ := pending_looking lex_looking.2.2
  refine ⟨Grammar.fault?_looking, rfl, ⟨s, hp, ?_⟩, ?_, rfl⟩
  · exact (hp.refused_iff_exists rfl).mpr ⟨first, List.mem_singleton_self _, rfl⟩
  · rintro ⟨p, hp, -, -, -, hls⟩
    rw [List.mem_singleton.mp hp] at hls
    revert hls
    decide

end Session

end Outline
