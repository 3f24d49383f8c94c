import Outline.Proofs.Engine.Round
import Outline.Proofs.Matching.Guard

/-!
# The calls of a run

A rule that is matched asks for other rules: for those among its items, and, if its action looks into
spans, for those that the spans are expanded by. The calls that have begun and not ended are a stack, and
the list that a matcher keeps of the rules in progress is that stack, from any one call on.

* `RuleCall`: a rule that is asked for at a cursor, and what is known then;
* `Level.ItemsAsk`, `Level.ChoiceAsks`: what items and alternatives ask for;
* `Level.RoundsAsk`, `Level.ScriptAsks`: what an expansion and an action ask for. An expansion outside of
  a parse has a matcher of its own, with which a new stack begins;
* `RuleCall.Asks`: a rule that is entered asks for another;
* `Pending`: the calls in progress below one call, and the call that is next;
* **`Pending.nesting`**, `Pending.nodup`: the list of the matcher is the stack, and no call is in it twice.
-/

namespace Outline

open Engine

/-- A rule that is asked for at a cursor, and what is known then. -/
structure RuleCall extends Goal where
  state : State

namespace Level

variable (below : Level) (c : Settings)

/-! ## What is asked for -/

/-- Matching items behind `k` asks for a rule: all items before it match. -/
inductive ItemsAsk : List Item → Collected → State → RuleCall → Prop where
  | here {name : String} {is : List Item} {k : Collected} {s : State} :
      ItemsAsk (.rule name :: is) k s ⟨⟨k.cursor, name⟩, s⟩
  | later {i : Item} {is : List Item} {k k' : Collected} {s s' : State} {q : RuleCall}
      (h : below.matchItem k i c s = (.ok (some k'), s')) (hq : ItemsAsk is k' s' q) :
      ItemsAsk (i :: is) k s q

/-- Matching a rule until a span is used up asks for the rule in each round, but not where a comment is
passed over. -/
inductive RoundsAsk (name : String) : Cursor → State → RuleCall → Prop where
  | here {cursor : Cursor} {l : Lexeme} {s : State} (h : cursor.peek = .ok (some l))
      (hl : l.kind ≠ .comment) : RoundsAsk name cursor s ⟨⟨cursor, name⟩, s⟩
  | comment {cursor : Cursor} {l : Lexeme} {s : State} {q : RuleCall} (h : cursor.peek = .ok (some l))
      (hl : l.kind = .comment) (hq : RoundsAsk name cursor.advance s q) : RoundsAsk name cursor s q
  | later {cursor : Cursor} {l : Lexeme} {m : Match} {more : List Construct} {s s₁ s₂ : State} {q : RuleCall}
      (h : cursor.peek = .ok (some l)) (hl : l.kind ≠ .comment)
      (hm : Matching.guarded below.match? cursor name c s = (.ok (some m), s₁))
      (hi : m.cursor.index ≠ cursor.index)
      (hc : Matching.Rounds.contribution { name } m c s₁ = (.ok more, s₂))
      (hq : RoundsAsk name m.cursor s₂ q) : RoundsAsk name cursor s q

/-- A script that is run in the course of a parse asks for rules by its expansions. -/
inductive ScriptAsks {α : Type} : Script α → State → RuleCall → Prop where
  | expand {r : Expansion} {next : Except Failure (Option Construct) → Script α} {s s' : State}
      {text : Text} {cursor : Cursor} (hs : s.text.isSome) (ht : (textOf r c s).1 = .ok text)
      (hl : lexSpan text r.span r.depth r.interior c s = (.ok cursor, s')) :
      ScriptAsks (.expand r next) s ⟨⟨cursor, r.rule⟩, s'⟩
  | expandFull {r : Expansion} {next : Except Failure (List Construct) → Script α} {s s' : State}
      {text : Text} {cursor : Cursor} {q : RuleCall} (hs : s.text.isSome) (ht : (textOf r c s).1 = .ok text)
      (hl : lexSpan text r.span r.depth r.interior c s = (.ok cursor, s'))
      (hq : RoundsAsk below c r.rule cursor s' q) : ScriptAsks (.expandFull r next) s q
  | afterExpand {r : Expansion} {next : Except Failure (Option Construct) → Script α} {s s' : State}
      {a : Except Failure (Option Construct)} {q : RuleCall} (h : below.expand r c s = (a, s'))
      (hq : ScriptAsks (next a) s' q) : ScriptAsks (.expand r next) s q
  | afterExpandFull {r : Expansion} {next : Except Failure (List Construct) → Script α} {s s' : State}
      {a : Except Failure (List Construct)} {q : RuleCall} (h : below.expandFull r c s = (a, s'))
      (hq : ScriptAsks (next a) s' q) : ScriptAsks (.expandFull r next) s q
  | afterParse {t : Text} {next : Except Failure (List Construct) → Script α} {s s' : State}
      {a : Except Failure (List Construct)} {q : RuleCall} (h : below.parseAll t none c s = (a, s'))
      (hq : ScriptAsks (next a) s' q) : ScriptAsks (.parse t next) s q
  | afterInvalidate {next : Script α} {s s' : State} {q : RuleCall} (h : invalidate c s = (.ok (), s'))
      (hq : ScriptAsks next s' q) : ScriptAsks (.invalidate next) s q

/-- Trying an alternative at a cursor asks for a rule: for one of its items, or by its action. -/
inductive AlternativeAsks (cursor : Cursor) (a : Alternative) (s : State) : RuleCall → Prop where
  | item {offset : Int} {q : RuleCall} (hs : countStep c s = (.ok (), s.tally))
      (ho : cursor.offset = .ok offset)
      (hq : ItemsAsk below c a.items { stop := offset, cursor } s.tally q) : AlternativeAsks cursor a s q
  | action {offset : Int} {k : Collected} {s₁ : State} {label : String}
      {run : List Value → Int → Int → Script Value} {q : RuleCall}
      (hs : countStep c s = (.ok (), s.tally)) (ho : cursor.offset = .ok offset)
      (hk : below.matchItems a.items { stop := offset, cursor } c s.tally = (.ok (some k), s₁))
      (ha : a.action = some ⟨label, .function run⟩)
      (hq : ScriptAsks below c (run (valuesOf a k) (k.start.getD k.stop) k.stop) s₁ q) :
      AlternativeAsks cursor a s q

/-- Trying the alternatives of a rule asks for a rule: all alternatives before it do not match. -/
inductive ChoiceAsks (cursor : Cursor) (name : String) : List Alternative → State → RuleCall → Prop where
  | here {a : Alternative} {as : List Alternative} {s : State} {q : RuleCall}
      (h : AlternativeAsks below c cursor a s q) : ChoiceAsks cursor name (a :: as) s q
  | later {a : Alternative} {as : List Alternative} {s s' : State} {q : RuleCall}
      (h : below.tryAlternative cursor name a c s = (.ok none, s'))
      (hq : ChoiceAsks cursor name as s' q) : ChoiceAsks cursor name (a :: as) s q

end Level

/-- The rule of `p` is entered: it has alternatives, is not in progress at the same place, and is not
nested too deep. -/
structure RuleCall.Entered (c : Settings) (p : RuleCall) (as : List Alternative) : Prop where
  defined : c.grammar.alternatives? p.rule = some as
  fresh : p.entry ∉ p.state.run.active
  shallow : (p.state.run.depth : Int) < c.limits.maxDepth

/-- While the rule of `p` is matched, that of `q` is asked for. -/
def RuleCall.Asks (below : Level) (c : Settings) (p q : RuleCall) : Prop :=
  ∃ as, p.Entered c as ∧ below.ChoiceAsks c p.cursor p.rule as (p.state.enter p.entry) q

/-- The matches in progress below the call `top`, the innermost first, and the call that is next. Each of
them takes one unit of the room. -/
inductive Pending (c : Settings) (top : RuleCall) (room : Nat) : Nat → List RuleCall → RuleCall → Prop where
  | start : Pending c top room room [] top
  | inner {left : Nat} {ps : List RuleCall} {p q : RuleCall} (hp : Pending c top room (left + 1) ps p)
      (hq : p.Asks (level left) c q) : Pending c top room left (p :: ps) q

/-! ## The stack -/

namespace Level

variable {below : Level} {c : Settings} {s : State} {q : RuleCall}

theorem ItemsAsk.nesting (hb : below.Steady) {is : List Item} {k : Collected}
    (h : below.ItemsAsk c is k s q) : q.state.run.nesting = s.run.nesting := by
  induction h with
  | here => rfl
  | @later i is k k' s s' q hi _ ih =>
    have hs := steady_matchItem hb k i c s
    rw [hi] at hs
    exact ih.trans hs

theorem RoundsAsk.nesting (hb : below.Steady) {name : String} {cursor : Cursor}
    (h : below.RoundsAsk c name cursor s q) : q.state.run.nesting = s.run.nesting := by
  induction h with
  | here => rfl
  | comment _ _ _ ih => exact ih
  | @later cursor l m more s s₁ s₂ q _ _ hm _ hc _ ih =>
    have hg := Matching.steady_guarded hb.match? cursor name c s
    have ha := Matching.steady_contribution { name } (fun _ => Engine.Steady.pure _) m c s₁
    rw [hm] at hg
    rw [hc] at ha
    exact ih.trans (ha.trans hg)

theorem ScriptAsks.nesting {α : Type} (hb : below.Steady) {script : Script α}
    (h : below.ScriptAsks c script s q) : q.state.run.nesting = s.run.nesting := by
  -- a span is read without entering any rule
  have hspan : ∀ {text : Text} {r : Expansion} {cursor : Cursor} {s s' : State},
      lexSpan text r.span r.depth r.interior c s = (.ok cursor, s') →
        s'.run.nesting = s.run.nesting := fun {text r cursor s s'} hl => by
    have hs := Engine.Steady.lexSpan text r.span r.depth r.interior c s
    rwa [hl] at hs
  induction h with
  | expand _ _ hl => exact hspan hl
  | expandFull _ _ hl hq => exact (hq.nesting hb).trans (hspan hl)
  | @afterExpand r next s s' a q h _ ih =>
    have hs := hb.expand r c s
    rw [h] at hs
    exact ih.trans hs
  | @afterExpandFull r next s s' a q h _ ih =>
    have hs := hb.expandFull r c s
    rw [h] at hs
    exact ih.trans hs
  | @afterParse t next s s' a q h _ ih =>
    have hs := hb.parseAll t none c s
    rw [h] at hs
    exact ih.trans hs
  | afterInvalidate h _ ih =>
    cases h
    exact ih

theorem AlternativeAsks.nesting (hb : below.Steady) {cursor : Cursor} {a : Alternative}
    (h : below.AlternativeAsks c cursor a s q) : q.state.run.nesting = s.run.nesting := by
  cases h with
  | item _ _ hq =>
    have hn : q.state.run.nesting = s.tally.run.nesting := hq.nesting hb
    exact hn
  | @action offset _ _ _ _ _ _ _ hk _ hq =>
    have hs := steady_matchItems hb a.items { stop := offset, cursor } c s.tally
    rw [hk] at hs
    exact (hq.nesting hb).trans hs

theorem ChoiceAsks.nesting (hb : below.Steady) {cursor : Cursor} {name : String}
    {as : List Alternative} (h : below.ChoiceAsks c cursor name as s q) :
    q.state.run.nesting = s.run.nesting := by
  induction h with
  | here h => exact h.nesting hb
  | @later a as s s' q ha _ ih =>
    have hs := steady_tryAlternative hb cursor name a c s
    rw [ha] at hs
    exact ih.trans hs

end Level

theorem RuleCall.Asks.nesting {below : Level} {c : Settings} {p q : RuleCall} (hb : below.Steady)
    (h : p.Asks below c q) :
    q.state.run.nesting = (p.state.run.depth + 1, p.entry :: p.state.run.active) := by
  obtain ⟨as, -, hq⟩ := h
  exact hq.nesting hb

namespace Pending

variable {c : Settings} {top q : RuleCall} {room left : Nat} {ps : List RuleCall}

/-- Each match in progress takes one unit of the room. -/
theorem room_eq (h : Pending c top room left ps q) : room = left + ps.length := by
  induction h with
  | start => rfl
  | inner _ _ ih => rw [ih, List.length_cons]; omega

/-- **The matcher's list of the rules in progress is the stack of the calls.** -/
theorem nesting (h : Pending c top room left ps q) (ht : top.state.run.nesting = (0, [])) :
    q.state.run.nesting = (ps.length, ps.map (·.entry)) := by
  induction h with
  | start => exact ht
  | @inner left ps p q _ hq ih =>
    rw [hq.nesting (Level.steady left), List.length_cons, List.map_cons,
      show p.state.run.depth = ps.length from congrArg Prod.fst ih,
      show p.state.run.active = ps.map (·.entry) from congrArg Prod.snd ih]

theorem active_eq (h : Pending c top room left ps q) (ht : top.state.run.nesting = (0, [])) :
    q.state.run.active = ps.map (·.entry) := congrArg Prod.snd (h.nesting ht)

/-- No rule is in progress twice at one place. -/
theorem nodup (h : Pending c top room left ps q) (ht : top.state.run.nesting = (0, [])) :
    (ps.map (·.entry)).Nodup := by
  induction h with
  | start => exact .nil
  | @inner left ps p q hp hq ih =>
    obtain ⟨as, he, -⟩ := hq
    exact List.nodup_cons.mpr ⟨hp.active_eq ht ▸ he.fresh, ih⟩

/-- The rules in progress are defined. -/
theorem defined (h : Pending c top room left ps q) :
    ∀ p ∈ ps, ∃ as, c.grammar.alternatives? p.rule = some as := by
  induction h with
  | start => exact fun _ hp => absurd hp List.not_mem_nil
  | inner _ hq ih =>
    obtain ⟨as, he, -⟩ := hq
    exact List.forall_mem_cons.mpr ⟨⟨as, he.defined⟩, ih⟩

end Pending

end Outline
