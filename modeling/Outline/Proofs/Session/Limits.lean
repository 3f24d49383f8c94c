import Outline.Proofs.Engine.Curbed
import Outline.Session

/-!
# Limits only cut a parse short

The limits of a parser never change what it finds. A parse under looser limits is the same, unless the
tighter ones have put an end to it, and a limit on the number of alternatives does so just where the
parse tries more of them.

* `Failure.OfLimits`: the failures that say that a limit was reached;
* `Limits.Within`: limits that allow no more than others do;
* `Session.tried`: the number of alternatives that a parse tries, those of its expansions included;
* `Outcome.Same`: the same result, and the same session behind it but for its settings;
* `Session.parseAll_tightened`, **`Session.parseAll_limits`**: a parse under two limits.
-/

namespace Outline

open Engine

/-! ## Two limits of a parse -/

/-- The failure says that a limit was reached. -/
inductive Failure.OfLimits : Failure → Prop where
  | nesting (rule : String) (limit offset : Int) : OfLimits (.nestingLimit rule limit offset)
  | steps (count : Nat) : OfLimits (.aborted count)

/-- The limits allow no more than others do. -/
structure Limits.Within (l l' : Limits) : Prop where
  depth : l.maxDepth ≤ l'.maxDepth
  steps : ∀ n ∈ l'.maxSteps, ∃ m ∈ l.maxSteps, m ≤ n

/-- What tighter limits put an end to is a failure that says so. -/
def Curb.between (c : Settings) {l l' : Limits} (h : l.Within l') : Curb where
  settings := { c with limits := l' }
  tight := l
  Allows _ := True
  Stops _ e := e.OfLimits
  mono he _ := he
  counts n _ := by
    cases hl : l.maxSteps.any (· < ((n + 1 : Nat) : Int)) with
    | true => exact Or.inr ⟨rfl, .steps _⟩
    | false =>
      refine Or.inl ⟨rfl, ?_, trivial⟩
      rcases hn : l'.maxSteps with _ | n'
      · rfl
      · obtain ⟨m, hm, hle⟩ := h.steps n' hn
        rw [Option.mem_def.mp hm] at hl
        simp only [Option.any_some, decide_eq_false_iff_not] at hl ⊢
        omega
  nests := Or.inr ⟨h.depth, fun _ _ _ _ => .nesting _ _ _⟩
  room _ h := nomatch h

/-- The settings with a number of alternatives that a parse may try. -/
def Settings.stoppingAt (c : Settings) (n : Nat) : Settings :=
  { c with limits := { c.limits with maxSteps := some n } }

/-- A limit on the number of alternatives stops a parse behind the last that it allows. -/
def Curb.steps (c : Settings) (h : c.limits.maxSteps = none) (n : Nat) : Curb where
  settings := c
  tight := { c.limits with maxSteps := some n }
  Allows count := count ≤ n
  Stops count e := n < count ∧ e = .aborted (n + 1)
  mono he hle := ⟨he.1.trans_le hle, he.2⟩
  counts count hle := by
    rcases hle.lt_or_eq with hlt | rfl
    · refine Or.inl ⟨?_, by rw [h]; rfl, hlt⟩
      simp only [Option.any_some, decide_eq_false_iff_not]
      omega
    · refine Or.inr ⟨?_, Nat.lt_succ_self _, rfl⟩
      simp only [Option.any_some, decide_eq_true_eq]
      omega
  nests := Or.inl rfl
  room _ h := nomatch h.2

/-! ## A parse under two limits -/

namespace Session

/-- The number of alternatives that a parse tries in all, those of its expansions included. -/
def tried (s : Session) (text : Text) (skip : Option Bool) : (room : Nat) → Nat
  | 0 => 0
  | room + 1 =>
    let skipComments := skip.getD s.settings.skipComments
    match s.cache.filter (·.isValidFor text skipComments) with
    | some _ => 0
    | none => (Matching.inProgress (level room).matchRule (level room) s.settings text skipComments
        s.settings (Matching.begun text { cache := s.cache })).2.run.steps

end Session

/-- The same result, the same reports, and what is remembered is the same. -/
structure Outcome.Same {α : Type} (o o' : Outcome α) : Prop where
  result : o.result = o'.result
  cache : o.session.cache = o'.session.cache
  events : o.events = o'.events

namespace Session

/-- Under tighter limits a parse comes to the same, or it was stopped by them. -/
theorem parseAll_tightened {k : Curb} (hx : k.settings.Expanding) (h0 : k.Allows 0)
    (cache : Option ParseCache) (text : Text) (skip : Option Bool) (room : Nat) :
    ((⟨k.tightened, cache⟩ : Session).parseAll text skip room).Same
        ((⟨k.settings, cache⟩ : Session).parseAll text skip room) ∧
      k.Allows ((⟨k.settings, cache⟩ : Session).tried text skip room) ∨
    ∃ e, ((⟨k.tightened, cache⟩ : Session).parseAll text skip room).result = .error e ∧
      k.Stops ((⟨k.settings, cache⟩ : Session).tried text skip room) e := by
  cases room with
  | zero => exact Or.inl ⟨⟨rfl, rfl, rfl⟩, h0⟩
  | succ room =>
    have hrun : ∀ c : Settings, (⟨c, cache⟩ : Session).parseAll text skip (room + 1) =
        (⟨c, cache⟩ : Session).run (Matching.parseAll (level room).matchRule (level room) text skip) :=
      fun _ => rfl
    have hskip : k.tightened.skipComments = k.settings.skipComments := rfl
    rw [hrun, hrun]
    unfold run tried
    simp only [Matching.parseAll_run, hskip]
    generalize cache.filter (·.isValidFor text (skip.getD k.settings.skipComments)) = kept
    rcases kept with _ | kept
    · simp only [Matching.parseText_run]
      have hcut := Matching.curbed_inProgress hx room text (skip.getD k.settings.skipComments)
        (Matching.begun text { cache := cache }) rfl
      rcases hcut.same_or_stopped h0 with ⟨hsame, hall⟩ | ⟨e, he, hstop⟩
      · rw [hsame]
        exact Or.inl ⟨⟨rfl, rfl, rfl⟩, hall⟩
      · refine Or.inr ⟨e, ?_, hstop⟩
        rcases hr : Matching.inProgress (level room).matchRule (level room) k.tightened text
          (skip.getD k.settings.skipComments) k.tightened (Matching.begun text { cache := cache }) with
          ⟨r, after⟩
        rw [hr] at he
        cases he
        rfl
    · exact Or.inl ⟨⟨rfl, rfl, rfl⟩, h0⟩

/-- **Limits only cut a parse short.** A parse that does not end in a failure of the limits is the same
under all looser ones. Where the number of alternatives is not limited, a limit that allows what the parse
tries changes nothing, and any other stops it behind the last alternative that is allowed. -/
theorem parseAll_limits {c : Settings} (hx : c.Expanding) (cache : Option ParseCache) (text : Text)
    (skip : Option Bool) (room : Nat) :
    (∀ l l' : Limits, l.Within l' →
      (∀ e, ((⟨{ c with limits := l }, cache⟩ : Session).parseAll text skip room).result = .error e →
        ¬ e.OfLimits) →
      ((⟨{ c with limits := l }, cache⟩ : Session).parseAll text skip room).Same
        ((⟨{ c with limits := l' }, cache⟩ : Session).parseAll text skip room)) ∧
    (c.limits.maxSteps = none → ∀ n : Nat,
      ((⟨c, cache⟩ : Session).tried text skip room ≤ n →
        ((⟨c.stoppingAt n, cache⟩ : Session).parseAll text skip room).Same
          ((⟨c, cache⟩ : Session).parseAll text skip room)) ∧
      (n < (⟨c, cache⟩ : Session).tried text skip room →
        ((⟨c.stoppingAt n, cache⟩ : Session).parseAll text skip room).result =
          .error (.aborted (n + 1)))) := by
  constructor
  · intro l l' hl hnot
    have hexp : (Curb.between c hl).settings.Expanding := ⟨hx.actions, hx.hook⟩
    rcases parseAll_tightened hexp trivial cache text skip room with ⟨hsame, -⟩ | ⟨e, he, hstop⟩
    · exact hsame
    · exact absurd hstop (hnot e he)
  · intro hnone n
    have htwo := parseAll_tightened (k := Curb.steps c hnone n) hx (Nat.zero_le n) cache text skip room
    refine ⟨fun hle => ?_, fun hlt => ?_⟩
    · rcases htwo with ⟨hsame, -⟩ | ⟨e, -, hstop⟩
      · exact hsame
      · exact absurd hle (Nat.not_le_of_lt hstop.1)
    · rcases htwo with ⟨-, hall⟩ | ⟨e, he, hstop⟩
      · exact absurd hlt (Nat.not_lt_of_le hall)
      · rw [← hstop.2]
        exact he

/-! ## An action that expands -/

end Session

/-- An action that counts what is in a group. -/
def NamedAction.count : NamedAction := ⟨"count", .function fun values start stop =>
  match values with
  | [span] => (Script.expandedFull { span, rule := "entry" }).bind fun found =>
      .done (.tuple [.int found.length, .int start, .int stop])
  | _ => .done .none⟩

/-- Groups, of which the entries are counted. -/
def Grammar.groups : Grammar := .ofRules
  [⟨"toplevel", [{ items := [.terminal ⟨.semanticList, none⟩], action := some .count }]⟩,
    ⟨"entry", [{ items := [.terminal ⟨.symbol, none⟩] },
      { items := [.terminal ⟨.punctuation, none⟩] }]⟩]

theorem Settings.expanding_groups : ({ grammar := .groups } : Settings).Expanding := by
  have hactions : ∀ r ∈ Grammar.groups.rules, ∀ a ∈ r.alternatives,
      a.action = none ∨ a.action = some .count := by
    rw [Grammar.groups, Grammar.rules_ofRules (by decide)]
    simp
  refine ⟨fun r hr a ha name run hn values start stop => ?_, by simp⟩
  rcases hactions r hr a ha with h | h
  · cases h.symm.trans hn
  · cases h.symm.trans hn
    dsimp only
    split
    · exact .expandFull (fun e => rfl) fun found => .done _
    · exact .done _

/-- A group of three entries takes five alternatives, of which one finds the group and four the entries
inside it: five are enough, four are not. Neither are rules nested deeper than two. -/
theorem Session.parseAll_groups :
    (⟨{ grammar := .groups }, none⟩ : Session).tried (.ofString "(a, b)") none 4 = 5 ∧
    ((⟨Settings.stoppingAt { grammar := .groups } 5, none⟩ : Session).parseAll
        (.ofString "(a, b)") none 4).Same
      ((⟨{ grammar := .groups }, none⟩ : Session).parseAll (.ofString "(a, b)") none 4) ∧
    ((⟨Settings.stoppingAt { grammar := .groups } 4, none⟩ : Session).parseAll
        (.ofString "(a, b)") none 4).result = .error (.aborted 5) ∧
    ((⟨{ grammar := .groups, limits := ⟨2, some 5⟩ }, none⟩ : Session).parseAll
        (.ofString "(a, b)") none 4).Same
      ((⟨{ grammar := .groups }, none⟩ : Session).parseAll (.ofString "(a, b)") none 4) := by
  have h := Session.parseAll_limits Settings.expanding_groups none (.ofString "(a, b)") none 4
  have htried : (⟨{ grammar := .groups }, none⟩ : Session).tried (.ofString "(a, b)") none 4 = 5 := by
    decide +kernel
  have hnot : ∀ e, ((⟨{ grammar := .groups, limits := ⟨2, some 5⟩ }, none⟩ : Session).parseAll
      (.ofString "(a, b)") none 4).result = .error e → ¬ e.OfLimits := by
    intro e he
    have hok : ((⟨{ grammar := .groups, limits := ⟨2, some 5⟩ }, none⟩ : Session).parseAll
        (.ofString "(a, b)") none 4).result.toOption.map List.length = some 1 := by
      decide +kernel
    rw [he] at hok
    cases hok
  exact ⟨htried, (h.2 rfl 5).1 htried.le, (h.2 rfl 4).2 (Nat.lt_of_lt_of_eq (by decide) htried.symm),
    h.1 ⟨2, some 5⟩ {} ⟨by decide, fun n hn => by cases hn⟩ hnot⟩

end Outline
