import Outline.Proofs.Engine.Turns
import Outline.Proofs.Matching.Shift
import Outline.Proofs.Session.Partition

/-!
# A region of a text and a text of its own

Expanding a region where it stands in a text comes to the same as parsing it as a text of its own, but for
the offsets: these are as much further on as the region begins.

* `Matching.Rounds.Alike`: rounds that take up each construct as it is, with or without reports;
* `Matching.endShifted_turn`, `Matching.endShifted_rounds`: one round, and all of them;
* `furtherOn`: what a parse comes to, further on;
* `Span.stretch`, `Matching.lexSpan_span`: the region that is read;
* `Matching.expandFull_fst`, `Matching.parseAll_fst`: what an expansion and a parse come to;
* `Settings.alone`, **`Session.expandFull_eq_parseAll`**: a region expanded, and parsed by a session of its
  own.
-/

namespace Outline

open Engine

/-! ## Rounds -/

namespace Matching

variable {T : Text} {d : Nat} {c c' : Settings} {rule : Matching} {r r' : Rounds}

/-- Rounds that match the same rule and take up each construct as it is. -/
structure Rounds.Alike (c c' : Settings) (r r' : Rounds) : Prop where
  name : r'.name = r.name
  skipComments : r'.skipComments = r.skipComments
  plain : ∀ k s, r.accept k c s = (.ok [k], s)
  plain_right : ∀ k s, r'.accept k c' s = (.ok [k], s)

/-- A match that leads on adds what it found. -/
theorem Rounds.settle_run (hp : ∀ k s, r.accept k c s = (.ok [k], s)) {cursor : Cursor} {m : Match}
    (hi : m.cursor.index ≠ cursor.index) (l : Lexeme) (s : State) :
    ∃ s₁ : State, s₁.run = s.run ∧
      r.settle cursor l (some m) c s = (.ok (some (m.construct.toList, m.cursor)), s₁) := by
  have hc : ∃ s₁ : State, s₁.run = s.run ∧ r.contribution m c s = (.ok m.construct.toList, s₁) := by
    obtain ⟨e, _ | k⟩ := m
    · exact ⟨{ s with events := .dropped r.name :: s.events }, rfl, rfl⟩
    · exact ⟨s, rfl, hp k s⟩
  obtain ⟨s₁, hs₁, hc⟩ := hc
  unfold settle
  simp only [if_neg hi]
  rw [bind_run_ok hc]
  by_cases hr : r.reports = true
  · let percent := 100 * m.cursor.index / m.cursor.size
    refine ⟨{ s₁ with events := .progress percent :: s₁.events }, hs₁, ?_⟩
    simp only [if_pos hr]
    rfl
  · refine ⟨s₁, hs₁, ?_⟩
    simp only [if_neg hr]
    rfl

/-- Guarded matches end alike where the matches do. -/
theorem endShifted_guarded {k : Cursor} {name : String} {s s' : State}
    (h : EndShifted T d (Option.Rel (Match.Further T d)) (rule k name c s)
      (rule (k.shift T d) name c' s')) :
    EndShifted T d (Option.Rel (Match.Further T d)) (rule.guarded k name c s)
      (rule.guarded (k.shift T d) name c' s') := by
  unfold guarded
  rw [bind_run_ok (attempt_run _ _ _), bind_run_ok (attempt_run _ _ _)]
  generalize rule k name c s = res at h
  generalize rule (k.shift T d) name c' s' = res' at h
  cases h with
  | ok hm hs => exact .ok hm hs
  | @error s₁ s₁' e hs =>
    by_cases he : e = .stackOverflow
    · subst he
      have hdepth : s₁'.run.depth = s₁.run.depth := by rw [hs, Run.shift]
      show EndShifted T d _
        ((access k.offset >>= fun o => fail (.nestingLimit name s₁.run.depth o) : Engine _) c s₁)
        ((access (k.shift T d).offset >>= fun o => fail (.nestingLimit name s₁'.run.depth o) : Engine _)
          c' s₁')
      rw [k.offset_shift, hdepth]
      cases k.offset with
      | error f => exact .error (.access f) hs
      | ok o => exact .error (.nestingLimit name s₁.run.depth o) hs
    · cases e <;> first | exact absurd rfl he | exact .error _ hs

/-- What a round adds, and the cursor behind it, further on. -/
structure Further (T : Text) (d : Nat) (p p' : List Construct × Cursor) : Prop where
  held : p.2.Held T d
  eq : p' = (p.1.map (·.shift d), p.2.shift T d)

theorem endShifted_settle (hr : r.Alike c c' r') {k : Cursor} (l : Lexeme) {m m' : Option Match}
    (hm : Option.Rel (Match.Further T d) m m') {s s' : State} (hs : s'.run = s.run.shift d) :
    EndShifted T d (Option.Rel (Further T d)) (r.settle k l m c s)
      (r'.settle (k.shift T d) (l.shift d) m' c' s') := by
  cases hm with
  | none =>
    unfold Rounds.settle
    rw [hr.name]
    exact .error (.parse k.text l.start r.name .expected) hs
  | @some m m' hm =>
    obtain ⟨hheld, rfl⟩ := hm
    by_cases hi : m.cursor.index = k.index
    · have hi' : (m.shift T d).cursor.index = (k.shift T d).index := hi
      unfold Rounds.settle
      simp only [if_pos hi, if_pos hi']
      rw [hr.name]
      exact .error (.parse k.text l.start r.name .idle) hs
    · have hi' : (m.shift T d).cursor.index ≠ (k.shift T d).index := hi
      obtain ⟨s₁, hs₁, hrun⟩ := Rounds.settle_run hr.plain hi l s
      obtain ⟨s₁', hs₁', hrun'⟩ := Rounds.settle_run hr.plain_right hi' (l.shift d) s'
      rw [hrun, hrun']
      refine .ok (.some ⟨hheld, ?_⟩) (by rw [hs₁', hs, hs₁])
      obtain ⟨e, _ | found⟩ := m <;> rfl

/-- A round comes to the same further on, if the match of its rule does. -/
theorem endShifted_turn (hr : r.Alike c c' r') {k : Cursor} (hk : k.Held T d) {s s' : State}
    (hs : s'.run = s.run.shift d)
    (hm : EndShifted T d (Option.Rel (Match.Further T d)) (rule k r.name c s)
      (rule (k.shift T d) r.name c' s')) :
    EndShifted T d (Option.Rel (Further T d)) (turn rule r k c s) (turn rule r' (k.shift T d) c' s') := by
  have hpeek := k.peek_shift T d
  cases hp : k.peek with
  | error e =>
    rw [hp] at hpeek
    rw [turn, turn, hp, hpeek]
    exact .error (.access e) hs
  | ok next =>
    rw [hp] at hpeek
    cases next with
    | none =>
      rw [turn_done hp, turn_done hpeek]
      exact .ok .none hs
    | some l =>
      have hlt := (Cursor.lexemeAt_of_peek hp).1
      by_cases hl : r.skipComments = true ∧ l.kind = .comment
      · have hl' : r'.skipComments = true ∧ (l.shift d).kind = .comment := ⟨hr.skipComments ▸ hl.1, hl.2⟩
        rw [turn_comment hp hl, turn_comment hpeek hl']
        refine .ok (.some ⟨hk.ahead (Cursor.ahead_advance hlt), ?_⟩) hs
        rw [k.advance_shift]
        rfl
      · have hl' : ¬ (r'.skipComments = true ∧ (l.shift d).kind = .comment) := fun h =>
          hl ⟨hr.skipComments ▸ h.1, h.2⟩
        rw [turn_lexeme hp hl, turn_lexeme hpeek hl', hr.name]
        refine (endShifted_guarded hm).bind fun m m' s₁ s₁' _ hmatch hs₁ => ?_
        exact endShifted_settle hr l hmatch hs₁

/-- **The rounds over a row come to the same as those over the row further on.** -/
theorem endShifted_rounds (hg : c'.grammar.rules = c.grammar.rules) (hl : c'.limits = c.limits)
    (hn : ∀ r ∈ c.grammar.rules, ∀ a ∈ r.alternatives, a.action = none) (hr : r.Alike c c' r')
    (room : Nat) : ∀ (fuel : Nat) {k : Cursor} (found : Array Construct) {s s' : State}, k.Held T d →
      s'.run = s.run.shift d →
      EndShifted T d (fun x y => y = x.map (·.shift d)) (rounds (level room).match? r fuel k found c s)
        (rounds (level room).match? r' fuel (k.shift T d) (found.map (·.shift d)) c' s')
  | 0, _, _, _, _, _, hs => .ok rfl hs
  | fuel + 1, k, found, s, s', hk, hs => by
    have hexact : ∀ r ∈ c.grammar.rules, ∀ a ∈ r.alternatives, a.Exact := by
      intro r hr a ha name run h
      rw [hn r hr a ha] at h
      cases h
    have hmatch := Level.shifts hg hl hn room k hk r.name s s' hs
      (Level.clean hexact room k r.name s hk.ordered)
    rw [rounds_succ, rounds_succ]
    refine (endShifted_turn hr hk hs hmatch).bind fun p p' s₁ s₁' _ hp hs₁ => ?_
    cases hp with
    | none => exact .ok rfl hs₁
    | @some p p' hp =>
      obtain ⟨hheld, rfl⟩ := hp
      have hfound : found.map (·.shift d) ++ p.1.map (·.shift d) = (found ++ p.1).map (·.shift d) := by
        rw [← Array.toList_inj]
        simp
      have hrest := endShifted_rounds hg hl hn hr room fuel (found ++ p.1) hheld hs₁
      rw [← hfound] at hrest
      exact hrest

end Matching

/-! ## Results -/

/-- What was found, or why nothing was, `d` characters further on in the text `T`. -/
def furtherOn (T : Text) (d : Nat) : Except Failure (List Construct) → Except Failure (List Construct)
  | .ok found => .ok (found.map (·.shift d))
  | .error e => .error (e.shift T d)

theorem Engine.EndShifted.result {T : Text} {d : Nat}
    {r r' : Except Failure (List Construct) × State}
    (h : EndShifted T d (fun x y => y = x.map (·.shift d)) r r') : r'.1 = furtherOn T d r.1 := by
  cases h with
  | ok h => rw [h]; rfl
  | error e => rfl

namespace Matching

/-- Outside of any parse the work is that of a new matcher. -/
theorem withMatcher_new {α : Type} (m : Engine α) {s : State} (h : s.text = none) (c : Settings) :
    (withMatcher m c s).1 = (m c { s with run := {} }).1 := by
  change ((if s.text.isSome = true then m else _ : Engine α) c s).1 = _
  rw [if_neg (by simp [h]), within_run]

/-- What is found again and again in a parse is found further on outside of any. -/
theorem furtherOn_repeatedly {T : Text} {d : Nat} {c c' : Settings} {r r' : Rounds}
    (hg : c'.grammar.rules = c.grammar.rules) (hl : c'.limits = c.limits)
    (hn : ∀ r ∈ c.grammar.rules, ∀ a ∈ r.alternatives, a.action = none) (hr : r.Alike c c' r')
    (room : Nat) {k : Cursor} (hk : k.Held T d) {s s' : State} (hs : s.run = {}) (ht : s.text.isSome)
    (ht' : s'.text = none) :
    (repeatedly (level room).match? r' (k.shift T d) c' s').1 =
      furtherOn T d (repeatedly (level room).match? r k c s).1 := by
  have hrun : ({ s' with run := {} } : State).run = s.run.shift d := by rw [hs]; rfl
  have hrounds := endShifted_rounds hg hl hn hr room k.unread #[] hk hrun
  rw [Array.map_empty] at hrounds
  unfold repeatedly
  rw [withMatcher_run _ ht, withMatcher_new _ ht', k.unread_shift]
  refine (hrounds.bind fun out out' s₁ s₁' _ hout hs₁ => ?_).result
  rw [hout]
  exact .ok (by simp) hs₁

end Matching

/-! ## Regions -/

/-- The stretch that is read of a span: without the characters at its ends if only the interior is wanted
and there are two. -/
def Span.stretch (interior : Bool) (s e : Nat) : Nat × Nat :=
  if interior = true ∧ 2 ≤ e - s then (s + 1, e - 1) else (s, e)

theorem Span.stretch_le {interior : Bool} {s e n : Nat} (hs : s ≤ e) (he : e ≤ n) :
    (stretch interior s e).1 ≤ (stretch interior s e).2 ∧ (stretch interior s e).2 ≤ n := by
  unfold stretch
  split <;> constructor <;> simp only <;> omega

namespace Matching

/-- The lexemes of a pair of offsets are those of the stretch. -/
theorem lexSpan_span (T : Text) {s e : Nat} (hs : s ≤ e) (depth : Option Int) (interior : Bool) :
    lexSpan T (.span s e) depth interior =
      Engine.lex T (Span.stretch interior s e).1 (some (Span.stretch interior s e).2) depth := by
  rw [lexSpan_eq]
  cases interior with
  | false => rfl
  | true =>
    show (Engine.ofExcept ((Span.interior (.int s) (.int e)).mapError .span) >>= fun q =>
      lexBetween T depth q.1 q.2) = _
    by_cases h : 2 ≤ e - s
    · have hint : Span.interior (.int s) (.int e) = .ok (.int (s + 1 : Nat), .int (e - 1 : Nat)) := by
        simp only [Span.interior, Value.toInt?]
        rw [if_pos (by omega), Int.natCast_sub (by omega)]
        rfl
      rw [hint, Span.stretch, if_pos ⟨rfl, h⟩]
      rfl
    · have hint : Span.interior (.int s) (.int e) = .ok (.int s, .int e) := by
        simp only [Span.interior, Value.toInt?]
        rw [if_neg (by omega)]
      rw [hint, Span.stretch, if_neg fun hh => h hh.2]
      rfl

end Matching

/-- An expansion is the lexemes of its span and the rounds over them. -/
theorem Matching.expandFull_fst (rule : Matching) {r : Expansion} {T : Text} (ht : r.text = some T)
    (c : Settings) (s : State) : (rule.expandFull r c s).1 =
      ((lexSpan T r.span r.depth r.interior >>= rule.repeatedly { name := r.rule }) c s).1 := by
  have htext : textOf r c s = (.ok T, s) := by
    obtain ⟨_, _, _, _, _ | _⟩ := r <;> cases ht
    rfl
  unfold expandFull
  rw [bind_run_ok htext]
  rcases hl : lexSpan T r.span r.depth r.interior c s with ⟨e | cursor, s₁⟩
  · rw [bind_run_error hl, bind_run_error hl]
  · rw [bind_run_ok hl, bind_run_ok hl]
    rcases hr : rule.repeatedly { name := r.rule } cursor c s₁ with ⟨e | found, s₂⟩
    · rw [bind_run_error hr]
    · rw [bind_run_ok hr]
      rfl

/-- A parse that has nothing to remember is what it does while it is in progress. -/
theorem Matching.parseAll_fst (rule : Matching) {s : State} (hs : s.cache = none) (below : Level)
    (text : Text) (skip : Option Bool) (c : Settings) : (rule.parseAll below text skip c s).1 =
      (inProgress rule below c text (skip.getD c.skipComments) c (begun text s)).1 := by
  rw [parseAll_run, hs]
  show (rule.parseText below text (skip.getD c.skipComments) c s).1 = _
  rw [parseText_run]
  rcases inProgress rule below c text (skip.getD c.skipComments) c (begun text s) with ⟨_ | _, _⟩ <;> rfl

/-- The settings of a session for regions alone: it starts at a rule, and looks as deep as they are looked
into. -/
def Settings.alone (c : Settings) (rule : String) (depth : Option Int) : Settings :=
  { c with
    grammar := { c.grammar with start := rule }
    depth := depth
    hook := none
    skipComments := true }

namespace Matching

variable {T : Text} {s e : Nat} {c : Settings} {name : String} {depth : Option Int}

/-- The rounds of a region and those of a text of its own. -/
theorem alike_alone (c : Settings) (name : String) (depth : Option Int) (below : Level) (text : Text) :
    Rounds.Alike (c.alone name depth) c (wholeText below (c.alone name depth) text true)
      { name := name } := by
  refine ⟨rfl, rfl, fun k s => ?_, fun _ _ => rfl⟩
  show replace below text.length k (c.alone name depth) s = _
  rw [replace_eq]
  rfl

/-- The lexemes of a region and the rounds over them come to the same as a parse in progress. -/
theorem furtherOn_inProgress (hx : c.lexer.extensions = [])
    (hn : ∀ r ∈ c.grammar.rules, ∀ a ∈ r.alternatives, a.action = none) (hs : s ≤ e)
    (he : e ≤ T.length) (room : Nat) (below : Level) {σ σ' : State} (hσ : σ.run = {})
    (ht : σ.text.isSome) (ht' : σ'.text = none) :
    ((Engine.lex T s (some e) depth >>= repeatedly (level room).match? { name := name }) c σ').1 =
      furtherOn T s (inProgress (level room).match? below (c.alone name depth) (.ofList (T.range s e)) true
        (c.alone name depth) σ).1 := by
  have hregion := lex_run (c := c) T s (some e) depth σ'
  have halone := lex_run (c := c.alone name depth) (.ofList (T.range s e)) 0 none depth σ
  rw [Lexer.lex_part hx he hs depth] at hregion
  rw [show (c.alone name depth).lexer = c.lexer from rfl] at halone
  unfold inProgress
  cases hlex : c.lexer.lex (.ofList (T.range s e)) 0 none depth with
  | error err =>
    rw [hlex] at hregion halone
    rw [bind_run_error hregion]
    show _ = furtherOn T s ((Engine.lex (.ofList (T.range s e)) 0 none depth >>= _ : Engine _) _ σ).1
    rw [bind_run_error halone]
    rfl
  | ok k =>
    rw [hlex] at hregion halone
    have hrow := (Cursor.Row.of_lex hx hlex).1
    have hheld : k.Held T s := ⟨(Lexer.start_of_lex hlex).1 ▸ Text.part_range he hs, hrow.ordered⟩
    rw [bind_run_ok hregion]
    show _ = furtherOn T s ((Engine.lex (.ofList (T.range s e)) 0 none depth >>= _ : Engine _) _ σ).1
    rw [bind_run_ok halone]
    have halike := alike_alone c name depth below (.ofList (T.range s e))
    exact furtherOn_repeatedly (c := c.alone name depth) (by rfl) (by rfl) hn halike room hheld hσ ht ht'

end Matching

/-- **A region of a text is parsed like a text of its own.** What is found in it, or why nothing is, is as
much further on as the region begins: the bounds of the constructs, the offsets in their fields and the offset
of a failure. Extensions of the lexer and actions could tell the two apart, so there are none. -/
theorem Session.expandFull_eq_parseAll {c : Settings} (hg : c.grammar.WellFormed)
    (hx : c.lexer.extensions = [])
    (hn : ∀ r ∈ c.grammar.rules, ∀ a ∈ r.alternatives, a.action = none) {name : String}
    (hname : name ∈ c.grammar.names) (cache : Option ParseCache) {T : Text} {s e : Nat} (hs : s ≤ e)
    (he : e ≤ T.length) (depth : Option Int) (interior : Bool) (room : Nat) :
    ∃ alone, Session.new (c.alone name depth) = .ok alone ∧
      ((⟨c, cache⟩ : Session).expandFull ⟨.span s e, name, depth, interior, some T⟩ room).result =
        furtherOn T (Span.stretch interior s e).1
          (alone.parseAll (.ofList (T.range (Span.stretch interior s e).1 (Span.stretch interior s e).2))
            none room).result := by
  have hfault : (c.alone name depth).grammar.fault? = none :=
    Grammar.fault?_eq_none_iff.mpr (hg.startAt hname)
  refine ⟨{ settings := c.alone name depth }, by rw [Session.new, hfault], ?_⟩
  cases room with
  | zero => rfl
  | succ room =>
    obtain ⟨hs', he'⟩ : _ ∧ (Span.stretch interior s e).2 ≤ T.length := Span.stretch_le hs he
    generalize hstretch : Span.stretch interior s e = p at hs' he' ⊢
    let region : Expansion := ⟨.span s e, name, depth, interior, some T⟩
    let text := Text.ofList (T.range p.1 p.2)
    let rule : Matching := (level (room + 1)).match?
    show (rule.expandFull region c { cache := cache }).1 =
      furtherOn T p.1 (rule.parseAll (level room) text none (c.alone name depth) {}).1
    rw [Matching.expandFull_fst (T := T) rule rfl, Matching.parseAll_fst rule rfl, Matching.lexSpan_span T hs,
      hstretch]
    exact Matching.furtherOn_inProgress hx hn hs' he' (room + 1) (level room) rfl rfl rfl

/-! ## Entries in a group -/

/-- A text is a row of groups, and in a group there are entries: a key and a group. -/
def Grammar.keyed : Grammar := .ofRules
  [⟨"toplevel", [{ items := [.terminal ⟨.semanticList, none⟩] }]⟩,
    ⟨"entry", [{ items := [.rule "key", .terminal ⟨.semanticList, none⟩] }]⟩,
    ⟨"key", [{ items := [.terminal ⟨.symbol, none⟩] }]⟩]

theorem Grammar.wellFormed_keyed : keyed.WellFormed :=
  .of_rank (by decide) (by decide) (fun n => if n = "entry" then 1 else 0) (by decide)

namespace Session

/-- A new parser for such texts. -/
def keyed : Session := { settings := { grammar := .keyed } }

/-- The entries of a group are found where they stand, and as a text of their own three characters before
that. So is the place of a key without a group, and a comment whose end lies behind the region. -/
theorem expandFull_keyed :
    ∃ alone found, new (keyed.settings.alone "entry" (some 0)) = .ok alone ∧
      (alone.parseAll (.ofString "a (1) /**/ b(2)") none 4).result = .ok found ∧
      found.map (fun k => (k.start, k.stop)) = [(0, 5), (11, 15)] ∧
      (keyed.expandFull ⟨.span 2 19, "entry", some 0, true, some (.ofString "p (a (1) /**/ b(2)) q")⟩
        4).result = .ok (found.map (·.shift 3)) ∧
      (alone.parseAll (.ofString "a (1) b") none 4).result =
        .error (.parse (.ofString "a (1) b") 6 "entry" .expected) ∧
      (keyed.expandFull ⟨.span 2 11, "entry", some 0, true, some (.ofString "p (a (1) b) (2)")⟩ 4).result =
        .error (.parse (.ofString "p (a (1) b) (2)") 9 "entry" .expected) ∧
      (alone.parseAll (.ofString "a (1) /*") none 4).result =
        .error (.lex (.fault (.ofString "a (1) /*") 6 (.unterminatedComment ['*', '/']))) ∧
      (keyed.expandFull ⟨.span 3 11, "entry", some 0, false, some (.ofString "p (a (1) /*) */ (2)")⟩
        4).result =
        .error (.lex (.fault (.ofString "p (a (1) /*) */ (2)") 9 (.unterminatedComment ['*', '/']))) := by
  have hnone : ∀ r ∈ Grammar.keyed.rules, ∀ a ∈ r.alternatives, a.action = none := by
    rw [Grammar.keyed, Grammar.rules_ofRules (by decide)]
    simp
  let alone : Session := { settings := keyed.settings.alone "entry" (some 0) }
  have hnew : new (keyed.settings.alone "entry" (some 0)) = .ok alone := by
    have hfault : (keyed.settings.alone "entry" (some 0)).grammar.fault? = none :=
      Grammar.fault?_eq_none_iff.mpr (Grammar.wellFormed_keyed.startAt (by decide))
    rw [new, hfault]
  have hregion : ∀ (T t : Text) (span : Value) (interior : Bool) (s e : Nat) (p : Nat × Nat),
      .span s e = span → s ≤ e → e ≤ T.length → Span.stretch interior s e = p →
      .ofList (T.range p.1 p.2) = t →
      (keyed.expandFull ⟨span, "entry", some 0, interior, some T⟩ 4).result =
        furtherOn T p.1 (alone.parseAll t none 4).result := by
    rintro T t span interior s e p rfl hs he rfl rfl
    obtain ⟨_, hs', h⟩ := expandFull_eq_parseAll (c := keyed.settings) Grammar.wellFormed_keyed rfl hnone
      (by decide : "entry" ∈ Grammar.keyed.names) none hs he (some 0) interior 4
    cases hnew.symm.trans hs'
    exact h
  have hrun : (match (alone.parseAll (.ofString "a (1) /**/ b(2)") none 4).result with
      | .ok found => found.map (fun k => (k.start, k.stop)) == [(0, 5), (11, 15)]
      | .error _ => false) = true := by
    decide +kernel
  have hlack : (alone.parseAll (.ofString "a (1) b") none 4).result =
      .error (.parse (.ofString "a (1) b") 6 "entry" .expected) := by
    have hb : (match (alone.parseAll (.ofString "a (1) b") none 4).result with
        | .error (.parse t o r f) => t = .ofString "a (1) b" ∧ o = 6 ∧ r = "entry" ∧ f = .expected
        | _ => false : Bool) = true := by
      decide +kernel
    split at hb
    · rename_i hresult
      obtain ⟨rfl, rfl, rfl, rfl⟩ := of_decide_eq_true hb
      exact hresult
    · cases hb
  have hopen : (alone.parseAll (.ofString "a (1) /*") none 4).result =
      .error (.lex (.fault (.ofString "a (1) /*") 6 (.unterminatedComment ['*', '/']))) := by
    have hb : (match (alone.parseAll (.ofString "a (1) /*") none 4).result with
        | .error (.lex e) => e = .fault (.ofString "a (1) /*") 6 (.unterminatedComment ['*', '/'])
        | _ => false : Bool) = true := by
      decide +kernel
    split at hb
    · rename_i hresult
      rw [hresult, of_decide_eq_true hb]
    · cases hb
  split at hrun
  · rename_i found hfound
    have h₁ := hregion (.ofString "p (a (1) /**/ b(2)) q") (.ofString "a (1) /**/ b(2)") (.span 2 19) true
      2 19 (3, 18) rfl (by decide) (by decide) (by decide) (by decide +kernel)
    have h₂ := hregion (.ofString "p (a (1) b) (2)") (.ofString "a (1) b") (.span 2 11) true
      2 11 (3, 10) rfl (by decide) (by decide) (by decide) (by decide +kernel)
    have h₃ := hregion (.ofString "p (a (1) /*) */ (2)") (.ofString "a (1) /*") (.span 3 11) false
      3 11 (3, 11) rfl (by decide) (by decide) (by decide) (by decide +kernel)
    rw [hfound] at h₁
    rw [hlack] at h₂
    rw [hopen] at h₃
    exact ⟨alone, found, hnew, hfound, by simpa using hrun, h₁, hlack, h₂, hopen, h₃⟩
  · cases hrun

end Session

end Outline
