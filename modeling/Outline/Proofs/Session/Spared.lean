import Outline.Proofs.Matching.Reentry
import Outline.Session

/-!
# A session is spared the failures of grammars

A session has a well-formed grammar, and its parses run one match after the other with no rule in
progress between them. So no parse ends in a failure that a grammar can be at fault for, whatever the
text and whatever the session has done before.

* `Engine.Spared`: steps that do not end so if no rule is in progress, and leave none;
* `Engine.Spared.bind`, `Engine.Spared.within`: how such steps are put together;
* **`Grammar.not_ofGrammar_of_fault?_eq_none`**: neither a matcher nor a session of a grammar without
  a fault reports a rule that was entered again or is not defined.
-/

namespace Outline

namespace Engine

variable {α β : Type} {c : Settings}

/-- With no rule in progress the step does not end in a failure of the grammar, and no rule is in
progress after it. -/
def Spared (c : Settings) (m : Engine α) : Prop :=
  ∀ s, s.run.active = [] →
    (m c s).2.run.active = [] ∧ ∀ e, (m c s).1 = .error e → ¬ e.OfGrammar

namespace Spared

theorem pure (a : α) : Spared c (Pure.pure a : Engine α) := by
  intro s hs
  exact ⟨hs, fun e h => by cases h⟩

theorem fail {e : Failure} (he : ¬ e.OfGrammar) : Spared c (Engine.fail e : Engine α) := by
  intro s hs
  exact ⟨hs, fun e' h => by cases h; exact he⟩

theorem state : Spared c Engine.state := fun _ hs => ⟨hs, fun _ h => by cases h⟩

theorem modify {f : State → State} (hf : ∀ s, (f s).run = s.run) : Spared c (Engine.modify f) := by
  intro s hs
  refine ⟨?_, fun e h => by cases h⟩
  rw [modify_run, hf]
  exact hs

theorem emit (e : Event) : Spared c (Engine.emit e) := modify fun _ => rfl

theorem ofExcept {r : Except Failure α} (hr : ∀ e, r = .error e → ¬ e.OfGrammar) :
    Spared c (Engine.ofExcept r) := by
  intro s hs
  rw [ofExcept_run]
  exact ⟨hs, hr⟩

theorem access (r : Except AccessFault α) : Spared c (Engine.access r) := by
  refine ofExcept fun e he hf => ?_
  cases r <;> cases he
  cases hf

theorem bind {m : Engine α} {f : α → Engine β} (hm : Spared c m) (hf : ∀ a, Spared c (f a)) :
    Spared c (m >>= f) := by
  intro s hs
  obtain ⟨h1, h2⟩ := hm s hs
  cases hr : m c s with
  | mk r s₁ =>
    rw [hr] at h1 h2
    cases r with
    | ok a =>
      rw [bind_run_ok hr]
      exact hf a s₁ h1
    | error e =>
      rw [bind_run_error hr]
      exact ⟨h1, fun e' he => by cases he; exact h2 e rfl⟩

theorem within {enter : State → State} {leave : State → State → State} {m : Engine α}
    (hm : Spared c m) (he : ∀ s, s.run.active = [] → (enter s).run.active = [])
    (hl : ∀ s after, s.run.active = [] → after.run.active = [] →
      (leave s after).run.active = []) : Spared c (within enter leave m) := by
  intro s hs
  obtain ⟨h1, h2⟩ := hm (enter s) (he s hs)
  exact ⟨hl s _ hs h1, h2⟩

theorem settings_bind {f : Settings → Engine α} (hf : Spared c (f c)) :
    Spared c (settings >>= f) := hf

theorem lex (text : Text) (start : Int) (stop depth : Option Int) :
    Spared c (Engine.lex text start stop depth) := by
  refine (emit _).bind fun _ => settings_bind ((ofExcept fun e he hf => ?_).bind fun _ =>
    (emit _).bind fun _ => pure _)
  cases h : c.lexer.lex text start stop depth <;> rw [h] at he <;> cases he
  cases hf

theorem perform {below : Level} {script : Script α} (h : script.Modest) :
    Spared c (script.perform below) := by
  cases h with
  | done a => exact pure a
  | fail he => exact fail he

end Spared

end Engine

open Engine

namespace Matching

variable {c : Settings} {room : Nat}

theorem spared_guarded (hg : c.grammar.WellFormed)
    (hm : ∀ r ∈ c.grammar.rules, ∀ a ∈ r.alternatives, a.Modest) (cursor : Cursor) {name : String}
    (hn : name ∈ c.grammar.names) : Spared c (guarded (level room).match? cursor name) := by
  intro s hs
  have hst := steady_guarded (Level.steady room).match? cursor name c s
  refine ⟨(congrArg Prod.snd hst).trans hs, fun e he => ?_⟩
  have hspares := Level.spares hg hm room cursor name s hn (by simp [hs]) e
  cases hr : guarded (level room).match? cursor name c s with
  | mk r s' =>
    rw [hr] at he
    change r = _ at he
    obtain ⟨-, h⟩ | ⟨-, e', he', h⟩ := Level.guarded_run c _ cursor name hr
    · exact hspares (by rw [h]; exact he)
    · rw [he] at he'
      cases he'
      obtain ⟨_, _, rfl⟩ | ⟨_, rfl⟩ := h
      · intro h; cases h
      · intro h; cases h

theorem spared_contribution {r : Rounds} (ha : ∀ k, Spared c (r.accept k)) (m : Match) :
    Spared c (r.contribution m) := by
  unfold Rounds.contribution
  cases m.construct with
  | none => exact (Spared.emit _).bind fun _ => .pure _
  | some k => exact ha k

theorem spared_rounds {rule : Matching} {r : Rounds}
    (hr : ∀ cursor, Spared c (rule.guarded cursor r.name)) (ha : ∀ k, Spared c (r.accept k)) :
    ∀ (fuel : Nat) (cursor : Cursor) (found : Array Construct),
      Spared c (rule.rounds r fuel cursor found)
  | 0, _, _ => .pure _
  | fuel + 1, cursor, found => by
    have hparse : ∀ offset fault, ¬ (Failure.parse cursor.text offset r.name fault).OfGrammar := by
      intro offset fault h
      cases h
    unfold rounds
    refine (Spared.access _).bind fun l => ?_
    cases l with
    | none => exact .pure _
    | some l =>
      simp only
      split
      · exact spared_rounds hr ha fuel _ _
      · refine (hr cursor).bind fun m => ?_
        cases m with
        | none => exact .fail (hparse _ _)
        | some m =>
          simp only
          split
          · exact .fail (hparse _ _)
          · refine (spared_contribution ha m).bind fun more => ?_
            split
            · exact (Spared.emit _).bind fun _ => spared_rounds hr ha fuel _ _
            · exact (Spared.pure _).bind fun _ => spared_rounds hr ha fuel _ _

theorem spared_repeatedly {rule : Matching} {r : Rounds}
    (hr : ∀ cursor, Spared c (rule.guarded cursor r.name)) (ha : ∀ k, Spared c (r.accept k))
    (cursor : Cursor) : Spared c (rule.repeatedly r cursor) := by
  have hrounds : Spared c (do return (← rule.rounds r cursor.unread cursor #[]).toList) :=
    (spared_rounds hr ha _ _ _).bind fun _ => .pure _
  refine Spared.state.bind fun s => ?_
  split
  · exact hrounds
  · exact hrounds.within (fun _ _ => rfl) fun _ _ h _ => h

theorem spared_hooked (textEnd : Nat) : ∀ vs : List Value, Spared c (hooked textEnd vs)
  | [] => .pure _
  | v :: vs => by
    unfold hooked
    cases Construct.ofValue (some textEnd) v with
    | ok k => exact (spared_hooked textEnd vs).bind fun _ => .pure _
    | error defect =>
      refine .fail fun h => ?_
      cases h

theorem spared_replace {below : Level} (hh : ∀ hook ∈ c.hook, ∀ k, (hook k).Modest) (textEnd : Nat)
    (k : Construct) : Spared c (replace below textEnd k) := by
  refine Spared.settings_bind ?_
  cases hk : c.hook with
  | none => exact .pure _
  | some hook =>
    exact (Spared.perform (hh hook hk k)).bind fun v => (Spared.access _).bind fun _ =>
      spared_hooked textEnd _

theorem spared_parseText {below : Level} {rule : Matching}
    (hr : ∀ cursor, Spared c (rule.guarded cursor c.grammar.start))
    (hh : ∀ hook ∈ c.hook, ∀ k, (hook k).Modest) (text : Text) (skip : Bool) :
    Spared c (rule.parseText below text skip) := by
  refine Spared.settings_bind (Spared.bind (Spared.within ?_ (fun _ _ => rfl) fun _ _ h _ => h)
    fun found => Spared.bind (.modify fun _ => rfl) fun _ => (Spared.emit _).bind fun _ => .pure _)
  exact (Spared.lex _ _ _ _).bind fun cursor =>
    spared_repeatedly hr (fun k => spared_replace hh _ k) cursor

theorem spared_parseAll {below : Level} {rule : Matching}
    (hr : ∀ cursor, Spared c (rule.guarded cursor c.grammar.start))
    (hh : ∀ hook ∈ c.hook, ∀ k, (hook k).Modest) (text : Text) (skip : Option Bool) :
    Spared c (rule.parseAll below text skip) := by
  refine Spared.settings_bind (Spared.state.bind fun s => ?_)
  cases s.cache with
  | none => exact spared_parseText hr hh _ _
  | some cache =>
    simp only
    split
    · exact (Spared.emit _).bind fun _ => .pure _
    · exact spared_parseText hr hh _ _

end Matching

theorem Level.spared_parseAll {c : Settings} (hg : c.grammar.WellFormed)
    (hm : ∀ r ∈ c.grammar.rules, ∀ a ∈ r.alternatives, a.Modest)
    (hh : ∀ hook ∈ c.hook, ∀ k, (hook k).Modest) (text : Text) (skip : Option Bool) :
    ∀ room, Spared c ((level room).parseAll text skip)
  | 0 => by
    refine .fail fun h => ?_
    cases h
  | room + 1 => by
    have hr : ∀ cursor, Spared c (Matching.guarded (level (room + 1)).match? cursor c.grammar.start) :=
      fun cursor => Matching.spared_guarded hg hm cursor hg.start
    exact Matching.spared_parseAll hr hh text skip

/-- **With a grammar that has no fault, no match of a defined rule and no parse of a text ever ends
in a rule that was entered again or is not defined, whatever the lexemes, the limits and the matches
before are.** -/
theorem Grammar.not_ofGrammar_of_fault?_eq_none {g : Grammar} (hg : g.fault? = none)
    (hm : ∀ r ∈ g.rules, ∀ a ∈ r.alternatives, a.Modest) :
    (∀ m, Matcher.Reachable g m → ∀ cursor, ∀ name ∈ g.names, ∀ room e,
      (m.match? cursor name room).1 = .error e → ¬ e.OfGrammar) ∧
    ∀ settings s, settings.grammar = g → (∀ hook ∈ settings.hook, ∀ k, (hook k).Modest) →
      Session.new settings = .ok s → ∀ cache text skip room e,
        ((⟨s.settings, cache⟩ : Session).parseAll text skip room).result = .error e →
          ¬ e.OfGrammar := by
  have hwf := fault?_eq_none_iff.mp hg
  constructor
  · intro m hr cursor name hn room
    obtain rfl := hr.grammar_eq
    have hspared : Spared { grammar := m.grammar, limits := m.limits }
        (Matching.guarded (level room).match? cursor name) := Matching.spared_guarded hwf hm cursor hn
    exact (hspared { run := m.run } (congrArg Prod.snd hr.atRest)).2
  · rintro settings s rfl hh hs cache text skip room
    have hsettings : s.settings = settings := by
      rw [Session.new, hg] at hs
      cases hs
      rfl
    rw [hsettings]
    exact (Level.spared_parseAll hwf hm hh text skip room { cache } rfl).2

/-! ## An action that gives up -/

/-- An action that gives up. -/
def NamedAction.refuse : NamedAction := ⟨"refuse", .function fun _ _ _ => .fail (.raised "sign")⟩

/-- Symbols in a row, each behind a sign that is refused. -/
def Grammar.signed : Grammar := .ofRules
  [⟨"toplevel", [{ items := [.rule "sign", .terminal ⟨.symbol, none⟩, .rule "toplevel"] }, {}]⟩,
    ⟨"sign", [{ items := [.terminal ⟨.punctuation, none⟩], action := some .refuse }, {}]⟩]

theorem Grammar.fault?_signed : signed.fault? = none :=
  fault?_eq_none_iff.mpr (.of_rank (by decide) (by decide)
    (fun n => if n = "toplevel" then 1 else 0) (by decide))

theorem Grammar.modest_signed : ∀ r ∈ signed.rules, ∀ a ∈ r.alternatives, a.Modest := by
  intro r hr a ha name run h values start stop
  rw [signed, rules_ofRules (by decide)] at hr
  simp only [List.mem_cons, List.not_mem_nil, or_false] at hr
  obtain rfl | rfl := hr
  · simp only [List.mem_cons, List.not_mem_nil, or_false] at ha
    obtain rfl | rfl := ha <;> cases h
  · simp only [List.mem_cons, List.not_mem_nil, or_false] at ha
    obtain rfl | rfl := ha
    · cases h
      refine .fail fun h => ?_
      cases h
    · cases h

/-- A parse with a sign ends in the refusal, which is not the grammar's fault. -/
theorem Session.parseAll_signed : ∃ e,
    ((⟨{ grammar := .signed }, none⟩ : Session).parseAll (.ofString "-a") none 9).result = .error e ∧
      ¬ e.OfGrammar := by
  have hs : Session.new { grammar := .signed } = .ok ⟨{ grammar := .signed }, none⟩ := by
    rw [Session.new, Grammar.fault?_signed]
  have hspared := (Grammar.not_ofGrammar_of_fault?_eq_none Grammar.fault?_signed
    Grammar.modest_signed).2 { grammar := .signed } _ rfl (by simp) hs
  exact ⟨.raised "sign", rfl, hspared none (.ofString "-a") none 9 _ rfl⟩

end Outline
