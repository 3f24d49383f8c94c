import Outline.Proofs.Engine.Round

/-!
# Properties of composed steps

A property that holds of the smallest steps of a parser, and of what is put together from steps that have
it, holds of every match and of every expansion, if no action asks for more than expansions.

* `Script.Inward`, `Settings.Inward`: scripts that only look into spans; they may go on after a failure;
* `Engine.Composable`: the properties that are kept by putting steps together;
* `Level.All`, **`Engine.Composable.level`**: whatever a level is asked for in the course of a parse;
* `Engine.Composable.inProgress`: a parse between its beginning and its end.
-/

namespace Outline

open Engine

/-! ## Scripts that look into spans -/

/-- A script that asks for expansions alone, and does with the answers what it likes. -/
inductive Script.Inward {α : Type} : Script α → Prop where
  | done (a : α) : Inward (.done a)
  | fail (e : Failure) : Inward (.fail e)
  | expand {r : Expansion} {next : Except Failure (Option Construct) → Script α}
      (rest : ∀ a, Inward (next a)) : Inward (.expand r next)
  | expandFull {r : Expansion} {next : Except Failure (List Construct) → Script α}
      (rest : ∀ a, Inward (next a)) : Inward (.expandFull r next)

/-- The action, if it is a function, asks for expansions alone. -/
def Alternative.Inward (a : Alternative) : Prop :=
  ∀ name run, a.action = some ⟨name, .function run⟩ → ∀ values start stop,
    (run values start stop).Inward

/-- All actions and the hook ask for expansions alone. -/
structure Settings.Inward (c : Settings) : Prop where
  actions : ∀ r ∈ c.grammar.rules, ∀ a ∈ r.alternatives, a.Inward
  hook : ∀ hook ∈ c.hook, ∀ k, (hook k).Inward

/-! ## Putting steps together -/

theorem Engine.ofExcept_ok_bind {α β : Type} (a : α) (f : α → Engine β) :
    (ofExcept (.ok a) >>= f : Engine β) = f a := rfl

/-- Under the settings the property holds of the smallest steps, and of what is put together from steps
that have it. -/
structure Engine.Composable (c : Settings) (P : ∀ {α : Type}, Engine α → Prop) : Prop where
  pure {α : Type} (a : α) : P (Pure.pure a : Engine α)
  fail {α : Type} (e : Failure) : P (Engine.fail e : Engine α)
  ask {α : Type} {f : Settings → Engine α} (h : P (f c)) : P (settings >>= f)
  state : P state
  emit (e : Event) : P (Engine.emit e)
  tally : P (modify State.tally)
  bind {α β : Type} {m : Engine α} {f : α → Engine β} (hm : P m) (hf : ∀ a, P (f a)) : P (m >>= f)
  attempt {α : Type} {m : Engine α} (h : P m) : P m.attempt
  rule {α : Type} {m : Engine α} (e : Entry) (h : P m) :
    P (within (State.enter e) (fun _ => State.leave e) m)
  matcher {α : Type} {m : Engine α} (h : P m) :
    P (within (fun s => { s with run := {} }) (fun before s => { s with run := before.run }) m)

/-- The property holds of whatever the level is asked for in the course of a parse. -/
structure Level.All (below : Level) (P : ∀ {α : Type}, Engine α → Prop) : Prop where
  match? (cursor : Cursor) (name : String) : P (below.match? cursor name)
  expand (e : Expansion) : P (below.expand e)
  expandFull (e : Expansion) : P (below.expandFull e)

namespace Engine.Composable

variable {c : Settings} {P : ∀ {α : Type}, Engine α → Prop} {α : Type}

section
variable (h : Composable c P)
include h

theorem ofExcept : ∀ r : Except Failure α, P (Engine.ofExcept r)
  | .ok a => h.pure a
  | .error e => h.fail e

theorem access (r : Except AccessFault α) : P (Engine.access r) := h.ofExcept _

theorem lex (text : Text) (start : Int) (stop depth : Option Int) :
    P (Engine.lex text start stop depth) :=
  h.bind (h.emit _) fun _ => h.ask <| h.bind (h.ofExcept _) fun _ => h.bind (h.emit _) fun _ => h.pure _

theorem lexSpan (text : Text) (span : Value) (depth : Option Int) (interior : Bool) :
    P (Engine.lexSpan text span depth interior) := by
  have hbetween : ∀ a b : Value, P (Matching.lexBetween text depth a b) := by
    intro a b
    rw [Matching.lexBetween]
    split
    · exact h.lex _ _ _ _
    · exact h.bind (h.emit _) fun _ => h.fail _
  rw [Matching.lexSpan_eq]
  refine h.bind (h.ofExcept _) fun p => ?_
  cases interior with
  | true => exact h.bind (h.ofExcept _) fun q => hbetween q.1 q.2
  | false => exact h.bind (h.pure _) fun q => hbetween q.1 q.2

theorem textOf (e : Expansion) : P (Engine.textOf e) := by
  refine h.bind h.state fun s => ?_
  split
  · exact h.pure _
  · exact h.pure _
  · exact h.fail _

theorem withMatcher {m : Engine α} (hm : P m) : P (Engine.withMatcher m) := by
  refine h.bind h.state fun s => ?_
  split
  · exact hm
  · exact h.matcher hm

theorem perform {below : Level} (hb : below.All P) {script : Script α} (hs : script.Inward) :
    P (script.perform below) := by
  induction hs with
  | done a => exact h.pure a
  | fail e => exact h.fail e
  | @expand r next rest ih => exact h.bind (h.attempt (hb.expand r)) ih
  | @expandFull r next rest ih => exact h.bind (h.attempt (hb.expandFull r)) ih

/-! ## Rules -/

theorem matchItem {below : Level} (hb : below.All P) (k : Collected) (i : Item) :
    P (below.matchItem k i) := by
  cases i with
  | rule name =>
    refine h.bind (hb.match? _ _) fun m => ?_
    split
    · exact h.pure _
    · exact h.pure _
  | terminal t =>
    refine h.bind (h.access _) fun p => ?_
    split
    · split
      · exact h.pure _
      · exact h.pure _
    · exact h.pure _

theorem matchItems {below : Level} (hb : below.All P) (is : List Item) :
    ∀ k : Collected, P (below.matchItems is k) := by
  induction is with
  | nil => exact fun _ => h.pure _
  | cons i is ih =>
    intro k
    refine h.bind (h.matchItem hb k i) fun m => ?_
    cases m with
    | none => exact h.pure _
    | some k' => exact ih k'

theorem runAction {below : Level} (hb : below.All P) {a : Alternative} (ha : a.Inward)
    (values : List Value) (start stop : Int) : P (below.runAction a values start stop) := by
  unfold Level.runAction
  split
  · exact h.pure _
  · rename_i hn
    exact h.perform hb (ha _ _ hn _ _ _)
  · exact h.fail _

theorem build {below : Level} (hb : below.All P) (name : String) {a : Alternative} (ha : a.Inward)
    (values : List Value) (start stop : Int) (cursor : Cursor) :
    P (below.build name a values start stop cursor) := by
  refine h.bind (h.runAction hb ha values start stop) fun v => ?_
  split
  · exact h.pure _
  · split
    · exact h.pure _
    · exact h.fail _

theorem countStep : P countStep := by
  refine h.ask <| h.bind h.tally fun _ => h.bind h.state fun s => ?_
  split
  · exact h.fail _
  · exact h.pure _

theorem tryAlternative {below : Level} (hb : below.All P) (cursor : Cursor) (name : String)
    {a : Alternative} (ha : a.Inward) : P (below.tryAlternative cursor name a) := by
  refine h.bind h.countStep fun _ => h.bind (h.access _) fun offset => ?_
  split
  · exact h.bind (h.build hb _ ha _ _ _ _) fun _ => h.pure _
  · refine h.bind (h.matchItems hb _ _) fun k => ?_
    split
    · exact h.bind (h.build hb _ ha _ _ _ _) fun _ => h.pure _
    · exact h.pure _

theorem tryAlternatives {below : Level} (hb : below.All P) (cursor : Cursor) (name : String)
    (as : List Alternative) (ha : ∀ a ∈ as, a.Inward) :
    ∀ number, P (below.tryAlternatives cursor name number as) := by
  induction as with
  | nil => exact fun _ => h.pure _
  | cons a as ih =>
    intro number
    refine h.bind (h.tryAlternative hb cursor name (ha a List.mem_cons_self)) fun m => ?_
    cases m with
    | none => exact ih (fun b hb => ha b (List.mem_cons_of_mem _ hb)) (number + 1)
    | some m => exact h.bind (h.emit _) fun _ => h.pure _

theorem matchRule {below : Level} (hb : below.All P)
    (hc : ∀ r ∈ c.grammar.rules, ∀ a ∈ r.alternatives, a.Inward) (cursor : Cursor) (name : String) :
    P (below.matchRule cursor name) := by
  refine h.ask ?_
  unfold Grammar.alternatives
  cases has : c.grammar.alternatives? name with
  | none =>
    have hfail : P (Engine.fail (.undefinedRule name) : Engine (Option Match)) := h.fail _
    exact hfail
  | some as =>
    obtain ⟨r, hr, -, rfl⟩ := Grammar.alternatives?_eq_some has
    rw [ofExcept_ok_bind]
    refine h.bind h.state fun s => ?_
    split
    · exact h.fail _
    · split
      · exact h.bind (h.access _) fun _ => h.fail _
      · exact h.rule _ (h.tryAlternatives hb cursor name r.alternatives (hc r hr) 0)

/-! ## Runs -/

theorem guarded {rule : Matching} (hr : ∀ cursor name, P (rule cursor name)) (cursor : Cursor)
    (name : String) : P (rule.guarded cursor name) := by
  refine h.bind (h.attempt (hr cursor name)) fun r => ?_
  split
  · exact h.pure _
  · exact h.bind h.state fun _ => h.bind (h.access _) fun _ => h.fail _
  · exact h.fail _

theorem contribution (r : Matching.Rounds) (ha : ∀ k, P (r.accept k)) (m : Match) :
    P (r.contribution m) := by
  unfold Matching.Rounds.contribution
  split
  · exact h.bind (h.emit _) fun _ => h.pure _
  · exact ha _

theorem rounds {rule : Matching} (hr : ∀ cursor name, P (rule cursor name)) (r : Matching.Rounds)
    (ha : ∀ k, P (r.accept k)) (fuel : Nat) :
    ∀ (cursor : Cursor) (found : Array Construct), P (rule.rounds r fuel cursor found) := by
  induction fuel with
  | zero => exact fun _ _ => h.pure _
  | succ fuel ih =>
    intro cursor found
    refine h.bind (h.access _) fun l => ?_
    split
    · exact h.pure _
    · split
      · exact ih _ _
      · refine h.bind (h.guarded hr _ _) fun m => ?_
        split
        · exact h.fail _
        · split
          · exact h.fail _
          · refine h.bind (h.contribution r ha _) fun more => ?_
            split
            · exact h.bind (h.emit _) fun _ => ih _ _
            · exact h.bind (h.pure _) fun _ => ih _ _

theorem repeatedly {rule : Matching} (hr : ∀ cursor name, P (rule cursor name)) (r : Matching.Rounds)
    (ha : ∀ k, P (r.accept k)) (cursor : Cursor) : P (rule.repeatedly r cursor) :=
  h.withMatcher (h.bind (h.rounds hr r ha _ _ _) fun _ => h.pure _)

theorem parseStream {rule : Matching} (hr : ∀ cursor name, P (rule cursor name)) (cursor : Cursor)
    (name : String) : P (rule.parseStream cursor name) := h.withMatcher (h.guarded hr _ _)

theorem above {below : Level} (hb : below.All P)
    (hc : ∀ r ∈ c.grammar.rules, ∀ a ∈ r.alternatives, a.Inward) : below.above.All P where
  match? := h.matchRule hb hc
  expand e := h.bind (h.textOf e) fun _ => h.bind (h.lexSpan _ _ _ _) fun _ =>
    h.bind (h.parseStream (h.matchRule hb hc) _ _) fun _ => h.bind (h.emit _) fun _ => h.pure _
  expandFull e := h.bind (h.textOf e) fun _ => h.bind (h.lexSpan _ _ _ _) fun _ =>
    h.bind (h.repeatedly (h.matchRule hb hc) _ (fun _ => h.pure _) _) fun _ =>
      h.bind (h.emit _) fun _ => h.pure _

/-- **What holds of composed steps holds of every match and every expansion.** -/
theorem level (hc : ∀ r ∈ c.grammar.rules, ∀ a ∈ r.alternatives, a.Inward) :
    ∀ room, (level room).All P
  | 0 => ⟨fun _ _ => h.fail _, fun _ => h.fail _, fun _ => h.fail _⟩
  | room + 1 => h.above (level hc room) hc

theorem hooked (textEnd : Nat) (vs : List Value) : P (Matching.hooked textEnd vs) := by
  induction vs with
  | nil => exact h.pure _
  | cons v vs ih =>
    unfold Matching.hooked
    split
    · exact h.bind ih fun _ => h.pure _
    · exact h.fail _

theorem replace {below : Level} (hb : below.All P) (hh : ∀ hook ∈ c.hook, ∀ k, (hook k).Inward)
    (textEnd : Nat) (k : Construct) : P (Matching.replace below textEnd k) := by
  refine h.ask ?_
  split
  · exact h.pure _
  · rename_i hook hn
    exact h.bind (h.perform hb (hh hook hn k)) fun _ => h.bind (h.access _) fun _ => h.hooked _ _

/-- What holds of composed steps holds of a parse that is in progress. -/
theorem inProgress (hc : c.Inward) (room : Nat) (text : Text) (skipComments : Bool) :
    P (Matching.inProgress (Outline.level room).matchRule (Outline.level room) c text skipComments) := by
  have hl := h.level hc.actions
  exact h.bind (h.lex _ _ _ _) fun _ =>
    h.repeatedly (hl (room + 1)).match? _ (h.replace (hl room) hc.hook _) _

end

end Engine.Composable

end Outline
