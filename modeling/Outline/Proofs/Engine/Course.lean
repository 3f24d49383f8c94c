import Outline.Proofs.Engine.Turns
import Outline.Proofs.Matching.Calls

/-!
# The course of a call

A call of the parser has parts that have parts in turn: a parse goes through its text in rounds, a round
matches a rule, a rule has alternatives, the action of an alternative asks for an expansion or for another
parse. What is begun in the course of a call, and in which state, is a relation between one part and the
parts of it.

* `Task`: what the parser can be busy with; `Task.run`: what it comes to;
* `Task.Begins`: in the course of a task another is begun; `Task.Leads`: however deep inside;
* `Script.Upright`, `Settings.Upright`: no failure is put up with;
* **`Task.Leads.fails`**: then a failure inside is the failure of the whole.
-/

namespace Outline

open Engine

/-! ## Tasks -/

/-- What the parser is busy with, and the room that it has for it. -/
inductive Task where
  | parse (room : Nat) (text : Text) (skip : Option Bool)
  | expand (room : Nat) (e : Expansion)
  | expandFull (room : Nat) (e : Expansion)
  | stream (room : Nat) (cursor : Cursor) (name : String)
  /-- The rounds from a cursor on. -/
  | rounds (room : Nat) (r : Matching.Rounds) (fuel : Nat) (cursor : Cursor) (found : Array Construct)
  /-- A construct of a whole text is replaced. -/
  | replace (room textEnd : Nat) (k : Construct)
  | rule (room : Nat) (cursor : Cursor) (name : String)
  /-- The alternatives of a rule that are left. -/
  | choice (room : Nat) (cursor : Cursor) (name : String) (number : Nat) (as : List Alternative)
  /-- The items of an alternative that are left. -/
  | items (room : Nat) (is : List Item) (k : Collected)
  /-- The items have matched. -/
  | build (room : Nat) (name : String) (a : Alternative) (k : Collected)
  /-- An action or a hook, or what is left of it. -/
  | script (room : Nat) (steps : Script Value)

namespace Task

/-- The sort of answer that a task has. -/
def Answer : Task → Type
  | parse .. => List Construct
  | expand .. => Option Construct
  | expandFull .. => List Construct
  | stream .. => Option Match
  | rounds .. => Array Construct
  | replace .. => List Construct
  | rule .. => Option Match
  | choice .. => Option Match
  | items .. => Option Collected
  | build .. => Match
  | script .. => Value

/-- What the parser does. -/
def run : (t : Task) → Engine t.Answer
  | parse room text skip => (level room).parseAll text skip
  | expand room e => (level room).expand e
  | expandFull room e => (level room).expandFull e
  | stream room cursor name => Matching.parseStream (level room).match? cursor name
  | rounds room r fuel cursor found => Matching.rounds (level room).match? r fuel cursor found
  | replace room textEnd k => Matching.replace (level room) textEnd k
  | rule room cursor name => (level room).match? cursor name
  | choice room cursor name number as => (level room).tryAlternatives cursor name number as
  | items room is k => (level room).matchItems is k
  | build room name a k =>
    (level room).build name a (Level.valuesOf a k) (k.start.getD k.stop) k.stop k.cursor
  | script room steps => steps.perform (level room)

end Task

/-- The state in which a matcher begins: that of the parse in progress, or a new one. -/
def State.atWork (s : State) : State := if s.text.isSome then s else { s with run := {} }

/-- The last parse is forgotten. -/
def State.forgotten (s : State) : State :=
  { s with cache := none, events := .invalidated :: s.events }

namespace Task

/-- In the course of a task that is begun in a state, another is begun in another state. -/
inductive Begins (c : Settings) : Task → State → Task → State → Prop where
  /-- A text is read to be gone through, if nothing is remembered of it. -/
  | readText {room : Nat} {text : Text} {skip : Option Bool} {cursor : Cursor} {s s' : State}
      (hk : s.cache.filter (·.isValidFor text (skip.getD c.skipComments)) = none)
      (hl : Engine.lex text 0 none c.depth c (Matching.begun text s) = (.ok cursor, s')) :
      Begins c (parse (room + 1) text skip) s (rounds (room + 1)
        (Matching.wholeText (level room) c text (skip.getD c.skipComments)) cursor.unread cursor #[]) s'
  | readSpan {room : Nat} {e : Expansion} {text : Text} {cursor : Cursor} {s s' : State}
      (ht : textOf e c s = (.ok text, s))
      (hl : lexSpan text e.span e.depth e.interior c s = (.ok cursor, s')) :
      Begins c (expand (room + 1) e) s (stream (room + 1) cursor e.rule) s'
  | readFullSpan {room : Nat} {e : Expansion} {text : Text} {cursor : Cursor} {s s' : State}
      (ht : textOf e c s = (.ok text, s))
      (hl : lexSpan text e.span e.depth e.interior c s = (.ok cursor, s')) :
      Begins c (expandFull (room + 1) e) s
        (rounds (room + 1) { name := e.rule } cursor.unread cursor #[]) s'.atWork
  | once {room : Nat} {cursor : Cursor} {name : String} {s : State} :
      Begins c (stream room cursor name) s (rule room cursor name) s.atWork
  | round {room : Nat} {r : Matching.Rounds} {fuel : Nat} {cursor : Cursor} {found : Array Construct}
      {l : Lexeme} {s : State} (hp : cursor.peek = .ok (some l))
      (hl : ¬ (r.skipComments = true ∧ l.kind = .comment)) :
      Begins c (rounds room r (fuel + 1) cursor found) s (rule room cursor r.name) s
  /-- What has been found in a whole text is replaced. -/
  | accept {room : Nat} {text : Text} {skipComments : Bool} {fuel : Nat} {cursor : Cursor}
      {found : Array Construct} {l : Lexeme} {m : Match} {k : Construct} {s s' : State}
      (hp : cursor.peek = .ok (some l)) (hl : ¬ (skipComments = true ∧ l.kind = .comment))
      (hm : Matching.guarded (level (room + 1)).match? cursor c.grammar.start c s = (.ok (some m), s'))
      (hi : m.cursor.index ≠ cursor.index) (hk : m.construct = some k) :
      Begins c (rounds (room + 1) (Matching.wholeText (level room) c text skipComments) (fuel + 1) cursor
        found) s (replace room text.length k) s'
  | laterRound {room : Nat} {r : Matching.Rounds} {fuel : Nat} {cursor d : Cursor}
      {found : Array Construct} {more : List Construct} {s s' : State}
      (ht : Matching.turn (level room).match? r cursor c s = (.ok (some (more, d)), s')) :
      Begins c (rounds room r (fuel + 1) cursor found) s (rounds room r fuel d (found ++ more)) s'
  | hook {room textEnd : Nat} {k : Construct} {hook : Construct → Script Value} {s : State}
      (hh : c.hook = some hook) : Begins c (replace room textEnd k) s (script room (hook k)) s
  | enter {room : Nat} {cursor : Cursor} {name : String} {as : List Alternative} {s : State}
      (he : RuleCall.Entered c ⟨⟨cursor, name⟩, s⟩ as) :
      Begins c (rule (room + 1) cursor name) s (choice room cursor name 0 as)
        (s.enter (cursor.entry name))
  | match {room : Nat} {cursor : Cursor} {name : String} {number : Nat} {a : Alternative}
      {as : List Alternative} {offset : Int} {s : State} (hs : countStep c s = (.ok (), s.tally))
      (ho : cursor.offset = .ok offset) :
      Begins c (choice room cursor name number (a :: as)) s
        (items room a.items { stop := offset, cursor }) s.tally
  | matched {room : Nat} {cursor : Cursor} {name : String} {number : Nat} {a : Alternative}
      {as : List Alternative} {offset : Int} {k : Collected} {s s' : State}
      (hs : countStep c s = (.ok (), s.tally)) (ho : cursor.offset = .ok offset)
      (hk : (level room).matchItems a.items { stop := offset, cursor } c s.tally = (.ok (some k), s')) :
      Begins c (choice room cursor name number (a :: as)) s (build room name a k) s'
  | laterAlternative {room : Nat} {cursor : Cursor} {name : String} {number : Nat} {a : Alternative}
      {as : List Alternative} {s s' : State}
      (ha : (level room).tryAlternative cursor name a c s = (.ok none, s')) :
      Begins c (choice room cursor name number (a :: as)) s (choice room cursor name (number + 1) as) s'
  | item {room : Nat} {name : String} {is : List Item} {k : Collected} {s : State} :
      Begins c (items room (.rule name :: is) k) s (rule room k.cursor name) s
  | laterItem {room : Nat} {i : Item} {is : List Item} {k k' : Collected} {s s' : State}
      (hi : (level room).matchItem k i c s = (.ok (some k'), s')) :
      Begins c (items room (i :: is) k) s (items room is k') s'
  | action {room : Nat} {name label : String} {a : Alternative} {k : Collected}
      {run : List Value → Int → Int → Script Value} {s : State}
      (ha : a.action = some ⟨label, .function run⟩) :
      Begins c (build room name a k) s
        (script room (run (Level.valuesOf a k) (k.start.getD k.stop) k.stop)) s
  | askExpand {room : Nat} {e : Expansion} {next : Except Failure (Option Construct) → Script Value}
      {s : State} : Begins c (script room (.expand e next)) s (expand room e) s
  | askExpandFull {room : Nat} {e : Expansion} {next : Except Failure (List Construct) → Script Value}
      {s : State} : Begins c (script room (.expandFull e next)) s (expandFull room e) s
  | askParse {room : Nat} {text : Text} {next : Except Failure (List Construct) → Script Value}
      {s : State} : Begins c (script room (.parse text next)) s (parse room text none) s
  | afterExpand {room : Nat} {e : Expansion} {next : Except Failure (Option Construct) → Script Value}
      {a : Except Failure (Option Construct)} {s s' : State} (ha : (level room).expand e c s = (a, s')) :
      Begins c (script room (.expand e next)) s (script room (next a)) s'
  | afterExpandFull {room : Nat} {e : Expansion}
      {next : Except Failure (List Construct) → Script Value} {a : Except Failure (List Construct)}
      {s s' : State} (ha : (level room).expandFull e c s = (a, s')) :
      Begins c (script room (.expandFull e next)) s (script room (next a)) s'
  | afterParse {room : Nat} {text : Text} {next : Except Failure (List Construct) → Script Value}
      {a : Except Failure (List Construct)} {s s' : State}
      (ha : (level room).parseAll text none c s = (a, s')) :
      Begins c (script room (.parse text next)) s (script room (next a)) s'
  | afterInvalidate {room : Nat} {next : Script Value} {s : State} :
      Begins c (script room (.invalidate next)) s (script room next) s.forgotten

/-- In the course of a task that is begun in a state, another is begun in another state: in it, in a part
of it, and so on. A task is a part of itself. -/
inductive Leads (c : Settings) (t : Task) (s : State) : Task → State → Prop where
  | refl : Leads c t s t s
  | step {t₁ t₂ : Task} {s₁ s₂ : State} (h : Leads c t s t₁ s₁) (hb : t₁.Begins c s₁ t₂ s₂) :
      Leads c t s t₂ s₂

/-- What a task leads to is the task itself, or something that a part of it leads to. -/
theorem Leads.head {c : Settings} {t t' : Task} {s s' : State} (h : t.Leads c s t' s') :
    (t' = t ∧ s' = s) ∨ ∃ t₁ s₁, t.Begins c s t₁ s₁ ∧ t₁.Leads c s₁ t' s' := by
  induction h with
  | refl => exact Or.inl ⟨rfl, rfl⟩
  | step _ hb ih =>
    obtain ⟨rfl, rfl⟩ | ⟨t₁, s₁, hfirst, hl⟩ := ih
    · exact Or.inr ⟨_, _, hb, .refl⟩
    · exact Or.inr ⟨t₁, s₁, hfirst, hl.step hb⟩

end Task

/-! ## Failures -/

/-- The action, if it is a function, puts up with no failure. -/
def Alternative.Upright (a : Alternative) : Prop :=
  ∀ name run, a.action = some ⟨name, .function run⟩ → ∀ values start stop,
    (run values start stop).Upright

/-- Neither an action nor the hook puts up with a failure. -/
structure Settings.Upright (c : Settings) : Prop where
  actions : ∀ r ∈ c.grammar.rules, ∀ a ∈ r.alternatives, a.Upright
  hook : ∀ hook ∈ c.hook, ∀ k, (hook k).Upright

/-- The actions of the alternatives at hand, and the script at hand, put up with no failure. -/
def Task.Upright : Task → Prop
  | choice _ _ _ _ as => ∀ a ∈ as, a.Upright
  | build _ _ a _ => a.Upright
  | script _ steps => steps.Upright
  | _ => True

section

variable {c : Settings} {s s' : State}

/-- A step fails where the first of its two steps does. -/
theorem Engine.fst_bind_error {α β : Type} {m : Engine α} {f : α → Engine β} {e : Failure}
    (h : (m c s).1 = .error e) : ((m >>= f) c s).1 = .error e := by
  rw [bind_run_error (Prod.ext h rfl)]

theorem Engine.fst_bind_ok {α β : Type} {m : Engine α} {f : α → Engine β} {a : α}
    (h : m c s = (.ok a, s')) : ((m >>= f) c s).1 = (f a c s').1 := by
  rw [bind_run_ok h]

/-- With the matcher of the parse in progress or a new one, what is done comes to what it does there. -/
theorem Engine.fst_withMatcher {α : Type} (m : Engine α) :
    (withMatcher m c s).1 = (m c s.atWork).1 := by
  show ((if s.text.isSome = true then m else _ : Engine α) c s).1 = _
  unfold State.atWork
  by_cases ht : s.text.isSome = true
  · rw [if_pos ht, if_pos ht]
  · rw [if_neg ht, if_neg ht]
    rfl

theorem State.atWork_of_text (h : s.text.isSome) : s.atWork = s := if_pos h

/-- A guard passes every failure on but that of running out of room. -/
theorem Matching.guarded_error {rule : Matching} {cursor : Cursor} {name : String} {e : Failure}
    (he : e ≠ .stackOverflow) (h : (rule cursor name c s).1 = .error e) :
    (rule.guarded cursor name c s).1 = .error e := by
  rcases hg : rule.guarded cursor name c s with ⟨r, s'⟩
  obtain ⟨-, hr⟩ | ⟨hr, -⟩ := Level.guarded_run c rule cursor name hg
  · rwa [hr] at h
  · rw [hr] at h
    cases h
    exact absurd rfl he

/-- A rule that is entered comes to what its alternatives do. -/
theorem Level.matchRule_entered {below : Level} {cursor : Cursor} {name : String} {as : List Alternative}
    (h : RuleCall.Entered c ⟨⟨cursor, name⟩, s⟩ as) : (below.matchRule cursor name c s).1 =
      (below.tryAlternatives cursor name 0 as c (s.enter (cursor.entry name))).1 := by
  have hfresh : cursor.entry name ∉ s.run.active := h.fresh
  have hd : ¬ c.limits.maxDepth ≤ s.run.depth := not_le.mpr h.shallow
  have has : c.grammar.alternatives name = .ok as := by
    rw [Grammar.alternatives, show c.grammar.alternatives? name = some as from h.defined]
  rw [matchRule_eq]
  show ((Engine.ofExcept (c.grammar.alternatives name) >>= _) c s).1 = _
  rw [has]
  show (below.enterAt c.limits.maxDepth cursor name as s c s).1 = _
  rw [enterAt, if_neg (fun hc => hfresh (List.contains_iff_mem.mp hc)), if_neg hd]
  rfl

/-- An alternative is counted, its items are matched, and what they give is built. -/
theorem Level.tryAlternative_eq {below : Level} {cursor : Cursor} {name : String} {a : Alternative}
    {offset : Int} (hs : countStep c s = (.ok (), s.tally)) (ho : cursor.offset = .ok offset) :
    below.tryAlternative cursor name a c s =
      (below.matchItems a.items { stop := offset, cursor } >>= fun
        | some k => do
          return some (← below.build name a (valuesOf a k) (k.start.getD k.stop) k.stop k.cursor)
        | none => return none : Engine (Option Match)) c s.tally := by
  rw [tryAlternative, bind_run_ok hs, ho]
  show (if a.isEmpty then _ else _ : Engine (Option Match)) c s.tally = _
  by_cases ha : a.isEmpty = true
  · have hi : a.items = [] := List.isEmpty_iff.mp ha
    rw [if_pos ha, hi]
    show _ = ((do return some (← below.build name a (valuesOf a { stop := offset, cursor }) offset offset
      cursor)) : Engine (Option Match)) c s.tally
    rw [valuesOf, if_pos ha]
  · rw [if_neg ha]
    refine congrArg (fun next => (below.matchItems a.items _ >>= next : Engine (Option Match)) c s.tally)
      (funext fun q => ?_)
    cases q with
    | none => rfl
    | some k =>
      have hv : valuesOf a k = k.values.toList := if_neg ha
      show (below.build name a k.values.toList _ _ _ >>= _ : Engine (Option Match)) =
        (below.build name a (valuesOf a k) _ _ _ >>= _)
      rw [hv]

/-- The rounds fail where one of them does. -/
theorem Matching.rounds_error {rule : Matching} {r : Rounds} {fuel : Nat} {cursor : Cursor}
    {found : Array Construct} {e : Failure} (h : (turn rule r cursor c s).1 = .error e) :
    (rule.rounds r (fuel + 1) cursor found c s).1 = .error e := by
  rw [rounds_succ]
  exact fst_bind_error h

/-- What is gone through again and again fails where the rounds do. -/
theorem Matching.repeatedly_error {rule : Matching} {r : Rounds} {cursor : Cursor} {e : Failure}
    (h : (rule.rounds r cursor.unread cursor #[] c s.atWork).1 = .error e) :
    (rule.repeatedly r cursor c s).1 = .error e := by
  rw [repeatedly, fst_withMatcher]
  exact fst_bind_error h

/-- Lexing reports, and changes nothing else. -/
theorem Engine.eq_of_lex {text : Text} {start : Int} {stop depth : Option Int}
    {r : Except Failure Cursor} (h : Engine.lex text start stop depth c s = (r, s')) :
    s' = { s with events := s'.events } := by
  rw [Matching.lex_run] at h
  split at h <;> cases h <;> rfl

/-- A text is lexed in the course of its parse, so that the matcher of the parse is at work behind. -/
theorem Engine.atWork_of_lex {text : Text} {start : Int} {stop depth : Option Int}
    {r : Except Failure Cursor}
    (h : Engine.lex text start stop depth c (Matching.begun text s) = (r, s')) : s'.atWork = s' := by
  have htext : s'.text = some text := congrArg State.text (eq_of_lex h)
  exact State.atWork_of_text (by rw [htext]; rfl)

/-- A parse that nothing is remembered of fails where the rounds do. -/
theorem Matching.parseAll_error {rule : Matching} {below : Level} {text : Text} {skip : Option Bool}
    {cursor : Cursor} {e : Failure}
    (hk : s.cache.filter (·.isValidFor text (skip.getD c.skipComments)) = none)
    (hl : Engine.lex text 0 none c.depth c (begun text s) = (.ok cursor, s'))
    (h : (rule.rounds (wholeText below c text (skip.getD c.skipComments)) cursor.unread cursor #[] c
      s').1 = .error e) : (rule.parseAll below text skip c s).1 = .error e := by
  have hp : (inProgress rule below c text (skip.getD c.skipComments) c (begun text s)).1 = .error e := by
    rw [inProgress, bind_run_ok hl]
    exact repeatedly_error (by rwa [atWork_of_lex hl])
  rw [parseAll_run, hk]
  simp only [parseText_run]
  rcases hrun : inProgress rule below c text (skip.getD c.skipComments) c (begun text s) with ⟨e' | f, after⟩
  · rw [hrun] at hp
    exact hp
  · rw [hrun] at hp
    cases hp

/-- A failure that is passed on at once. -/
theorem Engine.attempt_bind_error {α β : Type} {m : Engine α} {f : Except Failure α → Engine β}
    {e : Failure} (hf : f (.error e) = Engine.fail e) (h : (m c s).1 = .error e) :
    ((m.attempt >>= f) c s).1 = .error e := by
  rw [bind_run_ok (attempt_run _ _ _), h, hf]
  rfl

theorem Task.Begins.upright (hc : c.Upright) {t t' : Task} (h : t.Begins c s t' s') (ht : t.Upright) :
    t'.Upright := by
  cases h with
  | readText => exact trivial
  | readSpan => exact trivial
  | readFullSpan => exact trivial
  | once => exact trivial
  | round => exact trivial
  | accept => exact trivial
  | laterRound => exact trivial
  | hook hh => exact hc.hook _ hh _
  | enter he =>
    obtain ⟨r, hr, -, rfl⟩ := Grammar.alternatives?_eq_some he.defined
    exact hc.actions r hr
  | «match» => exact trivial
  | matched => exact ht _ List.mem_cons_self
  | laterAlternative => exact fun a ha => ht a (List.mem_cons_of_mem _ ha)
  | item => exact trivial
  | laterItem => exact trivial
  | action ha => exact ht _ _ ha _ _ _
  | askExpand => exact trivial
  | askExpandFull => exact trivial
  | askParse => exact trivial
  | @afterExpand _ _ _ a =>
    cases ht with
    | expand pass rest => cases a with
      | ok a => exact rest a
      | error e => exact pass e ▸ .fail e
  | @afterExpandFull _ _ _ a =>
    cases ht with
    | expandFull pass rest => cases a with
      | ok a => exact rest a
      | error e => exact pass e ▸ .fail e
  | @afterParse _ _ _ a =>
    cases ht with
    | parse pass rest => cases a with
      | ok a => exact rest a
      | error e => exact pass e ▸ .fail e
  | afterInvalidate => cases ht with | invalidate rest => exact rest

/-- Where no failure is put up with, a task fails where a part of it does, unless for lack of room. -/
theorem Task.Begins.fails {t t' : Task} (h : t.Begins c s t' s') (ht : t.Upright) {e : Failure}
    (he : e ≠ .stackOverflow) (hf : (t'.run c s').1 = .error e) : (t.run c s).1 = .error e := by
  cases h with
  | readText hk hl => exact Matching.parseAll_error hk hl hf
  | readSpan htext hl =>
    show ((textOf _ >>= _) c s).1 = _
    rw [bind_run_ok htext, bind_run_ok hl]
    exact fst_bind_error hf
  | readFullSpan htext hl =>
    show ((textOf _ >>= _) c s).1 = _
    rw [bind_run_ok htext, bind_run_ok hl]
    exact fst_bind_error (Matching.repeatedly_error hf)
  | once =>
    show (withMatcher _ c s).1 = _
    rw [fst_withMatcher]
    exact Matching.guarded_error he hf
  | round hp hl =>
    refine Matching.rounds_error ?_
    rw [Matching.turn_lexeme hp hl]
    exact fst_bind_error (Matching.guarded_error he hf)
  | @accept room text skipComments fuel cursor found l m k s s' hp hl hm hi hk =>
    refine Matching.rounds_error ?_
    have hc : ((Matching.wholeText (level room) c text skipComments).contribution m c s').1 = .error e := by
      rw [Matching.Rounds.contribution, hk]
      exact hf
    rw [Matching.turn_lexeme hp hl]
    refine (fst_bind_ok hm).trans ?_
    rw [Matching.Rounds.settle, if_neg hi]
    exact fst_bind_error hc
  | laterRound hturn =>
    show (Matching.rounds _ _ _ _ _ c s).1 = _
    rw [Matching.rounds_succ, bind_run_ok hturn]
    exact hf
  | hook hh =>
    show (Matching.replace _ _ _ c s).1 = _
    rw [Matching.replace_eq, bind_run_ok rfl, hh]
    exact fst_bind_error hf
  | enter hen =>
    show (Level.matchRule _ _ _ c s).1 = _
    rw [Level.matchRule_entered hen]
    exact hf
  | «match» hs ho =>
    refine fst_bind_error ?_
    rw [Level.tryAlternative_eq hs ho]
    exact fst_bind_error hf
  | matched hs ho hk =>
    refine fst_bind_error ?_
    rw [Level.tryAlternative_eq hs ho, bind_run_ok hk]
    exact fst_bind_error hf
  | laterAlternative ha =>
    show ((Level.tryAlternative _ _ _ _ >>= _) c s).1 = _
    rw [bind_run_ok ha]
    exact hf
  | item =>
    exact fst_bind_error (fst_bind_error hf)
  | laterItem hi =>
    show ((Level.matchItem _ _ _ >>= _) c s).1 = _
    rw [bind_run_ok hi]
    exact hf
  | action ha =>
    refine fst_bind_error ?_
    rw [Level.runAction, ha]
    exact hf
  | askExpand =>
    cases ht with
    | expand pass rest =>
      exact attempt_bind_error (by rw [pass]; rfl) hf
  | askExpandFull =>
    cases ht with
    | expandFull pass rest =>
      exact attempt_bind_error (by rw [pass]; rfl) hf
  | askParse =>
    cases ht with
    | parse pass rest =>
      exact attempt_bind_error (by rw [pass]; rfl) hf
  | afterExpand ha =>
    show ((Engine.attempt _ >>= _) c s).1 = _
    rw [bind_run_ok (attempt_run _ _ _), ha]
    exact hf
  | afterExpandFull ha =>
    show ((Engine.attempt _ >>= _) c s).1 = _
    rw [bind_run_ok (attempt_run _ _ _), ha]
    exact hf
  | afterParse ha =>
    show ((Engine.attempt _ >>= _) c s).1 = _
    rw [bind_run_ok (attempt_run _ _ _), ha]
    exact hf
  | afterInvalidate => exact hf

namespace Task.Leads

variable {t t' : Task}

theorem upright (hc : c.Upright) (h : t.Leads c s t' s') (ht : t.Upright) : t'.Upright := by
  induction h with
  | refl => exact ht
  | step _ hb ih => exact hb.upright hc ih

/-- **Where no failure is put up with, a failure inside is the failure of the whole.** -/
theorem fails (hc : c.Upright) (h : t.Leads c s t' s') (ht : t.Upright) {e : Failure}
    (he : e ≠ .stackOverflow) (hf : (t'.run c s').1 = .error e) : (t.run c s).1 = .error e := by
  induction h with
  | refl => exact hf
  | step hl hb ih => exact ih (hb.fails (hl.upright hc ht) he hf)

end Task.Leads

end

end Outline
