import Outline.Proofs.Engine.Composed
import Outline.Proofs.Engine.Course

/-!
# What stays true in the course of a call

Something that is true of the state where a call begins may be kept by all that the parser does. It is
enough to look at the few things that change the state: reports, the forgetting, the matcher at work, and
the beginning and the end of a parse. What is known of a parse that ends is that it was begun in the course
of the call.

* `Engine.Keeps`: a step behind which something is true if it was before;
* `Task.Usual`: the rounds of a task go as those of a span or as those of a whole text;
* `Engine.Invariant`: what is true of the state, and is kept by the few things that change it;
* `Engine.Invariant.Served`: whatever a level is asked for in the course of the call keeps it;
* **`Engine.Invariant.task`**, **`Engine.Invariant.leads`**: it is true wherever a task begins or ends;
* `Task.Inward`, `Task.Lone`: tasks inside which no parse is begun;
* `Task.Lone.invariant`, `Task.cache_of_parse`: what stays true inside such a parse, and behind one that fails.
-/

namespace Outline

open Engine

/-! ## Steps -/

/-- What is true of the state is true behind the step, whether that fails or not. -/
def Engine.Keeps {α : Type} (c : Settings) (I : State → Prop) (m : Engine α) (s : State) : Prop :=
  I s → I (m c s).2

namespace Engine.Keeps

variable {c : Settings} {I : State → Prop} {α β : Type} {s : State}

theorem pure (a : α) : Keeps c I (Pure.pure a : Engine α) s := id

theorem fail (e : Failure) : Keeps c I (Engine.fail e : Engine α) s := id

theorem ofExcept (r : Except Failure α) : Keeps c I (Engine.ofExcept r) s := by
  unfold Keeps
  rw [ofExcept_run]
  exact id

theorem access (r : Except AccessFault α) : Keeps c I (Engine.access r) s := ofExcept _

theorem bind {m : Engine α} {f : α → Engine β} (hm : Keeps c I m s)
    (hf : ∀ a s₁, m c s = (.ok a, s₁) → Keeps c I (f a) s₁) : Keeps c I (m >>= f) s := by
  intro hs
  have hfirst := hm hs
  rcases hr : m c s with ⟨e | a, s₁⟩
  · rw [hr] at hfirst
    rwa [bind_run_error hr]
  · rw [hr] at hfirst
    rw [bind_run_ok hr]
    exact hf a s₁ hr hfirst

theorem attempt {m : Engine α} (hm : Keeps c I m s) : Keeps c I m.attempt s := hm

/-- What a guard makes of a match changes nothing. -/
theorem guarded {rule : Matching} {cursor : Cursor} {name : String} (hm : Keeps c I (rule cursor name) s) :
    Keeps c I (rule.guarded cursor name) s := by
  refine (attempt hm).bind fun r s₁ _ => ?_
  split
  · exact pure _
  · exact Keeps.bind (m := Engine.state) id fun _ _ _ => (access _).bind fun _ _ _ => fail _
  · exact fail _

theorem textOf (e : Expansion) : Keeps c I (Engine.textOf e) s := by
  unfold Keeps
  rw [Matching.textOf_snd]
  exact id

theorem of_run {m : Engine α} {a : Except Failure α} {s' : State} (h : Keeps c I m s)
    (hr : m c s = (a, s')) (hs : I s) : I s' := by
  have hend := h hs
  rwa [hr] at hend

end Engine.Keeps

/-! ## Rounds -/

/-- The ways in which a row of lexemes is gone through: that of a span, and that of a whole text. -/
inductive Matching.Ways (c : Settings) : Nat → Matching.Rounds → Prop where
  | span (room : Nat) (name : String) : Ways c room { name }
  | whole (room : Nat) (text : Text) (skipComments : Bool) :
      Ways c (room + 1) (Matching.wholeText (level room) c text skipComments)

/-- The rounds at hand go in one of these ways. -/
def Task.Usual (c : Settings) : Task → Prop
  | rounds room r .. => Matching.Ways c room r
  | _ => True

section

variable {c : Settings} {t t' : Task} {s s' : State}

theorem Task.Begins.usual (h : t.Begins c s t' s') (ht : t.Usual c) : t'.Usual c := by
  cases h with
  | readText => exact .whole _ _ _
  | readFullSpan => exact .span _ _
  | laterRound => exact ht
  | _ => exact trivial

theorem Task.Leads.usual (h : t.Leads c s t' s') (ht : t.Usual c) : t'.Usual c := by
  induction h with
  | refl => exact ht
  | step _ hb ih => exact hb.usual ih

end

/-! ## Invariants -/

/-- The report is neither that something was forgotten nor that a parse has ended well. -/
def Event.Passing : Event → Prop
  | .invalidated => False
  | .parsed _ => False
  | _ => True

namespace Engine

/-- What is true of the state in the course of a task. It does not depend on the matcher at work, and is
kept by reports, by forgetting, where a parse begins, and where one ends. -/
structure Invariant (c : Settings) (t₀ : Task) (s₀ : State) (I : State → Prop) : Prop where
  run {s : State} (r : Run) (h : I s) : I { s with run := r }
  report {s : State} {e : Event} (he : e.Passing) (h : I s) : I { s with events := e :: s.events }
  forget {s : State} (h : I s) : I s.forgotten
  begun {room : Nat} {text : Text} {skip : Option Bool} {s : State}
    (hl : t₀.Leads c s₀ (.parse (room + 1) text skip) s) (h : I s) : I (Matching.begun text s)
  parse {room : Nat} {text : Text} {skip : Option Bool} {s : State}
    (hl : t₀.Leads c s₀ (.parse (room + 1) text skip) s)
    (hk : s.cache.filter (·.isValidFor text (skip.getD c.skipComments)) = none) (h : I s)
    (hp : I (Matching.inProgress (level room).matchRule (level room) c text (skip.getD c.skipComments) c
      (Matching.begun text s)).2) :
    I (Matching.parseText (level room).matchRule (level room) text (skip.getD c.skipComments) c s).2

namespace Invariant

variable {c : Settings} {t₀ : Task} {s₀ : State} {I : State → Prop} {room : Nat} {s : State}

section

variable (h : Invariant c t₀ s₀ I)
include h

theorem emit {e : Event} (he : e.Passing) : Keeps c I (Engine.emit e) s := h.report he

theorem atWork (hs : I s) : I s.atWork := by
  unfold State.atWork
  split
  · exact hs
  · exact h.run _ hs

theorem withMatcher {α : Type} {m : Engine α} (hm : Keeps c I m s.atWork) :
    Keeps c I (Engine.withMatcher m) s := by
  intro hs
  have hend := hm (h.atWork hs)
  by_cases ht : s.text.isSome = true
  · rw [withMatcher_run m ht]
    rwa [State.atWork_of_text ht] at hend
  · rw [State.atWork, if_neg ht] at hend
    show I ((if s.text.isSome = true then m else _ : Engine α) c s).2
    rw [if_neg ht]
    exact h.run _ hend

theorem lex (text : Text) (start : Int) (stop depth : Option Int) :
    Keeps c I (Engine.lex text start stop depth) s := by
  refine Keeps.bind (h.emit trivial) fun _ _ _ => ?_
  refine Keeps.bind (m := settings) id fun _ _ _ => ?_
  exact (Keeps.ofExcept _).bind fun _ _ _ => Keeps.bind (h.emit trivial) fun _ _ _ => .pure _

theorem lexSpan (text : Text) (span : Value) (depth : Option Int) (interior : Bool) :
    Keeps c I (Engine.lexSpan text span depth interior) s := by
  have hbetween : ∀ (a b : Value) (s : State), Keeps c I (Matching.lexBetween text depth a b) s := by
    intro a b s
    rw [Matching.lexBetween]
    split
    · exact h.lex _ _ _ _
    · exact Keeps.bind (h.emit trivial) fun _ _ _ => .fail _
  rw [Matching.lexSpan_eq]
  refine (Keeps.ofExcept _).bind fun p s₁ _ => ?_
  cases interior with
  | true => exact (Keeps.ofExcept _).bind fun q _ _ => hbetween q.1 q.2 _
  | false => exact (Keeps.pure _).bind fun q _ _ => hbetween q.1 q.2 _

end

/-- Whatever the level is asked for in the course of the call keeps what is true. -/
structure Served (c : Settings) (t₀ : Task) (s₀ : State) (I : State → Prop) (room : Nat) : Prop where
  rule {cursor : Cursor} {name : String} {s : State} (hl : t₀.Leads c s₀ (.rule room cursor name) s) :
    Keeps c I ((level room).match? cursor name) s
  expand {e : Expansion} {s : State} (hl : t₀.Leads c s₀ (.expand room e) s) :
    Keeps c I ((level room).expand e) s
  expandFull {e : Expansion} {s : State} (hl : t₀.Leads c s₀ (.expandFull room e) s) :
    Keeps c I ((level room).expandFull e) s
  parse {text : Text} {skip : Option Bool} {s : State} (hl : t₀.Leads c s₀ (.parse room text skip) s) :
    Keeps c I ((level room).parseAll text skip) s

section

variable (h : Invariant c t₀ s₀ I) (hb : Served c t₀ s₀ I room)
include h hb

theorem script : ∀ {steps : Script Value} {s : State}, t₀.Leads c s₀ (.script room steps) s →
    Keeps c I (steps.perform (level room)) s
  | .done _, _, _ => .pure _
  | .fail _, _, _ => .fail _
  | .expand _ _, _, hl => (hb.expand (hl.step .askExpand)).attempt.bind fun a s₁ ha => by
    cases ha
    exact script (hl.step (.afterExpand rfl))
  | .expandFull _ _, _, hl => (hb.expandFull (hl.step .askExpandFull)).attempt.bind fun a s₁ ha => by
    cases ha
    exact script (hl.step (.afterExpandFull rfl))
  | .parse _ _, _, hl => (hb.parse (hl.step .askParse)).attempt.bind fun a s₁ ha => by
    cases ha
    exact script (hl.step (.afterParse rfl))
  | .invalidate next, s, hl => fun hs => by
    have hrest : Keeps c I (next.perform (level room)) s.forgotten := script (hl.step .afterInvalidate)
    exact hrest (h.forget hs)

theorem build {name : String} {a : Alternative} {k : Collected}
    (hl : t₀.Leads c s₀ (.build room name a k) s) :
    Keeps c I ((level room).build name a (Level.valuesOf a k) (k.start.getD k.stop) k.stop k.cursor) s := by
  have haction : Keeps c I
      ((level room).runAction a (Level.valuesOf a k) (k.start.getD k.stop) k.stop) s := by
    unfold Level.runAction
    split
    · exact .pure _
    · rename_i ha
      exact h.script hb (hl.step (.action ha))
    · exact .fail _
  refine haction.bind fun v s₁ _ => ?_
  split
  · exact .pure _
  · split
    · exact .pure _
    · exact .fail _

omit h in
theorem item {i : Item} {is : List Item} {k : Collected}
    (hl : t₀.Leads c s₀ (.items room (i :: is) k) s) : Keeps c I ((level room).matchItem k i) s := by
  cases i with
  | rule name =>
    refine (hb.rule (hl.step .item)).bind fun m s₁ _ => ?_
    split
    · exact .pure _
    · exact .pure _
  | terminal t =>
    refine (Keeps.access _).bind fun p s₁ _ => ?_
    split
    · split
      · exact .pure _
      · exact .pure _
    · exact .pure _

omit h in
theorem items : ∀ {is : List Item} {k : Collected} {s : State}, t₀.Leads c s₀ (.items room is k) s →
    Keeps c I ((level room).matchItems is k) s
  | [], _, _, _ => .pure _
  | _ :: _, _, _, hl => (item hb hl).bind fun m s₁ hm => by
    cases m with
    | none => exact .pure _
    | some k => exact items (hl.step (.laterItem hm))

theorem alternative {cursor : Cursor} {name : String} {number : Nat} {a : Alternative}
    {as : List Alternative} (hl : t₀.Leads c s₀ (.choice room cursor name number (a :: as)) s) :
    Keeps c I ((level room).tryAlternative cursor name a) s := by
  intro hs
  have htally : I s.tally := h.run _ hs
  have hcount : (countStep c s).2 = s.tally := by rw [countStep_run]
  rcases hc : countStep c s with ⟨e | u, s₁⟩ <;> rw [hc] at hcount <;> subst hcount
  · rwa [Level.tryAlternative, bind_run_error hc]
  · cases ho : cursor.offset with
    | error e =>
      rw [Level.tryAlternative, bind_run_ok hc, ho]
      exact htally
    | ok offset =>
      rw [Level.tryAlternative_eq hc ho]
      refine ((items hb (hl.step (.match hc ho))).bind fun k s₁ hk => ?_) htally
      cases k with
      | none => exact .pure _
      | some k => exact (h.build hb (hl.step (.matched hc ho hk))).bind fun _ _ _ => .pure _

theorem choice : ∀ {as : List Alternative} {cursor : Cursor} {name : String} {number : Nat} {s : State},
    t₀.Leads c s₀ (.choice room cursor name number as) s →
      Keeps c I ((level room).tryAlternatives cursor name number as) s
  | [], _, _, _, _, _ => .pure _
  | _ :: _, _, _, _, _, hl => (h.alternative hb hl).bind fun m s₁ hm => by
    cases m with
    | none => exact choice (hl.step (.laterAlternative hm))
    | some m => exact Keeps.bind (h.emit trivial) fun _ _ _ => .pure _

theorem rule {cursor : Cursor} {name : String} (hl : t₀.Leads c s₀ (.rule (room + 1) cursor name) s) :
    Keeps c I ((level (room + 1)).match? cursor name) s := by
  intro hs
  show I ((level room).matchRule cursor name c s).2
  rcases hm : (level room).matchRule cursor name c s with ⟨r, s'⟩
  cases Level.ruleAttempt (level room) c cursor name hm with
  | undefined => exact hs
  | again => exact hs
  | tooDeep => exact hs
  | entered has ha hd hr =>
    have hen : RuleCall.Entered c ⟨⟨cursor, name⟩, s⟩ _ := ⟨has, ha, hd⟩
    exact h.run _ ((h.choice hb (hl.step (.enter hen))).of_run hr (h.run _ hs))

theorem replace {textEnd : Nat} {k : Construct} (hl : t₀.Leads c s₀ (.replace room textEnd k) s) :
    Keeps c I (Matching.replace (level room) textEnd k) s := by
  have hhooked : ∀ (vs : List Value) (s : State), Keeps c I (Matching.hooked textEnd vs) s := by
    intro vs
    induction vs with
    | nil => exact fun _ => .pure _
    | cons v vs ih =>
      intro s
      unfold Matching.hooked
      split
      · exact (ih s).bind fun _ _ _ => .pure _
      · exact .fail _
  rw [Matching.replace_eq]
  show Keeps c I (Matching.replaceBy (level room) textEnd k c.hook) s
  cases hh : c.hook with
  | none => exact .pure _
  | some hook =>
    exact (h.script hb (hl.step (.hook hh))).bind fun _ _ _ =>
      (Keeps.access _).bind fun _ _ _ => hhooked _ _

end

/-! ## Runs -/

section

variable (h : Invariant c t₀ s₀ I)
  (hr : ∀ {cursor : Cursor} {name : String} {s : State},
    t₀.Leads c s₀ (.rule room cursor name) s → Keeps c I ((level room).match? cursor name) s)
  (hb : ∀ below, room = below + 1 → Served c t₀ s₀ I below)
include h hr

theorem stream {cursor : Cursor} {name : String} (hl : t₀.Leads c s₀ (.stream room cursor name) s) :
    Keeps c I (Matching.parseStream (level room).match? cursor name) s :=
  h.withMatcher (hr (hl.step .once)).guarded

include hb

theorem turn {r : Matching.Rounds} {fuel : Nat} {cursor : Cursor} {found : Array Construct}
    (hw : Matching.Ways c room r) (hl : t₀.Leads c s₀ (.rounds room r (fuel + 1) cursor found) s) :
    Keeps c I (Matching.turn (level room).match? r cursor) s := by
  cases hp : cursor.peek with
  | error e =>
    rw [Matching.turn, hp]
    exact .fail _
  | ok l =>
    cases l with
    | none =>
      unfold Keeps
      rw [Matching.turn_done hp]
      exact id
    | some l =>
      by_cases hc : r.skipComments = true ∧ l.kind = .comment
      · unfold Keeps
        rw [Matching.turn_comment hp hc]
        exact id
      · unfold Keeps
        rw [Matching.turn_lexeme hp hc]
        refine (hr (hl.step (.round hp hc))).guarded.bind fun m s₁ hm => ?_
        unfold Matching.Rounds.settle
        split
        · exact .fail _
        · rename_i m
          split
          · exact .fail _
          · rename_i hi
            have hcontribution : Keeps c I (r.contribution m) s₁ := by
              unfold Matching.Rounds.contribution
              split
              · exact Keeps.bind (h.emit trivial) fun _ _ _ => .pure _
              · rename_i k hk
                cases hw with
                | span => exact .pure _
                | whole below => exact h.replace (hb below rfl) (hl.step (.accept hp hc hm hi hk))
            refine hcontribution.bind fun more s₂ _ => ?_
            split
            · exact Keeps.bind (h.emit trivial) fun _ _ _ => .pure _
            · exact .pure _

theorem rounds {r : Matching.Rounds} (hw : Matching.Ways c room r) :
    ∀ {fuel : Nat} {cursor : Cursor} {found : Array Construct} {s : State},
      t₀.Leads c s₀ (.rounds room r fuel cursor found) s →
        Keeps c I (Matching.rounds (level room).match? r fuel cursor found) s
  | 0, _, _, _, _ => .pure _
  | fuel + 1, cursor, found, s, hl => by
    unfold Keeps
    rw [Matching.rounds_succ]
    refine (h.turn hr hb hw hl).bind fun out s₁ ht => ?_
    obtain _ | ⟨more, d⟩ := out
    · exact .pure _
    · exact rounds hw (hl.step (.laterRound ht))

theorem repeatedly {r : Matching.Rounds} (hw : Matching.Ways c room r) {cursor : Cursor}
    (hl : t₀.Leads c s₀ (.rounds room r cursor.unread cursor #[]) s.atWork) :
    Keeps c I (Matching.repeatedly (level room).match? r cursor) s :=
  h.withMatcher ((h.rounds hr hb hw hl).bind fun _ _ _ => .pure _)

end

section

variable (h : Invariant c t₀ s₀ I)
include h

theorem above (hb : Served c t₀ s₀ I room) : Served c t₀ s₀ I (room + 1) where
  rule := h.rule hb
  expand {e s} hl := by
    refine (Keeps.textOf e).bind fun text s₁ ht => ?_
    obtain rfl : s₁ = s := by rw [← Matching.textOf_snd (c := c) e s, ht]
    refine (h.lexSpan _ _ _ _).bind fun cursor s₂ hcut => ?_
    refine (h.stream (h.rule hb) (hl.step (.readSpan ht hcut))).bind fun _ _ _ => ?_
    exact Keeps.bind (h.emit trivial) fun _ _ _ => .pure _
  expandFull {e s} hl := by
    refine (Keeps.textOf e).bind fun text s₁ ht => ?_
    obtain rfl : s₁ = s := by rw [← Matching.textOf_snd (c := c) e s, ht]
    refine (h.lexSpan _ _ _ _).bind fun cursor s₂ hcut => ?_
    have hrounds := h.repeatedly (h.rule hb) (fun _ he => Nat.succ_injective he ▸ hb) (.span _ _)
      (hl.step (.readFullSpan ht hcut))
    exact hrounds.bind fun _ _ _ => Keeps.bind (h.emit trivial) fun _ _ _ => .pure _
  parse {text skip s} hl := by
    intro hs
    show I (Matching.parseAll (level room).matchRule (level room) text skip c s).2
    rw [Matching.parseAll_run]
    split
    · exact h.report trivial hs
    · rename_i hk
      refine h.parse hl hk hs (Keeps.bind (h.lex _ _ _ _) (fun cursor s' hcut => ?_) (h.begun hl hs))
      have hrounds := hl.step (.readText hk hcut)
      exact h.repeatedly (h.rule hb) (fun _ he => Nat.succ_injective he ▸ hb) (.whole _ _ _)
        (by rwa [atWork_of_lex hcut])

theorem served : ∀ room, Served c t₀ s₀ I room
  | 0 => ⟨fun _ => .fail _, fun _ => .fail _, fun _ => .fail _, fun _ => .fail _⟩
  | room + 1 => h.above (served room)

/-- **What is true of the state where a task begins in the course of the call is true where it ends.** -/
theorem task {t : Task} (hl : t₀.Leads c s₀ t s) (ht : t.Usual c) (hs : I s) : I (t.run c s).2 := by
  have hb := h.served
  cases t with
  | parse => exact (hb _).parse hl hs
  | expand => exact (hb _).expand hl hs
  | expandFull => exact (hb _).expandFull hl hs
  | stream => exact h.stream (hb _).rule hl hs
  | rounds => exact h.rounds (hb _).rule (fun below _ => hb below) ht hl hs
  | replace => exact h.replace (hb _) hl hs
  | rule => exact (hb _).rule hl hs
  | choice => exact h.choice (hb _) hl hs
  | items => exact items (hb _) hl hs
  | build => exact h.build (hb _) hl hs
  | script => exact h.script (hb _) hl hs

theorem begins {t t' : Task} {s' : State} (hl : t₀.Leads c s₀ t s) (ht : t.Usual c)
    (hbegins : t.Begins c s t' s') (hs : I s) : I s' := by
  have hb := h.served
  cases hbegins with
  | readText _ hcut => exact (h.lex _ _ _ _).of_run hcut (h.begun hl hs)
  | readSpan _ hcut => exact (h.lexSpan _ _ _ _).of_run hcut hs
  | readFullSpan _ hcut => exact h.atWork ((h.lexSpan _ _ _ _).of_run hcut hs)
  | once => exact h.atWork hs
  | round => exact hs
  | accept hp hc hm => exact ((hb _).rule (hl.step (.round hp hc))).guarded.of_run hm hs
  | laterRound hturn => exact (h.turn (hb _).rule (fun below _ => hb below) ht hl).of_run hturn hs
  | hook => exact hs
  | enter => exact h.run _ hs
  | «match» => exact h.run _ hs
  | matched hc ho hk => exact (items (hb _) (hl.step (.match hc ho))).of_run hk (h.run _ hs)
  | laterAlternative ha => exact (h.alternative (hb _) hl).of_run ha hs
  | item => exact hs
  | laterItem hi => exact (item (hb _) hl).of_run hi hs
  | action => exact hs
  | askExpand => exact hs
  | askExpandFull => exact hs
  | askParse => exact hs
  | afterExpand ha => exact ((hb _).expand (hl.step .askExpand)).of_run ha hs
  | afterExpandFull ha => exact ((hb _).expandFull (hl.step .askExpandFull)).of_run ha hs
  | afterParse ha => exact ((hb _).parse (hl.step .askParse)).of_run ha hs
  | afterInvalidate => exact h.forget hs

/-- **What is true of the state where the call begins is true wherever a task begins in its course.** -/
theorem leads {t : Task} (ht : t₀.Usual c) (hl : t₀.Leads c s₀ t s) (hs : I s₀) : I s := by
  induction hl with
  | refl => exact hs
  | step hl hb ih => exact h.begins hl (hl.usual ht) hb ih

end

end Invariant

end Engine

/-! ## Tasks inside which nothing is parsed -/

namespace Task

variable {c : Settings} {s s' : State}

/-- The actions of the alternatives at hand, and the script at hand, only look into spans; the task is no
parse. -/
def Inward : Task → Prop
  | parse .. => False
  | choice _ _ _ _ as => ∀ a ∈ as, a.Inward
  | build _ _ a _ => a.Inward
  | script _ steps => steps.Inward
  | _ => True

theorem Begins.inward (hc : c.Inward) {t t' : Task} (h : t.Begins c s t' s') (ht : t.Inward) :
    t'.Inward := by
  cases h with
  | hook hh => exact hc.hook _ hh _
  | enter he =>
    obtain ⟨r, hr, -, rfl⟩ := Grammar.alternatives?_eq_some he.defined
    exact hc.actions r hr
  | matched => exact ht _ List.mem_cons_self
  | laterAlternative => exact fun a ha => ht a (List.mem_cons_of_mem _ ha)
  | action ha => exact ht _ _ ha _ _ _
  | askParse => cases ht
  | afterExpand => cases ht with | expand rest => exact rest _
  | afterExpandFull => cases ht with | expandFull rest => exact rest _
  | afterParse => cases ht
  | afterInvalidate => cases ht
  | _ => exact trivial

theorem Leads.inward (hc : c.Inward) {t t' : Task} (h : t.Leads c s t' s') (ht : t.Inward) :
    t'.Inward := by
  induction h with
  | refl => exact ht
  | step _ hb ih => exact hb.inward hc ih

/-- No parse is begun inside the task. -/
def Lone (c : Settings) (t : Task) (s : State) : Prop :=
  ∀ t₁ s₁, t.Begins c s t₁ s₁ → ∀ room text skip s', ¬ t₁.Leads c s₁ (parse room text skip) s'

/-- If actions only look into spans, no parse is begun inside another. -/
theorem lone_of_inward (hc : c.Inward) (room : Nat) (text : Text) (skip : Option Bool) :
    (parse room text skip).Lone c s := by
  intro t₁ s₁ hb _ _ _ _ hl
  cases hb with
  | readText => exact hl.inward hc trivial

/-- Inside such a task no parse begins or ends, so that nothing is to be known of these. -/
theorem Lone.invariant {t t₁ : Task} {s₁ : State} {I : State → Prop} (h : t.Lone c s)
    (hb : t.Begins c s t₁ s₁) (run : ∀ (s : State) (r : Run), I s → I { s with run := r })
    (report : ∀ (s : State) (e : Event), e.Passing → I s → I { s with events := e :: s.events })
    (forget : ∀ s : State, I s → I s.forgotten) : Engine.Invariant c t₁ s₁ I where
  run r := run _ r
  report := report _ _
  forget := forget _
  begun hl := (h _ _ hb _ _ _ _ hl).elim
  parse hl := (h _ _ hb _ _ _ _ hl).elim

/-- Behind a parse that fails nothing is remembered, if no other was begun inside it. -/
theorem cache_of_parse {room : Nat} {text : Text} {skip : Option Bool} {e : Failure}
    (h : (parse (room + 1) text skip).Lone c s)
    (he : ((parse (room + 1) text skip).run c s).1 = .error e) :
    ((parse (room + 1) text skip).run c s).2.cache = none := by
  change (Matching.parseAll (level room).matchRule (level room) text skip c s).1 = _ at he
  show (Matching.parseAll (level room).matchRule (level room) text skip c s).2.cache = none
  rw [Matching.parseAll_run] at he ⊢
  cases hk : s.cache.filter (·.isValidFor text (skip.getD c.skipComments)) with
  | some k =>
    rw [hk] at he
    cases he
  | none =>
    rw [hk] at he
    simp only [Matching.parseText_run] at he ⊢
    have hend : (Matching.inProgress (level room).matchRule (level room) c text (skip.getD c.skipComments) c
        (Matching.begun text s)).2.cache = none := by
      rcases hcut : Engine.lex text 0 none c.depth c (Matching.begun text s) with ⟨e | cursor, s₁⟩
      · rw [Matching.inProgress, bind_run_error hcut]
        exact congrArg State.cache (eq_of_lex hcut)
      · have hinvariant : Engine.Invariant c _ s₁ (·.cache = none) :=
          h.invariant (.readText hk hcut) (fun _ _ => id) (fun _ _ _ => id) fun _ _ => rfl
        have hb := hinvariant.served room
        rw [Matching.inProgress, bind_run_ok hcut]
        exact hinvariant.repeatedly (hinvariant.rule hb) (fun _ he => Nat.succ_injective he ▸ hb)
          (.whole _ _ _) (by rw [atWork_of_lex hcut]; exact .refl) (congrArg State.cache (eq_of_lex hcut))
    split at he
    · cases he
    · rename_i hrun
      rw [hrun] at hend
      exact hend

end Task

end Outline
