import Outline.Proofs.Lexeme.Abreast
import Outline.Proofs.Matching.Derivation

/-!
# Matching does not see comments

A grammar that does not speak of comments is matched in two rows that differ in comments alone. Both
matches find the same, or fail for the same reason, and their readers stay abreast: also the rules in
progress are the same, and so is the number of alternatives that were tried.

* `Grammar.Uncommented`: no terminal is a comment;
* `Entry.Abreast`, `State.Abreast`, `Match.Abreast`, `Collected.Abreast`: what corresponds in two runs;
* `Engine.EndAlike`, `Engine.EndEqual`, `Engine.Agrees`: two runs that end alike;
* `Engine.EndAlike.bind`, `Engine.Agrees.bind`: how they are put together;
* `Level.Abreast`, **`Level.abreast`**: the matches of every level agree.
-/

namespace Outline

open Engine

/-- No terminal is a comment. -/
def Grammar.Uncommented (g : Grammar) : Prop :=
  ∀ r ∈ g.rules, ∀ a ∈ r.alternatives, ∀ t, .terminal t ∈ a.items → t.kind ≠ .comment

/-! ## What corresponds in two runs -/

variable {a b : Cursor}

/-- A rule was entered by two readers that stood abreast. -/
def Entry.Abreast (a b : Cursor) (e e' : Entry) : Prop :=
  ∃ name n c d, Cursor.Abreast a b n c d ∧ e = c.entry name ∧ e' = d.entry name

namespace Entry.Abreast

variable {e e' f f' : Entry}

/-- One reader comes back to a rule just where the other does. -/
theorem eq_iff (h : Entry.Abreast a b e e') (h' : Entry.Abreast a b f f') : e = f ↔ e' = f' := by
  obtain ⟨name, m, c, d, hcd, rfl, rfl⟩ := h
  obtain ⟨name', n, c', d', hcd', rfl, rfl⟩ := h'
  have hc := hcd.row.1.symm.trans hcd'.row.1
  have hd := hcd.row.2.symm.trans hcd'.row.2
  have hi := hcd.index_eq_iff hcd'
  simp only [Cursor.entry, Entry.mk.injEq, hc.2.2.1, hc.2.2.2, hd.2.2.1, hd.2.2.2, true_and, hi]

theorem mem_iff (h : Entry.Abreast a b e e') {es es' : List Entry}
    (hs : List.Forall₂ (Entry.Abreast a b) es es') : e ∈ es ↔ e' ∈ es' := by
  induction hs with
  | nil => simp
  | cons hf _ ih => rw [List.mem_cons, List.mem_cons, h.eq_iff hf, ih]

theorem erase (h : Entry.Abreast a b e e') {es es' : List Entry}
    (hs : List.Forall₂ (Entry.Abreast a b) es es') :
    List.Forall₂ (Entry.Abreast a b) (es.erase e) (es'.erase e') := by
  induction hs with
  | nil => exact .nil
  | @cons f f' fs fs' hf hfs ih =>
    by_cases hfe : f = e
    · rw [hfe, (hf.eq_iff h).mp hfe, List.erase_cons_head, List.erase_cons_head]
      exact hfs
    · have hfe' : f' ≠ e' := fun heq => hfe ((hf.eq_iff h).mpr heq)
      rw [List.erase_cons_tail (by simpa using hfe), List.erase_cons_tail (by simpa using hfe')]
      exact .cons hf ih

end Entry.Abreast

/-- The same has been counted, and the rules in progress were entered by readers abreast. The reports may
differ. -/
structure State.Abreast (a b : Cursor) (s s' : State) : Prop where
  steps : s'.run.steps = s.run.steps
  depth : s'.run.depth = s.run.depth
  active : List.Forall₂ (Entry.Abreast a b) s.run.active s'.run.active
  text : s'.text = s.text
  cache : s'.cache = s.cache

/-- Where no rule is in progress, any two readers will do. -/
theorem State.Abreast.restart {s s' : State} (h : s.Abreast a b s') (hs : s.run.active = [])
    (c d : Cursor) : s.Abreast c d s' := by
  have hactive := h.active
  rw [hs] at hactive
  refine ⟨h.steps, h.depth, ?_, h.text, h.cache⟩
  rw [hs]
  generalize s'.run.active = es at hactive
  cases hactive
  exact .nil

theorem State.Abreast.of_idle {s s' : State} (hs : s.run.active = []) (hr : s'.run = s.run)
    (ht : s'.text = s.text) (hc : s'.cache = s.cache) : s.Abreast a b s' := by
  refine ⟨by rw [hr], by rw [hr], ?_, ht, hc⟩
  rw [hr, hs]
  exact .nil

/-- Nothing was found twice, or the same by readers that stand abreast. -/
inductive Match.Abreast (a b : Cursor) : Option Match → Option Match → Prop where
  | none : Abreast a b none none
  | some {n : Nat} {c d : Cursor} (h : Cursor.Abreast a b n c d) (found : Option Construct) :
      Abreast a b (some ⟨c, found⟩) (some ⟨d, found⟩)

/-- The same was collected by readers that stand abreast. -/
structure Collected.Abreast (a b : Cursor) (q q' : Collected) : Prop where
  values : q'.values = q.values
  start : q'.start = q.start
  stop : q'.stop = q.stop
  cursor : ∃ n, Cursor.Abreast a b n q.cursor q'.cursor

/-! ## Runs that end alike -/

namespace Engine

variable {α β γ δ : Type} {c c' : Settings} {Q : α → β → Prop} {P : γ → δ → Prop}

/-- Two runs end alike: they give what `Q` holds of, or fail for the same reason. -/
inductive EndAlike (a b : Cursor) (Q : α → β → Prop) :
    Except Failure α × State → Except Failure β × State → Prop where
  | ok {x : α} {y : β} {s s' : State} (h : Q x y) (hs : s.Abreast a b s') :
      EndAlike a b Q (.ok x, s) (.ok y, s')
  | error {s s' : State} (e : Failure) (hs : s.Abreast a b s') :
      EndAlike a b Q (.error e, s) (.error e, s')

/-- Two runs end with equal results or failures, whichever readers they leave behind. -/
def EndEqual (r r' : Except Failure α × State) : Prop := ∃ a b, EndAlike a b (· = ·) r r'

/-- What holds of two failures for one reason, and of what the steps behind two results come to, holds
of the steps together. -/
theorem EndAlike.bind {R : Except Failure γ × State → Except Failure δ × State → Prop} {m : Engine α}
    {m' : Engine β} {f : α → Engine γ} {f' : β → Engine δ} {s s' : State}
    (h : EndAlike a b Q (m c s) (m' c' s'))
    (he : ∀ e s₁ s₁', s₁.Abreast a b s₁' → R (.error e, s₁) (.error e, s₁'))
    (hf : ∀ x y s₁ s₁', m c s = (.ok x, s₁) → Q x y → s₁.Abreast a b s₁' →
      R (f x c s₁) (f' y c' s₁')) : R ((m >>= f) c s) ((m' >>= f') c' s') := by
  rcases hr : m c s with ⟨e | x, s₁⟩
  · rcases hr' : m' c' s' with ⟨e' | y, s₁'⟩
    · rw [hr, hr'] at h
      rw [bind_run_error hr, bind_run_error hr']
      cases h with
      | error _ hs => exact he e s₁ s₁' hs
    · rw [hr, hr'] at h
      cases h
  · rcases hr' : m' c' s' with ⟨e' | y, s₁'⟩
    · rw [hr, hr'] at h
      cases h
    · rw [hr, hr'] at h
      rw [bind_run_ok hr, bind_run_ok hr']
      cases h with
      | ok hxy hs => exact hf x y s₁ s₁' hr hxy hs

/-- Run from states that correspond, the two steps end alike. -/
def Agrees (c c' : Settings) (a b : Cursor) (Q : α → β → Prop) (m : Engine α) (m' : Engine β) : Prop :=
  ∀ s s', s.Abreast a b s' → EndAlike a b Q (m c s) (m' c' s')

namespace Agrees

theorem pure {x : α} {y : β} (h : Q x y) :
    Agrees c c' a b Q (Pure.pure x : Engine α) (Pure.pure y : Engine β) := fun _ _ hs => .ok h hs

theorem fail (e : Failure) : Agrees c c' a b Q (Engine.fail e : Engine α) (Engine.fail e : Engine β) :=
  fun _ _ hs => .error e hs

theorem emit (e e' : Event) : Agrees c c' a b (fun _ _ => True) (Engine.emit e) (Engine.emit e') :=
  fun _ _ hs => .ok trivial ⟨hs.steps, hs.depth, hs.active, hs.text, hs.cache⟩

theorem ofExcept (r : Except Failure α) :
    Agrees c c' a b (· = ·) (Engine.ofExcept r) (Engine.ofExcept r) := by
  rcases r with e | x
  · exact fail e
  · exact pure rfl

theorem access (r : Except AccessFault α) :
    Agrees c c' a b (· = ·) (Engine.access r) (Engine.access r) := ofExcept _

theorem bind {m : Engine α} {m' : Engine β} {f : α → Engine γ} {f' : β → Engine δ}
    (hm : Agrees c c' a b Q m m') (hf : ∀ x y, Q x y → Agrees c c' a b P (f x) (f' y)) :
    Agrees c c' a b P (m >>= f) (m' >>= f') := by
  intro s s' hs
  refine (hm s s' hs).bind (fun e _ _ => .error e) fun x y s₁ s₁' _ hxy hs₁ => ?_
  exact hf x y hxy s₁ s₁' hs₁

/-- What is asked of the settings is the same, unless it is the lexer. -/
theorem ask {f : Settings → Engine α} {f' : Settings → Engine β}
    (h : Agrees c c' a b Q (f c) (f' c')) :
    Agrees c c' a b Q (Engine.settings >>= f) (Engine.settings >>= f') := h

theorem mono {Q' : α → β → Prop} {m : Engine α} {m' : Engine β} (h : Agrees c c' a b Q m m')
    (hq : ∀ x y, Q x y → Q' x y) : Agrees c c' a b Q' m m' := by
  intro s s' hs
  have h := h s s' hs
  generalize m c s = r at h
  generalize m' c' s' = r' at h
  cases h with
  | ok hxy hs₁ => exact .ok (hq _ _ hxy) hs₁
  | error e hs₁ => exact .error e hs₁

end Agrees

/-- A rule is entered, and left again either way. -/
theorem Agrees.entered {e e' : Entry} (he : Entry.Abreast a b e e') {m : Engine α} {m' : Engine β}
    (h : Agrees c c' a b Q m m') : Agrees c c' a b Q
      (within (fun s => s.enter e) (fun _ s => s.leave e) m)
      (within (fun s => s.enter e') (fun _ s => s.leave e') m') := by
  have hleave : ∀ {s s' : State}, s.Abreast a b s' → (s.leave e).Abreast a b (s'.leave e') :=
    fun hs => ⟨hs.steps, congrArg (· - 1) hs.depth, he.erase hs.active, hs.text, hs.cache⟩
  intro s s' hs
  have henter : (s.enter e).Abreast a b (s'.enter e') :=
    ⟨hs.steps, congrArg (· + 1) hs.depth, .cons he hs.active, hs.text, hs.cache⟩
  have hrun := h _ _ henter
  rw [within_run, within_run]
  generalize m c (s.enter e) = r at hrun
  generalize m' c' (s'.enter e') = r' at hrun
  cases hrun with
  | ok hxy hs₁ => exact .ok hxy (hleave hs₁)
  | error err hs₁ => exact .error err (hleave hs₁)

/-- A script that asks for nothing ends alike in both runs. -/
theorem Agrees.perform {below below' : Level} {script : Script α} (h : script.Direct) :
    Agrees c c' a b (· = ·) (script.perform below) (script.perform below') := by
  cases h with
  | done x => exact pure rfl
  | fail e => exact fail e

end Engine

/-! ## Matches -/

/-- The same settings with another lexer. -/
def Settings.withLexer (c : Settings) (x : Lexer) : Settings := { c with lexer := x }

namespace Level

variable {below : Level} {c : Settings} {x : Lexer}

/-- Matched by readers abreast, a rule comes to the same. -/
def Abreast (below : Level) (c : Settings) (x : Lexer) : Prop :=
  ∀ a b : Cursor, a.Alike b → ∀ n d e, Cursor.Abreast a b n d e → ∀ name,
    Agrees c (c.withLexer x) a b (Match.Abreast a b) (below.match? d name) (below.match? e name)

theorem abreast_matchItem (hb : below.Abreast c x) (hab : a.Alike b) {q q' : Collected}
    (hq : q.Abreast a b q') (i : Item) (hi : ∀ t, i = .terminal t → t.kind ≠ .comment) :
    Agrees c (c.withLexer x) a b (Option.Rel (Collected.Abreast a b))
      (below.matchItem q i) (below.matchItem q' i) := by
  obtain ⟨n, hcursor⟩ := hq.cursor
  cases i with
  | rule name =>
    refine (hb a b hab n _ _ hcursor name).bind fun m m' hm => ?_
    cases hm with
    | none => exact .pure .none
    | @some n' d e h found =>
      rcases found with _ | found
      · exact .pure .none
      · have hidle : d.index = q.cursor.index ↔ e.index = q'.cursor.index := h.index_eq_iff hcursor
        refine .pure (.some ⟨?_, ?_, ?_, n', h⟩)
        · simp only [Collected.addConstruct, hq.values]
        · simp only [Collected.addConstruct, hq.start, hidle]
        · simp only [Collected.addConstruct, hq.stop, hidle]
  | terminal t =>
    have hskip : (t.kind != .comment) = true := by simpa using hi t rfl
    simp only [matchItem, hskip]
    rcases (hcursor.alike hab).reads with ⟨-, ⟨d, hd⟩, e, he⟩ | ⟨l, d, e, hd, he, halike⟩
    · rw [hd, he]
      exact .pure .none
    · have htext : e.text = d.text := halike.text
      rw [Cursor.next_eq_some_iff.mpr hd, Cursor.next_eq_some_iff.mpr he]
      show Agrees c (c.withLexer x) a b _
        (if l.kind = t.kind ∧ t.accepts (l.text d.text) then pure (some (q.addLexeme l d))
          else pure none : Engine (Option Collected))
        (if l.kind = t.kind ∧ t.accepts (l.text e.text) then pure (some (q'.addLexeme l e))
          else pure none : Engine (Option Collected))
      rw [htext]
      split
      · refine .pure (.some ⟨?_, ?_, rfl, n + 1, hcursor.read hd he⟩)
        · simp only [Collected.addLexeme, hq.values, htext]
        · simp only [Collected.addLexeme, hq.start]
      · exact .pure .none

theorem abreast_matchItems (hb : below.Abreast c x) (hab : a.Alike b) (is : List Item)
    (hi : ∀ t, .terminal t ∈ is → t.kind ≠ .comment) : ∀ {q q' : Collected}, q.Abreast a b q' →
      Agrees c (c.withLexer x) a b (Option.Rel (Collected.Abreast a b))
        (below.matchItems is q) (below.matchItems is q') := by
  induction is with
  | nil => exact fun hq => .pure (.some hq)
  | cons i is ih =>
    intro q q' hq
    have hhead : ∀ t, i = .terminal t → t.kind ≠ .comment := by
      rintro t rfl
      exact hi t List.mem_cons_self
    refine (abreast_matchItem hb hab hq i hhead).bind fun m m' hm => ?_
    cases hm with
    | none => exact .pure .none
    | some hq => exact ih (fun t ht => hi t (List.mem_cons_of_mem _ ht)) hq

theorem abreast_runAction {alt : Alternative} (hd : alt.Direct) (values : List Value)
    (start stop : Int) : Agrees c (c.withLexer x) a b (· = ·)
      (below.runAction alt values start stop) (below.runAction alt values start stop) := by
  unfold runAction
  split
  · exact .pure rfl
  · rename_i hn
    exact .perform (hd _ _ hn _ _ _)
  · exact .fail _

theorem abreast_build (hab : a.Alike b) (name : String) {alt : Alternative} (hd : alt.Direct)
    (values : List Value) (start stop : Int) {n : Nat} {d e : Cursor} (h : Cursor.Abreast a b n d e) :
    Agrees c (c.withLexer x) a b (fun m m' => Match.Abreast a b (some m) (some m'))
      (below.build name alt values start stop d) (below.build name alt values start stop e) := by
  refine (abreast_runAction hd values start stop).bind fun v v' hv => ?_
  subst hv
  have hlen : e.text.length = d.text.length := by rw [(h.alike hab).text]
  split
  · exact .pure (.some h none)
  · rw [hlen]
    split
    · exact .pure (.some h _)
    · exact .fail _

theorem abreast_countStep : Agrees c (c.withLexer x) a b (fun _ _ => True) countStep countStep := by
  intro s s' hs
  have htally : s.tally.Abreast a b s'.tally :=
    ⟨congrArg (· + 1) hs.steps, hs.depth, hs.active, hs.text, hs.cache⟩
  rw [countStep_run, countStep_run, hs.steps]
  show EndAlike a b _ (if c.limits.maxSteps.any _ then _ else _, _)
    (if c.limits.maxSteps.any _ then _ else _, _)
  split
  · exact .error _ htally
  · exact .ok trivial htally

theorem abreast_tryAlternative (hb : below.Abreast c x) (hab : a.Alike b) (name : String)
    {alt : Alternative} (hd : alt.Direct) (hi : ∀ t, .terminal t ∈ alt.items → t.kind ≠ .comment)
    {n : Nat} {d e : Cursor} (h : Cursor.Abreast a b n d e) :
    Agrees c (c.withLexer x) a b (Match.Abreast a b)
      (below.tryAlternative d name alt) (below.tryAlternative e name alt) := by
  refine abreast_countStep.bind fun _ _ _ => ?_
  obtain ⟨offset, ho, ho'⟩ := (h.alike hab).offset
  rw [ho, ho']
  refine (Agrees.access (.ok offset)).bind fun offset offset' heq => ?_
  subst heq
  split
  · exact (abreast_build hab name hd _ _ _ h).bind fun m m' hm => .pure hm
  · have hnew : Collected.Abreast a b { stop := offset, cursor := d } { stop := offset, cursor := e } :=
      ⟨rfl, rfl, rfl, n, h⟩
    refine (abreast_matchItems hb hab alt.items hi hnew).bind fun q q' hq => ?_
    cases hq with
    | none => exact .pure .none
    | @some q q' hq =>
      obtain ⟨n', hcursor⟩ := hq.cursor
      show Agrees c (c.withLexer x) a b _
        (do return some (← below.build name alt q.values.toList (q.start.getD q.stop) q.stop q.cursor))
        (do return some (← below.build name alt q'.values.toList (q'.start.getD q'.stop) q'.stop
          q'.cursor))
      rw [hq.values, hq.start, hq.stop]
      exact (abreast_build hab name hd _ _ _ hcursor).bind fun m m' hm => .pure hm

theorem abreast_tryAlternatives (hb : below.Abreast c x) (hab : a.Alike b) (name : String)
    (alts : List Alternative) (hd : ∀ alt ∈ alts, alt.Direct)
    (hi : ∀ alt ∈ alts, ∀ t, .terminal t ∈ alt.items → t.kind ≠ .comment) {n : Nat} {d e : Cursor}
    (h : Cursor.Abreast a b n d e) : ∀ number, Agrees c (c.withLexer x) a b (Match.Abreast a b)
      (below.tryAlternatives d name number alts) (below.tryAlternatives e name number alts) := by
  induction alts with
  | nil => exact fun _ => .pure .none
  | cons alt alts ih =>
    intro number
    have hhead := abreast_tryAlternative hb hab name (hd alt List.mem_cons_self)
      (hi alt List.mem_cons_self) h
    refine hhead.bind fun m m' hm => ?_
    cases hm with
    | none =>
      exact ih (fun alt h => hd alt (List.mem_cons_of_mem _ h))
        (fun alt h => hi alt (List.mem_cons_of_mem _ h)) (number + 1)
    | some h found => exact (Agrees.emit _ _).bind fun _ _ _ => .pure (.some h found)

theorem abreast_above (hg : c.grammar.Uncommented)
    (hd : ∀ r ∈ c.grammar.rules, ∀ alt ∈ r.alternatives, alt.Direct) (hb : below.Abreast c x) :
    below.above.Abreast c x := by
  intro a b hab n d e h name
  show Agrees c (c.withLexer x) a b _ (below.matchRule d name) (below.matchRule e name)
  refine Agrees.ask ?_
  show Agrees c (c.withLexer x) a b _ (ofExcept (c.grammar.alternatives name) >>= _)
    (ofExcept (c.grammar.alternatives name) >>= _)
  rcases halts : c.grammar.alternatives name with err | alts
  · exact fun _ _ hs => .error err hs
  · have hrule : ∃ r ∈ c.grammar.rules, r.alternatives = alts := by
      unfold Grammar.alternatives at halts
      split at halts
      · rename_i alts' hsome
        cases halts
        obtain ⟨r, hr, -, halts⟩ := Grammar.alternatives?_eq_some hsome
        exact ⟨r, hr, halts⟩
      · cases halts
    obtain ⟨r, hr, rfl⟩ := hrule
    have hentry : Entry.Abreast a b (d.entry name) (e.entry name) := ⟨name, n, d, e, h, rfl, rfl⟩
    intro s s' hs
    have hmem : s.run.active.contains (d.entry name) = s'.run.active.contains (e.entry name) := by
      rw [Bool.eq_iff_iff, List.contains_iff_mem, List.contains_iff_mem]
      exact hentry.mem_iff hs.active
    show EndAlike a b _ (below.enterAt c.limits.maxDepth d name r.alternatives s c s)
      (below.enterAt c.limits.maxDepth e name r.alternatives s' (c.withLexer x) s')
    unfold enterAt
    rw [hmem, hs.depth]
    split
    · exact .error _ hs
    · split
      · obtain ⟨offset, ho, ho'⟩ := (h.alike hab).offset
        rw [ho, ho']
        exact .error _ hs
      · have htry := abreast_tryAlternatives hb hab name r.alternatives (hd r hr) (hg r hr) h 0
        exact htry.entered hentry s s' hs

/-- **Matching agrees in rows that differ in comments alone, whatever the limits are.** -/
theorem abreast (hg : c.grammar.Uncommented)
    (hd : ∀ r ∈ c.grammar.rules, ∀ alt ∈ r.alternatives, alt.Direct) :
    ∀ room, (level room).Abreast c x
  | 0 => fun _ _ _ _ _ _ _ _ => .fail _
  | room + 1 => abreast_above hg hd (abreast hg hd room)

end Level

end Outline
