import Outline.Proofs.Lexeme.Shift

/-!
# Matching further on in a text

A row of lexemes is matched like the same row `d` characters further on in a longer text: the matches are
the same but for the offsets in them, and so are the reasons why there is none. The rules in progress are
known by where they were entered, so they move along; what is counted stays.

* `Failure.shift`, `Entry.shift`, `Run.shift`, `Match.shift`, `Collected.shift`: the same things further on;
* `Alternative.defaultValue_shift`: what an alternative without an action builds;
* `Engine.EndShifted`, `Engine.Shifts`: two runs that end alike but for the offsets;
* `Engine.EndShifted.bind`, `Engine.Shifts.bind`: how they are put together;
* `Level.Shifts`, **`Level.shifts`**: the matches of every level.

Whether a value is a construct depends on the bounds of the text, and these do not move along. Where the
lexemes are in order there is no complaint about a value, by `Level.clean`, so that nothing is said here
about a run that ends with one.
-/

namespace Outline

open Engine

/-! ## The same things further on -/

/-- The same reason `d` characters further on, in the text `T`. -/
def Failure.shift (T : Text) (d : Nat) : Failure → Failure
  | .lex e => .lex (e.shift T d)
  | .parse _ offset rule fault => .parse T (offset + d) rule fault
  | .nestingLimit rule limit offset => .nestingLimit rule limit (offset + d)
  | e => e

/-- A rule that was entered `d` characters further on, at the same place of its row. -/
def Entry.shift (d : Nat) (e : Entry) : Entry := ⟨e.rule, e.start + d, e.stop + d, e.index⟩

/-- The same work, with the rules in progress `d` characters further on. -/
def Run.shift (d : Nat) (r : Run) : Run := { r with active := r.active.map (·.shift d) }

/-- A match of the row further on. -/
def Match.shift (T : Text) (d : Nat) (m : Match) : Match :=
  ⟨m.cursor.shift T d, m.construct.map (·.shift d)⟩

/-- What the items have found, further on. -/
def Collected.shift (T : Text) (d : Nat) (k : Collected) : Collected :=
  ⟨k.values.map (·.shift d), k.start.map (· + (d : Int)), k.stop + d, k.cursor.shift T d⟩

namespace Collected

variable (T : Text) (d : Nat) (k : Collected)

theorem addConstruct_shift (found : Construct) (e : Cursor) :
    (k.shift T d).addConstruct (found.shift d) (e.shift T d) = (k.addConstruct found e).shift T d := by
  have hvalues : (k.values.map (·.shift d)).push (.tuple (found.fields.map (·.shift d))) =
      (k.values.push (.tuple found.fields)).map (·.shift d) := by
    rw [Array.map_push, Value.shift_tuple]
  by_cases hidle : e.index = k.cursor.index
  · have hidle' : (e.shift T d).index = (k.shift T d).cursor.index := hidle
    simp only [addConstruct, if_pos hidle, if_pos hidle']
    simp only [shift, Construct.shift, hvalues]
  · have hidle' : ¬ (e.shift T d).index = (k.shift T d).cursor.index := hidle
    simp only [addConstruct, if_neg hidle, if_neg hidle']
    simp only [shift, Construct.shift, hvalues, Int.natCast_add]
    cases k.start <;> rfl

variable {T d k} in
theorem addLexeme_shift {l : Lexeme} {e : Cursor} (h : (l.shift d).value T = (l.value e.text).shift d) :
    (k.shift T d).addLexeme (l.shift d) (e.shift T d) = (k.addLexeme l e).shift T d := by
  simp only [addLexeme, shift, Cursor.text_shift, h, Array.map_push]
  cases k.start <;> rfl

end Collected

theorem Entry.shift_injective (d : Nat) : Function.Injective (Entry.shift d) := by
  rintro ⟨r, s, e, i⟩ ⟨r', s', e', i'⟩ h
  simp only [shift, Entry.mk.injEq, Nat.add_right_cancel_iff] at h ⊢
  exact h

namespace Run

variable (d : Nat) (e : Entry) (r : Run)

theorem enter_shift : (r.shift d).enter (e.shift d) = (r.enter e).shift d := rfl

theorem leave_shift : (r.shift d).leave (e.shift d) = (r.leave e).shift d := by
  simp only [leave, shift, Run.mk.injEq, true_and]
  exact (List.map_erase (Entry.shift_injective d) r.active).symm

theorem mem_active_shift : e.shift d ∈ (r.shift d).active ↔ e ∈ r.active :=
  List.mem_map_of_injective (Entry.shift_injective d)

end Run

/-- What is built without an action from values further on is built further on. -/
theorem Alternative.defaultValue_shift (d : Nat) (a : Alternative) (values : List Value)
    (start stop : Int) :
    a.defaultValue (values.map (·.shift d)) (start + d) (stop + d) =
      (a.defaultValue values start stop).shift d := by
  unfold defaultValue
  cases a.isPassThrough with
  | false => simp [Value.shift, Value.shiftAll_eq_map]
  | true =>
    rcases values with _ | ⟨v, _ | ⟨w, vs⟩⟩
    · simp [Value.shift, Value.shiftAll_eq_map]
    · cases v <;> simp [Value.shift, Value.shiftAll_eq_map]
    · simp [Value.shift]

/-- A match was found by a reader in order, and found again further on. -/
structure Match.Further (T : Text) (d : Nat) (m m' : Match) : Prop where
  held : m.cursor.Held T d
  eq : m' = m.shift T d

/-- The same was collected by a reader in order, and again further on. -/
structure Collected.Further (T : Text) (d : Nat) (k k' : Collected) : Prop where
  held : k.cursor.Held T d
  eq : k' = k.shift T d

/-! ## Runs that end alike -/

namespace Engine

variable {α β γ δ : Type} {c c' : Settings} {T : Text} {d : Nat} {Q : α → β → Prop} {P : γ → δ → Prop}

/-- Two runs end alike: they give what `Q` holds of, or fail for the same reason further on. -/
inductive EndShifted (T : Text) (d : Nat) (Q : α → β → Prop) :
    Except Failure α × State → Except Failure β × State → Prop where
  | ok {x : α} {y : β} {s s' : State} (h : Q x y) (hs : s'.run = s.run.shift d) :
      EndShifted T d Q (.ok x, s) (.ok y, s')
  | error {s s' : State} (e : Failure) (hs : s'.run = s.run.shift d) :
      EndShifted T d Q (.error e, s) (.error (e.shift T d), s')

theorem EndShifted.bind {m : Engine α} {m' : Engine β} {f : α → Engine γ} {f' : β → Engine δ}
    {s s' : State} (h : EndShifted T d Q (m c s) (m' c' s'))
    (hf : ∀ x y s₁ s₁', m c s = (.ok x, s₁) → Q x y → s₁'.run = s₁.run.shift d →
      EndShifted T d P (f x c s₁) (f' y c' s₁')) :
    EndShifted T d P ((m >>= f) c s) ((m' >>= f') c' s') := by
  generalize hr : m c s = r at h
  generalize hr' : m' c' s' = r' at h
  cases h with
  | ok hxy hs =>
    rw [bind_run_ok hr, bind_run_ok hr']
    exact hf _ _ _ _ hr hxy hs
  | error e hs =>
    rw [bind_run_error hr, bind_run_error hr']
    exact .error e hs

/-- The run does not end with a complaint about a value. -/
def Clean (r : Except Failure α × State) : Prop :=
  ∀ source v defect, r.1 ≠ .error (.malformed source v defect)

/-- Run from states that correspond, the second step ends like the first, further on. -/
def Shifts (c c' : Settings) (T : Text) (d : Nat) (Q : α → β → Prop) (m : Engine α) (m' : Engine β) :
    Prop :=
  ∀ s s' : State, s'.run = s.run.shift d → Clean (m c s) → EndShifted T d Q (m c s) (m' c' s')

namespace Shifts

theorem pure {x : α} {y : β} (h : Q x y) :
    Shifts c c' T d Q (Pure.pure x : Engine α) (Pure.pure y : Engine β) := fun _ _ hs _ => .ok h hs

theorem fail (e : Failure) :
    Shifts c c' T d Q (Engine.fail e : Engine α) (Engine.fail (e.shift T d) : Engine β) :=
  fun _ _ hs _ => .error e hs

theorem emit (e e' : Event) :
    Shifts c c' T d (fun _ _ => True) (Engine.emit e) (Engine.emit e') := fun _ _ hs _ => .ok trivial hs

theorem access (move : α → β) (r : Except AccessFault α) :
    Shifts c c' T d (fun x y => y = move x) (Engine.access r) (Engine.access (r.map move)) := by
  cases r with
  | error e => exact fail (.access e)
  | ok x => exact pure rfl

theorem bind {m : Engine α} {m' : Engine β} {f : α → Engine γ} {f' : β → Engine δ}
    (hm : Shifts c c' T d Q m m') (hf : ∀ x y, Q x y → Shifts c c' T d P (f x) (f' y)) :
    Shifts c c' T d P (m >>= f) (m' >>= f') := by
  intro s s' hs hclean
  have hfirst : Clean (m c s) := by
    intro source v defect h
    refine hclean source v defect ?_
    rw [bind_run_error (Prod.ext h rfl)]
  refine (hm s s' hs hfirst).bind fun x y s₁ s₁' hr hxy hs₁ => ?_
  rw [bind_run_ok hr] at hclean
  exact hf x y hxy s₁ s₁' hs₁ hclean

/-- What is done with the settings is done with either. -/
theorem ask {f : Settings → Engine α} {f' : Settings → Engine β} (h : Shifts c c' T d Q (f c) (f' c')) :
    Shifts c c' T d Q (Engine.settings >>= f) (Engine.settings >>= f') := h

/-- What is done with the state is done with any two that correspond. -/
theorem look {f : State → Engine α} {f' : State → Engine β}
    (h : ∀ s s' : State, s'.run = s.run.shift d → Shifts c c' T d Q (f s) (f' s')) :
    Shifts c c' T d Q (Engine.state >>= f) (Engine.state >>= f') := fun s s' hs => h s s' hs s s' hs

/-- A rule is entered, and left again either way. -/
theorem entered (e : Entry) {m : Engine α} {m' : Engine β} (h : Shifts c c' T d Q m m') :
    Shifts c c' T d Q
      (within (fun s => s.enter e) (fun _ s => s.leave e) m)
      (within (fun s => s.enter (e.shift d)) (fun _ s => s.leave (e.shift d)) m') := by
  intro s s' hs hclean
  have henter : (s'.enter (e.shift d)).run = (s.enter e).run.shift d := by
    simp only [State.enter, hs, Run.enter_shift]
  have hleave : ∀ {s s' : State}, s'.run = s.run.shift d →
      (s'.leave (e.shift d)).run = (s.leave e).run.shift d := fun hs => by
    simp only [State.leave, hs, Run.leave_shift]
  have hrun := h _ _ henter hclean
  rw [within_run, within_run]
  generalize m c (s.enter e) = r at hrun
  generalize m' c' (s'.enter (e.shift d)) = r' at hrun
  cases hrun with
  | ok hxy hs₁ => exact .ok hxy (hleave hs₁)
  | error err hs₁ => exact .error err (hleave hs₁)

/-- An alternative is counted in both runs. -/
theorem countStep (hl : c'.limits = c.limits) :
    Shifts c c' T d (fun _ _ => True) Outline.countStep Outline.countStep := by
  intro s s' hs _
  have htally : s'.tally.run = s.tally.run.shift d := by simp only [State.tally, hs, Run.shift]
  have hsteps : s'.run.steps = s.run.steps := by rw [hs, Run.shift]
  rw [countStep_run, countStep_run, hsteps, hl]
  split
  · exact .error (.aborted _) htally
  · exact .ok trivial htally

end Shifts

end Engine

/-! ## Matches -/

namespace Level

variable {below : Level} {c c' : Settings} {T : Text} {d : Nat}

/-- Matched by a reader in order and by the same reader further on, a rule comes to the same. -/
def Shifts (below : Level) (c c' : Settings) (T : Text) (d : Nat) : Prop :=
  ∀ k : Cursor, k.Held T d → ∀ name, Engine.Shifts c c' T d (Option.Rel (Match.Further T d))
    (below.match? k name) (below.match? (k.shift T d) name)

theorem shifts_terminal {k : Collected} (hheld : k.cursor.Held T d) (t : Terminal) :
    Engine.Shifts c c' T d (Option.Rel (Collected.Further T d))
      (below.matchItem k (.terminal t)) (below.matchItem (k.shift T d) (.terminal t)) := by
  have hnext := k.cursor.next_shift T d (t.kind != .comment)
  cases hn : k.cursor.next (t.kind != .comment) with
  | error e =>
    rw [hn] at hnext
    simp only [matchItem, Collected.shift, hn, hnext]
    exact .fail (.access e)
  | ok p =>
    rw [hn] at hnext
    obtain ⟨_ | l, e⟩ := p
    · simp only [matchItem, Collected.shift, hn, hnext]
      exact .pure .none
    · have hr := Cursor.next_eq_some_iff.mp hn
      have htext := hheld.text_eq hr
      have hvalue := hheld.value_eq hr
      rw [← hr.row.1] at htext hvalue
      simp only [matchItem, Collected.shift, hn, hnext]
      show Engine.Shifts c c' T d (Option.Rel (Collected.Further T d))
        (if l.kind = t.kind ∧ t.accepts (l.text e.text) then pure (some (k.addLexeme l e))
          else pure none : Engine (Option Collected))
        (if l.kind = t.kind ∧ t.accepts ((l.shift d).text T) then
          pure (some ((k.shift T d).addLexeme (l.shift d) (e.shift T d)))
          else pure none : Engine (Option Collected))
      rw [htext]
      split
      · exact .pure (.some ⟨hheld.ahead hr.toAhead, Collected.addLexeme_shift hvalue⟩)
      · exact .pure .none

theorem shifts_matchItem (hb : below.Shifts c c' T d) {k k' : Collected} (hk : k.Further T d k')
    (i : Item) : Engine.Shifts c c' T d (Option.Rel (Collected.Further T d))
      (below.matchItem k i) (below.matchItem k' i) := by
  obtain ⟨hheld, rfl⟩ := hk
  cases i with
  | rule name =>
    refine (hb k.cursor hheld name).bind fun m m' hm => ?_
    cases hm with
    | none => exact .pure .none
    | @some m m' hm =>
      obtain ⟨hm, rfl⟩ := hm
      obtain ⟨e, _ | found⟩ := m
      · exact .pure .none
      · refine .pure (.some ⟨hm, ?_⟩)
        exact k.addConstruct_shift T d found e
  | terminal t => exact shifts_terminal hheld t

theorem shifts_matchItems (hb : below.Shifts c c' T d) : ∀ (is : List Item) {k k' : Collected},
    k.Further T d k' → Engine.Shifts c c' T d (Option.Rel (Collected.Further T d))
      (below.matchItems is k) (below.matchItems is k')
  | [], _, _, hk => .pure (.some hk)
  | i :: is, _, _, hk => (shifts_matchItem hb hk i).bind fun _ _ hm => by
    cases hm with
    | none => exact .pure .none
    | some hk => exact shifts_matchItems hb is hk

theorem shifts_build {a : Alternative} (hn : a.action = none) (name : String) (values : List Value)
    (start stop : Int) {k : Cursor} (hk : k.Held T d) :
    Engine.Shifts c c' T d (Match.Further T d) (below.build name a values start stop k)
      (below.build name a (values.map (·.shift d)) (start + d) (stop + d) (k.shift T d)) := by
  intro s s' hs hclean
  have hrun : ∀ (c : Settings) (s : State) values start stop, below.runAction a values start stop c s =
      (.ok (a.defaultValue values start stop), s) := fun _ _ _ _ _ => by rw [runAction, hn]; rfl
  obtain ⟨items, hitems⟩ := a.defaultValue_eq values start stop
  have hne : a.defaultValue values start stop ≠ .none := by
    rw [hitems]
    rintro ⟨⟩
  have hne' : (a.defaultValue values start stop).shift d ≠ .none := by
    rw [hitems, Value.shift_tuple]
    rintro ⟨⟩
  rw [build_run (hrun c s _ _ _), Alternative.verdict_of_ne hne] at hclean ⊢
  rw [build_run (hrun c' s' _ _ _), a.defaultValue_shift, Alternative.verdict_of_ne hne']
  cases hv : Construct.ofValue (some (k.text.length : Int)) (a.defaultValue values start stop) with
  | error defect =>
    rw [hv] at hclean
    exact absurd rfl (hclean _ _ _)
  | ok found =>
    rw [Cursor.text_shift, Construct.ofValue_shift hk.part.inside hv]
    exact .ok ⟨hk, rfl⟩ hs

theorem shifts_tryAlternative (hl : c'.limits = c.limits) (hb : below.Shifts c c' T d) (name : String)
    {a : Alternative} (hn : a.action = none) {k : Cursor} (hk : k.Held T d) :
    Engine.Shifts c c' T d (Option.Rel (Match.Further T d))
      (below.tryAlternative k name a) (below.tryAlternative (k.shift T d) name a) := by
  refine (Engine.Shifts.countStep hl).bind fun _ _ _ => ?_
  rw [k.offset_shift]
  refine (Engine.Shifts.access _ k.offset).bind fun offset offset' ho => ?_
  subst ho
  split
  · exact (shifts_build hn name [.none] offset offset hk).bind fun m m' hm => .pure (.some hm)
  · have hnew : Collected.Further T d { stop := offset, cursor := k }
        { stop := offset + d, cursor := k.shift T d } := ⟨hk, by simp [Collected.shift]⟩
    refine (shifts_matchItems hb a.items hnew).bind fun q q' hq => ?_
    cases hq with
    | none => exact .pure .none
    | @some q q' hq =>
      obtain ⟨hheld, rfl⟩ := hq
      have hstart : (q.shift T d).start.getD (q.shift T d).stop = q.start.getD q.stop + d := by
        simp only [Collected.shift]
        cases q.start <;> rfl
      have hvalues : (q.shift T d).values.toList = q.values.toList.map (·.shift d) := by
        simp [Collected.shift]
      show Engine.Shifts c c' T d _
        (do return some (← below.build name a q.values.toList (q.start.getD q.stop) q.stop q.cursor))
        (do return some (← below.build name a (q.shift T d).values.toList
          ((q.shift T d).start.getD (q.shift T d).stop) (q.stop + d) (q.cursor.shift T d)))
      rw [hstart, hvalues]
      exact (shifts_build hn name _ _ _ hheld).bind fun m m' hm => .pure (.some hm)

theorem shifts_tryAlternatives (hl : c'.limits = c.limits) (hb : below.Shifts c c' T d) (name : String)
    {k : Cursor} (hk : k.Held T d) : ∀ (as : List Alternative), (∀ a ∈ as, a.action = none) →
      ∀ number, Engine.Shifts c c' T d (Option.Rel (Match.Further T d))
        (below.tryAlternatives k name number as) (below.tryAlternatives (k.shift T d) name number as)
  | [], _, _ => .pure .none
  | a :: as, hn, number => by
    refine (shifts_tryAlternative hl hb name (hn a List.mem_cons_self) hk).bind fun m m' hm => ?_
    cases hm with
    | none =>
      exact shifts_tryAlternatives hl hb name hk as (fun a h => hn a (List.mem_cons_of_mem _ h))
        (number + 1)
    | some hm => exact (Engine.Shifts.emit _ _).bind fun _ _ _ => .pure (.some hm)

theorem shifts_enterAt (hl : c'.limits = c.limits) (hb : below.Shifts c c' T d) (limit : Int) {k : Cursor}
    (hk : k.Held T d) (name : String) {as : List Alternative} (hn : ∀ a ∈ as, a.action = none)
    {s s' : State} (hs : s'.run = s.run.shift d) :
    Engine.Shifts c c' T d (Option.Rel (Match.Further T d)) (below.enterAt limit k name as s)
      (below.enterAt limit (k.shift T d) name as s') := by
  have hdepth : s'.run.depth = s.run.depth := by rw [hs, Run.shift]
  have hmem : s'.run.active.contains ((k.shift T d).entry name) =
      s.run.active.contains (k.entry name) := by
    rw [Bool.eq_iff_iff, List.contains_iff_mem, List.contains_iff_mem, hs]
    exact s.run.mem_active_shift d (k.entry name)
  unfold enterAt
  rw [hmem, hdepth]
  split
  · exact .fail (.leftRecursion name)
  · split
    · rw [k.offset_shift]
      refine (Engine.Shifts.access _ k.offset).bind fun o o' ho => ?_
      subst ho
      exact .fail (.nestingLimit name limit o)
    · exact (shifts_tryAlternatives hl hb name hk as hn 0).entered (k.entry name)

theorem shifts_above (hg : c'.grammar.rules = c.grammar.rules) (hl : c'.limits = c.limits)
    (hn : ∀ r ∈ c.grammar.rules, ∀ a ∈ r.alternatives, a.action = none) (hb : below.Shifts c c' T d) :
    below.above.Shifts c c' T d := by
  intro k hk name
  show Engine.Shifts c c' T d _ (below.matchRule k name) (below.matchRule (k.shift T d) name)
  rw [matchRule_eq, matchRule_eq]
  refine Engine.Shifts.ask ?_
  have halts' : c'.grammar.alternatives name = c.grammar.alternatives name := by
    simp only [Grammar.alternatives, Grammar.alternatives?, hg]
  rw [halts', hl]
  cases halts : c.grammar.alternatives? name with
  | none =>
    rw [Grammar.alternatives, halts]
    exact fun _ _ hs _ => .error (.undefinedRule name) hs
  | some as =>
    rw [Grammar.alternatives, halts]
    obtain ⟨r, hr, -, rfl⟩ := Grammar.alternatives?_eq_some halts
    show Engine.Shifts c c' T d _ (Engine.state >>= below.enterAt c.limits.maxDepth k name r.alternatives)
      (Engine.state >>= below.enterAt c.limits.maxDepth (k.shift T d) name r.alternatives)
    exact Engine.Shifts.look fun s s' hs => shifts_enterAt hl hb _ hk name (hn r hr) hs

/-- **Every rule is matched like further on in the text**, whatever the limits are. -/
theorem shifts (hg : c'.grammar.rules = c.grammar.rules) (hl : c'.limits = c.limits)
    (hn : ∀ r ∈ c.grammar.rules, ∀ a ∈ r.alternatives, a.action = none) :
    ∀ room, (level room).Shifts c c' T d
  | 0 => fun _ _ _ => .fail .stackOverflow
  | room + 1 => shifts_above hg hl hn (shifts hg hl hn room)

end Level

end Outline
