import Outline.Proofs.Engine.Steady

/-!
# What an attempt can come to

One inductive proposition for each part of matching a rule, with a constructor for each way in which
the part can end. Statements about matching are proved by cases on these and never look into the
parts again.

* `Alternative.verdict`, `Level.build_run`: what is made of the value that an action gives;
* `State.tally`, `State.enter`, `State.leave`: an alternative is counted, a rule begins and ends;
* `Level.enterAt`, `Level.matchRule_eq`: a rule is entered, or refused;
* `Level.ItemAttempt`, `Level.AlternativeAttempt`, `Level.RuleAttempt`: items, alternatives, rules;
* `Level.itemAttempt`, `Level.alternativeAttempt`, `Level.ruleAttempt`: every run is one of those.
-/

namespace Outline

open Engine

/-! ## What is built -/

namespace Alternative

/-- What a value that is built behind the last item means: nothing drops the match, and everything
else has to be a construct within the text. -/
def verdict (a : Alternative) (name : String) (cursor : Cursor) : Value → Except Failure Match
  | .none => .ok ⟨cursor, none⟩
  | value =>
    match Construct.ofValue (some cursor.text.length) value with
    | .ok found => .ok ⟨cursor, some found⟩
    | .error defect =>
      .error (.malformed s!"action for {quoted name} ({a.display})" value defect)

theorem verdict_of_ne {a : Alternative} {name : String} {cursor : Cursor} {v : Value}
    (hv : v ≠ .none) : a.verdict name cursor v =
      match Construct.ofValue (some cursor.text.length) v with
      | .ok found => .ok ⟨cursor, some found⟩
      | .error defect =>
        .error (.malformed s!"action for {quoted name} ({a.display})" v defect) := by
  cases v <;> first | rfl | exact absurd rfl hv

/-- A verdict is a match that leads to the cursor, or a complaint about the value. -/
theorem verdict_cases (a : Alternative) (name : String) (cursor : Cursor) (v : Value) :
    (∃ found, a.verdict name cursor v = .ok ⟨cursor, found⟩) ∨
      ∃ source defect, a.verdict name cursor v = .error (.malformed source v defect) := by
  by_cases hv : v = .none
  · subst hv
    exact Or.inl ⟨none, rfl⟩
  · rw [verdict_of_ne hv]
    cases Construct.ofValue (some cursor.text.length) v with
    | ok found => exact Or.inl ⟨some found, rfl⟩
    | error defect => exact Or.inr ⟨_, defect, rfl⟩

theorem cursor_of_verdict {a : Alternative} {name : String} {cursor : Cursor} {v : Value} {m : Match}
    (h : (a.verdict name cursor v).map some = .ok (some m)) : cursor = m.cursor := by
  obtain ⟨found, hv⟩ | ⟨source, defect, hv⟩ := a.verdict_cases name cursor v
  · rw [hv] at h
    cases h
    rfl
  · rw [hv] at h
    cases h

end Alternative

/-! ## Changes of the state -/

/-- One more alternative has been tried. -/
def State.tally (s : State) : State := { s with run := { s.run with steps := s.run.steps + 1 } }

/-- A rule match begins. -/
def State.enter (e : Entry) (s : State) : State := { s with run := s.run.enter e }

/-- A rule match ends. -/
def State.leave (e : Entry) (s : State) : State := { s with run := s.run.leave e }

/-- The rule match that begins at a cursor. -/
def Cursor.entry (c : Cursor) (name : String) : Entry := ⟨name, c.start, c.stop, c.index⟩

theorem countStep_run (c : Settings) (s : State) : countStep c s =
    (if c.limits.maxSteps.any (· < ((s.run.steps + 1 : Nat) : Int)) then
      .error (.aborted (s.run.steps + 1)) else .ok (), s.tally) := by
  change (if _ then fail _ else Pure.pure () : Engine Unit) c s.tally = _
  change (if c.limits.maxSteps.any (· < ((s.run.steps + 1 : Nat) : Int)) = true then
    fail (.aborted (s.run.steps + 1)) else Pure.pure () : Engine Unit) c s.tally = _
  split <;> rfl

namespace Level

variable (below : Level) (c : Settings)

/-! ## Items -/

/-- What matching an item behind `k` comes to. -/
inductive ItemAttempt (k : Collected) (s : State) :
    Item → Except Failure (Option Collected) → State → Prop where
  | raised {name : String} {e : Failure} {s' : State}
      (h : below.match? k.cursor name c s = (.error e, s')) :
      ItemAttempt k s (.rule name) (.error e) s'
  | noMatch {name : String} {s' : State} (h : below.match? k.cursor name c s = (.ok none, s')) :
      ItemAttempt k s (.rule name) (.ok none) s'
  | dropped {name : String} {cursor : Cursor} {s' : State}
      (h : below.match? k.cursor name c s = (.ok (some ⟨cursor, none⟩), s')) :
      ItemAttempt k s (.rule name) (.ok none) s'
  | construct {name : String} {cursor : Cursor} {found : Construct} {s' : State}
      (h : below.match? k.cursor name c s = (.ok (some ⟨cursor, some found⟩), s')) :
      ItemAttempt k s (.rule name) (.ok (some (k.addConstruct found cursor))) s'
  | lost {t : Terminal} {e : AccessFault} (h : k.cursor.next (t.kind != .comment) = .error e) :
      ItemAttempt k s (.terminal t) (.error (.access e)) s
  | atEnd {t : Terminal} {cursor : Cursor}
      (h : k.cursor.next (t.kind != .comment) = .ok (none, cursor)) :
      ItemAttempt k s (.terminal t) (.ok none) s
  | mismatch {t : Terminal} {l : Lexeme} {cursor : Cursor}
      (h : k.cursor.next (t.kind != .comment) = .ok (some l, cursor))
      (hl : ¬ (l.kind = t.kind ∧ t.accepts (l.text cursor.text))) :
      ItemAttempt k s (.terminal t) (.ok none) s
  | lexeme {t : Terminal} {l : Lexeme} {cursor : Cursor}
      (h : k.cursor.next (t.kind != .comment) = .ok (some l, cursor))
      (hl : l.kind = t.kind ∧ t.accepts (l.text cursor.text)) :
      ItemAttempt k s (.terminal t) (.ok (some (k.addLexeme l cursor))) s

theorem itemAttempt (k : Collected) (i : Item) {s s' : State} {r : Except Failure (Option Collected)}
    (h : below.matchItem k i c s = (r, s')) : ItemAttempt below c k s i r s' := by
  cases i with
  | rule name =>
    obtain ⟨m, s₁, hm, hr⟩ | ⟨e, hm, rfl⟩ := bind_run_cases h
    · obtain _ | ⟨cursor, _ | found⟩ := m <;> cases hr
      · exact .noMatch hm
      · exact .dropped hm
      · exact .construct hm
    · exact .raised hm
  | terminal t =>
    obtain ⟨p, s₁, hp, hr⟩ | ⟨e, hp, rfl⟩ := bind_run_cases h
    · obtain ⟨hn, rfl⟩ := access_run_ok hp
      cases p with
      | mk l cursor =>
        cases l with
        | none => cases hr; exact .atEnd hn
        | some l =>
          change (if _ then _ else _ : Engine (Option Collected)) c s₁ = _ at hr
          by_cases hl : l.kind = t.kind ∧ t.accepts (l.text cursor.text)
          · rw [if_pos hl] at hr
            cases hr
            exact .lexeme hn hl
          · rw [if_neg hl] at hr
            cases hr
            exact .mismatch hn hl
    · obtain ⟨f, hn, rfl, rfl⟩ := access_run_error hp
      exact .lost hn

variable {below c} in
theorem ItemAttempt.steady {k : Collected} {i : Item} {s s' : State}
    {r : Except Failure (Option Collected)} (hb : below.Steady)
    (h : ItemAttempt below c k s i r s') : s'.run.nesting = s.run.nesting := by
  have hm : ∀ name m s', below.match? k.cursor name c s = (m, s') →
      s'.run.nesting = s.run.nesting := fun name m s' hm => by
    have := hb.match? k.cursor name c s
    rwa [hm] at this
  cases h with
  | raised h => exact hm _ _ _ h
  | noMatch h => exact hm _ _ _ h
  | dropped h => exact hm _ _ _ h
  | construct h => exact hm _ _ _ h
  | lost => rfl
  | atEnd => rfl
  | mismatch => rfl
  | lexeme => rfl

/-- A row of items either ends at its first item, or goes on behind it. -/
theorem matchItems_cons {i : Item} {is : List Item} {k : Collected} {s s' : State}
    {r : Except Failure (Option Collected)} (h : below.matchItems (i :: is) k c s = (r, s')) :
    (∃ e, ItemAttempt below c k s i (.error e) s' ∧ r = .error e) ∨
      (ItemAttempt below c k s i (.ok none) s' ∧ r = .ok none) ∨
      ∃ k' s₁, ItemAttempt below c k s i (.ok (some k')) s₁ ∧
        below.matchItems is k' c s₁ = (r, s') := by
  obtain ⟨m, s₁, hm, hr⟩ | ⟨e, hm, rfl⟩ := bind_run_cases h
  · cases m with
    | none => cases hr; exact Or.inr (Or.inl ⟨itemAttempt below c k i hm, rfl⟩)
    | some k' => exact Or.inr (Or.inr ⟨k', s₁, itemAttempt below c k i hm, hr⟩)
  · exact Or.inl ⟨e, itemAttempt below c k i hm, rfl⟩

/-! ## Alternatives -/

variable {below c} in
/-- What is built is the verdict on what the action makes. -/
theorem build_run {name : String} {a : Alternative} {values : List Value} {start stop : Int}
    {cursor : Cursor} {s s' : State} {v : Value}
    (h : below.runAction a values start stop c s = (.ok v, s')) :
    below.build name a values start stop cursor c s = (a.verdict name cursor v, s') := by
  rw [build, Engine.bind_run_ok h]
  by_cases hv : v = .none
  · subst hv
    rfl
  · rw [Alternative.verdict_of_ne hv]
    cases hd : Construct.ofValue (some cursor.text.length) v with
    | ok found => cases v <;> first | exact absurd rfl hv | (simp only [hd]; rfl)
    | error defect => cases v <;> first | exact absurd rfl hv | (simp only [hd]; rfl)

/-- What is built comes from what the action makes, unless the action fails. -/
theorem build_cases {name : String} {a : Alternative} {values : List Value} {start stop : Int}
    {cursor : Cursor} {s s' : State} {r : Except Failure Match}
    (h : below.build name a values start stop cursor c s = (r, s')) :
    (∃ v, below.runAction a values start stop c s = (.ok v, s') ∧ r = a.verdict name cursor v) ∨
      ∃ e, below.runAction a values start stop c s = (.error e, s') ∧ r = .error e := by
  cases hv : below.runAction a values start stop c s with
  | mk v s₁ =>
    cases v with
    | ok v =>
      rw [build_run hv] at h
      cases h
      exact Or.inl ⟨v, rfl, rfl⟩
    | error e =>
      rw [build, Engine.bind_run_error hv] at h
      cases h
      exact Or.inr ⟨e, rfl, rfl⟩

/-- The values that an action is given: those of the items, or nothing if there are no items. -/
def valuesOf (a : Alternative) (k : Collected) : List Value :=
  if a.isEmpty then [.none] else k.values.toList

/-- What trying an alternative of the rule `name` at a cursor comes to. -/
inductive AlternativeAttempt (cursor : Cursor) (name : String) (a : Alternative) (s : State) :
    Except Failure (Option Match) → State → Prop where
  | aborted (h : c.limits.maxSteps.any (· < ((s.run.steps + 1 : Nat) : Int)) = true) :
      AlternativeAttempt cursor name a s (.error (.aborted (s.run.steps + 1))) s.tally
  | lost {e : AccessFault} (h : cursor.offset = .error e) :
      AlternativeAttempt cursor name a s (.error (.access e)) s.tally
  | raised {offset : Int} {e : Failure} {s' : State} (ho : cursor.offset = .ok offset)
      (h : below.matchItems a.items { stop := offset, cursor } c s.tally = (.error e, s')) :
      AlternativeAttempt cursor name a s (.error e) s'
  | noMatch {offset : Int} {s' : State} (ho : cursor.offset = .ok offset)
      (h : below.matchItems a.items { stop := offset, cursor } c s.tally = (.ok none, s')) :
      AlternativeAttempt cursor name a s (.ok none) s'
  | built {offset : Int} {k : Collected} {r : Except Failure Match} {s₁ s' : State}
      (ho : cursor.offset = .ok offset)
      (h : below.matchItems a.items { stop := offset, cursor } c s.tally = (.ok (some k), s₁))
      (hb : below.build name a (valuesOf a k) (k.start.getD k.stop) k.stop k.cursor c s₁ = (r, s')) :
      AlternativeAttempt cursor name a s (r.map some) s'

theorem alternativeAttempt (cursor : Cursor) (name : String) (a : Alternative) {s s' : State}
    {r : Except Failure (Option Match)} (h : below.tryAlternative cursor name a c s = (r, s')) :
    AlternativeAttempt below c cursor name a s r s' := by
  obtain ⟨u, s₁, hu, h⟩ | ⟨e, hu, rfl⟩ := bind_run_cases h
  · rw [countStep_run] at hu
    split at hu <;> cases hu
    obtain ⟨offset, s₁, ho, h⟩ | ⟨e, ho, rfl⟩ := bind_run_cases h
    · obtain ⟨hf, rfl⟩ := access_run_ok ho
      by_cases ha : a.isEmpty = true
      · rw [if_pos ha] at h
        have hi : a.items = [] := List.isEmpty_iff.mp ha
        have hk : below.matchItems a.items { stop := offset, cursor } c s.tally =
            (.ok (some { stop := offset, cursor }), s.tally) := by rw [hi]; rfl
        obtain ⟨m, s₂, hm, h⟩ | ⟨e, hm, rfl⟩ := bind_run_cases h
        · cases h
          exact .built hf hk (r := .ok m) (by rw [valuesOf, if_pos ha]; exact hm)
        · exact .built hf hk (r := .error e) (by rw [valuesOf, if_pos ha]; exact hm)
      · rw [if_neg ha] at h
        obtain ⟨k, s₂, hk, h⟩ | ⟨e, hk, rfl⟩ := bind_run_cases h
        · cases k with
          | none => cases h; exact .noMatch hf hk
          | some k =>
            obtain ⟨m, s₃, hm, h⟩ | ⟨e, hm, rfl⟩ := bind_run_cases h
            · cases h
              exact .built hf hk (r := .ok m) (by rw [valuesOf, if_neg ha]; exact hm)
            · exact .built hf hk (r := .error e) (by rw [valuesOf, if_neg ha]; exact hm)
        · exact .raised hf hk
    · obtain ⟨f, hf, rfl, rfl⟩ := access_run_error ho
      exact .lost hf
  · rw [countStep_run] at hu
    split at hu <;> cases hu
    rename_i hs
    exact .aborted hs

variable {below c} in
theorem AlternativeAttempt.steady {cursor : Cursor} {name : String} {a : Alternative} {s s' : State}
    {r : Except Failure (Option Match)} (hb : below.Steady)
    (h : AlternativeAttempt below c cursor name a s r s') : s'.run.nesting = s.run.nesting := by
  have hm : ∀ k m s', below.matchItems a.items k c s.tally = (m, s') →
      s'.run.nesting = s.run.nesting := fun k m s' hm => by
    have := steady_matchItems hb a.items k c s.tally
    rwa [hm] at this
  cases h with
  | aborted => rfl
  | lost => rfl
  | raised _ h => exact hm _ _ _ h
  | noMatch _ h => exact hm _ _ _ h
  | @built _ k r s₁ _ _ h hk =>
    have := steady_build hb name a (valuesOf a k) (k.start.getD k.stop) k.stop k.cursor c s₁
    rw [hk, hm _ _ _ h] at this
    exact this

/-- Alternatives either end at the first, or go on behind it. -/
theorem tryAlternatives_cons {cursor : Cursor} {name : String} {number : Nat} {a : Alternative}
    {as : List Alternative} {s s' : State} {r : Except Failure (Option Match)}
    (h : below.tryAlternatives cursor name number (a :: as) c s = (r, s')) :
    (∃ e, AlternativeAttempt below c cursor name a s (.error e) s' ∧ r = .error e) ∨
      (∃ m s₁, AlternativeAttempt below c cursor name a s (.ok (some m)) s₁ ∧ r = .ok (some m) ∧
        s'.run = s₁.run) ∨
      ∃ s₁, AlternativeAttempt below c cursor name a s (.ok none) s₁ ∧
        below.tryAlternatives cursor name (number + 1) as c s₁ = (r, s') := by
  obtain ⟨m, s₁, hm, h⟩ | ⟨e, hm, rfl⟩ := bind_run_cases h
  · have hm := alternativeAttempt below c cursor name a hm
    cases m with
    | none => exact Or.inr (Or.inr ⟨s₁, hm, h⟩)
    | some m => cases h; exact Or.inr (Or.inl ⟨m, s₁, hm, rfl, rfl⟩)
  · exact Or.inl ⟨e, alternativeAttempt below c cursor name a hm, rfl⟩

/-! ## Rules -/

/-- A rule with these alternatives is matched from a state that is known: unless it is in progress at the
same place or nested too deep, it is entered. -/
def enterAt (limit : Int) (cursor : Cursor) (name : String) (as : List Alternative) (s : State) :
    Engine (Option Match) :=
  if s.run.active.contains (cursor.entry name) then .fail (.leftRecursion name)
  else if limit ≤ s.run.depth then do
    .fail (.nestingLimit name limit (← access cursor.offset))
  else within (fun s => s.enter (cursor.entry name)) (fun _ s => s.leave (cursor.entry name))
    (below.tryAlternatives cursor name 0 as)

/-- A rule is matched by its alternatives, from the state that is found. -/
theorem matchRule_eq (cursor : Cursor) (name : String) : below.matchRule cursor name =
    settings >>= fun c => Engine.ofExcept (c.grammar.alternatives name) >>= fun as =>
      Engine.state >>= below.enterAt c.limits.maxDepth cursor name as := rfl

/-- What matching a rule at a cursor comes to. -/
inductive RuleAttempt (cursor : Cursor) (name : String) (s : State) :
    Except Failure (Option Match) → State → Prop where
  | undefined (h : c.grammar.alternatives? name = none) :
      RuleAttempt cursor name s (.error (.undefinedRule name)) s
  | again {as : List Alternative} (h : c.grammar.alternatives? name = some as)
      (ha : cursor.entry name ∈ s.run.active) :
      RuleAttempt cursor name s (.error (.leftRecursion name)) s
  | tooDeep {as : List Alternative} {e : Failure} (h : c.grammar.alternatives? name = some as)
      (ha : cursor.entry name ∉ s.run.active) (hd : c.limits.maxDepth ≤ s.run.depth)
      (he : (∃ offset, cursor.offset = .ok offset ∧ e = .nestingLimit name c.limits.maxDepth offset) ∨
        ∃ f, cursor.offset = .error f ∧ e = .access f) :
      RuleAttempt cursor name s (.error e) s
  | entered {as : List Alternative} {r : Except Failure (Option Match)} {s' : State}
      (h : c.grammar.alternatives? name = some as) (ha : cursor.entry name ∉ s.run.active)
      (hd : (s.run.depth : Int) < c.limits.maxDepth)
      (hr : below.tryAlternatives cursor name 0 as c (s.enter (cursor.entry name)) = (r, s')) :
      RuleAttempt cursor name s r (s'.leave (cursor.entry name))

theorem ruleAttempt (cursor : Cursor) (name : String) {s s' : State}
    {r : Except Failure (Option Match)} (h : below.matchRule cursor name c s = (r, s')) :
    RuleAttempt below c cursor name s r s' := by
  obtain ⟨c', s₁, hc, h⟩ | ⟨e, hc, rfl⟩ := bind_run_cases h <;> cases hc
  rw [Engine.bind_run_ofExcept, Grammar.alternatives] at h
  cases hg : c.grammar.alternatives? name with
  | none => rw [hg] at h; cases h; exact .undefined hg
  | some as =>
    rw [hg] at h
    obtain ⟨s₂, s₃, hs, h⟩ | ⟨e, hs, rfl⟩ := bind_run_cases h <;> cases hs
    change below.enterAt c.limits.maxDepth cursor name as s c s = _ at h
    unfold enterAt at h
    by_cases ha : cursor.entry name ∈ s.run.active
    · rw [if_pos (List.contains_iff_mem.mpr ha)] at h
      cases h
      exact .again hg ha
    · rw [if_neg (fun hc => ha (List.contains_iff_mem.mp hc))] at h
      by_cases hd : c.limits.maxDepth ≤ s.run.depth
      · rw [if_pos hd] at h
        obtain ⟨offset, s₄, ho, h'⟩ | ⟨e, ho, rfl⟩ := bind_run_cases h
        · obtain ⟨hf, rfl⟩ := access_run_ok ho
          cases h'
          exact .tooDeep hg ha hd (Or.inl ⟨offset, hf, rfl⟩)
        · obtain ⟨f, hf, rfl, rfl⟩ := access_run_error ho
          exact .tooDeep hg ha hd (Or.inr ⟨f, hf, rfl⟩)
      · rw [if_neg hd, within_run] at h
        cases h
        exact .entered hg ha (by omega) rfl

/-- A guarded match is the match itself, unless that runs out of room. -/
theorem guarded_run (rule : Matching) (cursor : Cursor) (name : String) {s s' : State}
    {r : Except Failure (Option Match)} (h : rule.guarded cursor name c s = (r, s')) :
    (r ≠ .error .stackOverflow ∧ rule cursor name c s = (r, s')) ∨
      rule cursor name c s = (.error .stackOverflow, s') ∧ ∃ e, r = .error e ∧
        ((∃ limit offset, e = .nestingLimit name limit offset) ∨ ∃ f, e = .access f) := by
  obtain ⟨m, s₁, hm, h⟩ | ⟨e, hm, rfl⟩ := bind_run_cases h
  · rw [attempt_run] at hm
    cases hr : rule cursor name c s with
    | mk r₁ s₂ =>
      rw [hr] at hm
      cases hm
      obtain e | m := r₁
      · by_cases he : e = .stackOverflow
        · subst he
          change (access cursor.offset >>= fun offset =>
            (fail (.nestingLimit name s₂.run.depth offset) : Engine (Option Match))) c s₂ = _ at h
          obtain ⟨offset, s₃, ho, h⟩ | ⟨e, ho, rfl⟩ := bind_run_cases h
          · obtain ⟨-, rfl⟩ := access_run_ok ho
            cases h
            exact Or.inr ⟨rfl, _, rfl, Or.inl ⟨_, offset, rfl⟩⟩
          · obtain ⟨f, -, rfl, rfl⟩ := access_run_error ho
            exact Or.inr ⟨rfl, _, rfl, Or.inr ⟨f, rfl⟩⟩
        · cases e <;> first | exact absurd rfl he | (cases h; exact Or.inl ⟨by simp, rfl⟩)
      · cases h
        exact Or.inl ⟨by simp, rfl⟩
  · cases hm

end Level

end Outline
