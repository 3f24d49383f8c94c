import Outline.Proofs.Matching.Attempt

/-!
# What the rounds of a parse come to

Matching again and again, one round at a time, and what a parse and an expansion are made of.

* `Matching.rounds_done`, `Matching.rounds_comment`, `Matching.rounds_lexeme`: one round;
* `Matching.Round`, `Matching.round_of_rounds`: a round that goes on, and the rounds behind it;
* `Matching.lex_run`, `Matching.lex_ok`, `Matching.lexSpan_eq`, `Matching.lex_of_lexSpan`: the lexemes that
  the parser gets are the lexer's;
* `Matching.replaceBy`, `Matching.replace_eq`: what takes the place of a construct;
* `Matching.inProgress`, `Matching.begun`: a parse between its beginning and its end;
* `Matching.parseAll_ok`, `Matching.expandFull_ok`: the rounds behind a result.
-/

namespace Outline

/-- A result of two steps comes from a result of the first. -/
theorem Engine.ok_of_bind {α β : Type} {m : Engine α} {f : α → Engine β} {c : Settings} {s : State}
    {b : β} (h : ((m >>= f) c s).1 = .ok b) :
    ∃ a s₁, m c s = (.ok a, s₁) ∧ (f a c s₁).1 = .ok b := by
  cases hf : (m >>= f) c s with
  | mk r s' =>
    rw [hf] at h
    obtain ⟨a, s₁, hm, h'⟩ | ⟨e, -, rfl⟩ := bind_run_cases hf
    · exact ⟨a, s₁, hm, by rw [h', h]⟩
    · cases h

/-- A row of lexemes is read from its start. -/
theorem Lexer.start_of_lex {x : Lexer} {t : Text} {start : Int} {stop limit : Option Int} {c : Cursor}
    (h : x.lex t start stop limit = .ok c) : c.text = t ∧ c.index = 0 := by
  unfold lex at h
  simp only at h
  split at h
  · split at h
    · cases h
    · cases h
      exact ⟨rfl, rfl⟩
  · cases h

/-- In the course of a parse all work is that of its matcher. -/
theorem Engine.withMatcher_run {α : Type} (m : Engine α) {s : State} (h : s.text.isSome)
    (c : Settings) : withMatcher m c s = m c s := by
  change (if s.text.isSome = true then m else _ : Engine α) c s = m c s
  rw [if_pos h]

open Engine

namespace Matching

variable {rule : Matching} {c : Settings}

/-! ## One round -/

section

variable {r : Rounds} {fuel : Nat} {cursor : Cursor} {l : Lexeme} {found : Array Construct} {s : State}

/-- What a round does with what was matched where a lexeme was next. -/
def Rounds.takeUp (rule : Matching) (r : Rounds) (fuel : Nat) (cursor : Cursor) (l : Lexeme)
    (found : Array Construct) : Option Match → Engine (Array Construct)
  | none => .fail (.parse cursor.text l.start r.name .expected)
  | some m =>
    if m.cursor.index = cursor.index then .fail (.parse cursor.text l.start r.name .idle)
    else do
      let more ← r.contribution m
      if r.reports then Engine.emit (.progress (100 * m.cursor.index / m.cursor.size))
      rule.rounds r fuel m.cursor (found ++ more)

theorem rounds_done (h : cursor.peek = .ok none) :
    rule.rounds r (fuel + 1) cursor found c s = (.ok found, s) := by
  rw [rounds, h]
  rfl

theorem rounds_comment (h : cursor.peek = .ok (some l)) (hl : r.skipComments = true ∧ l.kind = .comment) :
    rule.rounds r (fuel + 1) cursor found c s = rule.rounds r fuel cursor.advance found c s := by
  rw [rounds, h]
  show (if r.skipComments = true ∧ l.kind = .comment then rule.rounds r fuel cursor.advance found
    else _ : Engine (Array Construct)) c s = _
  rw [if_pos hl]

theorem rounds_lexeme (h : cursor.peek = .ok (some l))
    (hl : ¬ (r.skipComments = true ∧ l.kind = .comment)) :
    rule.rounds r (fuel + 1) cursor found c s =
      (rule.guarded cursor r.name >>= r.takeUp rule fuel cursor l found) c s := by
  rw [rounds, h]
  show (if r.skipComments = true ∧ l.kind = .comment then _ else
    rule.guarded cursor r.name >>= _ : Engine (Array Construct)) c s = _
  rw [if_neg hl]
  congr 1

end

/-- A round that goes on: what was found in it and the cursor behind it. -/
inductive Round (rule : Matching) (r : Rounds) (c : Settings) (cursor : Cursor) (s : State) :
    List Construct → Cursor → State → Prop where
  | comment {l : Lexeme} (h : cursor.peek = .ok (some l)) (hs : r.skipComments = true)
      (hl : l.kind = .comment) : Round rule r c cursor s [] cursor.advance s
  | taken {l : Lexeme} {m : Match} {more : List Construct} {s₁ s₂ s' : State}
      (h : cursor.peek = .ok (some l)) (hl : ¬ (r.skipComments = true ∧ l.kind = .comment))
      (hm : rule.guarded cursor r.name c s = (.ok (some m), s₁))
      (hi : m.cursor.index ≠ cursor.index) (hc : r.contribution m c s₁ = (.ok more, s₂))
      (hs : s'.run = s₂.run) : Round rule r c cursor s more m.cursor s'

/-- The rounds end in the first of them, or go on behind it. -/
theorem round_of_rounds {r : Rounds} {fuel : Nat} {cursor : Cursor} {found out : Array Construct}
    {s : State} (h : (rule.rounds r (fuel + 1) cursor found c s).1 = .ok out) :
    (cursor.peek = .ok none ∧ out = found) ∨
      ∃ more d s₁, Round rule r c cursor s more d s₁ ∧
        (rule.rounds r fuel d (found ++ more) c s₁).1 = .ok out := by
  cases hp : cursor.peek with
  | error e =>
    rw [rounds, hp] at h
    cases h
  | ok next =>
    cases next with
    | none =>
      rw [rounds_done hp] at h
      cases h
      exact Or.inl ⟨rfl, rfl⟩
    | some l =>
      refine Or.inr ?_
      by_cases hl : r.skipComments = true ∧ l.kind = .comment
      · rw [rounds_comment hp hl] at h
        exact ⟨[], cursor.advance, s, .comment hp hl.1 hl.2, by simpa using h⟩
      · rw [rounds_lexeme hp hl] at h
        obtain ⟨m, s₁, hm, h⟩ := ok_of_bind h
        cases m with
        | none => cases h
        | some m =>
          unfold Rounds.takeUp at h
          by_cases hi : m.cursor.index = cursor.index
          · simp only [if_pos hi] at h
            cases h
          · simp only [if_neg hi] at h
            obtain ⟨more, s₂, hc, h⟩ := ok_of_bind h
            have hround : ∀ s', s'.run = s₂.run → Round rule r c cursor s more m.cursor s' :=
              fun s' => .taken hp hl hm hi hc
            by_cases hr : r.reports = true
            · simp only [if_pos hr] at h
              let percent := 100 * m.cursor.index / m.cursor.size
              exact ⟨more, m.cursor, { s₂ with events := .progress percent :: s₂.events },
                hround _ rfl, h⟩
            · simp only [if_neg hr] at h
              exact ⟨more, m.cursor, s₂, hround _ rfl, h⟩

/-! ## Whole parses -/

theorem rounds_of_repeatedly {r : Rounds} {cursor : Cursor} {found : List Construct} {s : State}
    (h : (rule.repeatedly r cursor c s).1 = .ok found) :
    ∃ s₁ out, (rule.rounds r cursor.unread cursor #[] c s₁).1 = .ok out ∧ found = out.toList := by
  have hrounds : ∀ s, ((do return (← rule.rounds r cursor.unread cursor #[]).toList :
      Engine (List Construct)) c s).1 = .ok found →
      ∃ s₁ out, (rule.rounds r cursor.unread cursor #[] c s₁).1 = .ok out ∧ found = out.toList := by
    intro s h
    obtain ⟨out, s₁, ho, h⟩ := ok_of_bind h
    cases h
    exact ⟨s, out, by rw [ho], rfl⟩
  change ((if s.text.isSome = true then _ else _ : Engine (List Construct)) c s).1 = _ at h
  by_cases ht : s.text.isSome = true
  · rw [if_pos ht] at h
    exact hrounds _ h
  · rw [if_neg ht, within_run] at h
    exact hrounds _ h

/-- Which text an expansion is about leaves everything as it is. -/
theorem textOf_snd (e : Expansion) (s : State) : (textOf e c s).2 = s := by
  obtain ⟨_, _, _, _, _ | text⟩ := e
  · obtain ⟨run, _ | t, cache, events⟩ := s <;> rfl
  · rfl

/-- What an expansion found comes from the rounds over the lexemes of its span. -/
theorem expandFull_ok {e : Expansion} {found : List Construct} {s : State}
    (h : (rule.expandFull e c s).1 = .ok found) :
    ∃ text cursor s₁ out, (textOf e c s).1 = .ok text ∧
      (lexSpan text e.span e.depth e.interior c s).1 = .ok cursor ∧
      (rule.rounds { name := e.rule } cursor.unread cursor #[] c s₁).1 = .ok out ∧
      found = out.toList := by
  obtain ⟨text, s₁, ht, h⟩ := ok_of_bind h
  have hs : s₁ = s := by
    rw [← textOf_snd (c := c) e s, ht]
  rw [hs] at h
  obtain ⟨cursor, s₂, hl, h⟩ := ok_of_bind h
  obtain ⟨found', s₃, hr, h⟩ := ok_of_bind h
  obtain ⟨s₄, out, ho, rfl⟩ := rounds_of_repeatedly (congrArg Prod.fst hr)
  cases h
  exact ⟨text, cursor, s₄, out, by rw [ht], by rw [hl], ho, rfl⟩

/-- Lexing is what the lexer does, between two reports. -/
theorem lex_run (text : Text) (start : Int) (stop depth : Option Int) (s : State) :
    Engine.lex text start stop depth c s = match c.lexer.lex text start stop depth with
      | .ok cursor => (.ok cursor, { s with
          events := .lexed cursor.size cursor.start cursor.stop depth :: .lexing :: s.events })
      | .error e => (.error (.lex e), { s with events := .lexing :: s.events }) := by
  show (ofExcept ((c.lexer.lex text start stop depth).mapError .lex) >>= fun cursor => do
    emit (.lexed cursor.size cursor.start cursor.stop depth)
    return cursor : Engine Cursor) c { s with events := .lexing :: s.events } = _
  cases c.lexer.lex text start stop depth <;> rfl

/-- The lexemes that a step of the parser gets are those of the lexer. -/
theorem lex_ok {text : Text} {start : Int} {stop depth : Option Int} {cursor : Cursor} {s : State}
    (h : (Engine.lex text start stop depth c s).1 = .ok cursor) :
    c.lexer.lex text start stop depth = .ok cursor := by
  rw [lex_run] at h
  cases hx : c.lexer.lex text start stop depth with
  | ok d => rw [hx] at h; cases h; rfl
  | error e => rw [hx] at h; cases h

/-- The lexemes between the offsets that two values are. -/
def lexBetween (text : Text) (depth : Option Int) (a b : Value) : Engine Cursor :=
  match Span.offsets a b with
  | .ok (start, stop) => Engine.lex text start stop depth
  | .error fault => do
    emit .lexing
    fail (.span fault)

/-- A span is taken apart, then its lexemes are read. -/
theorem lexSpan_eq (text : Text) (span : Value) (depth : Option Int) (interior : Bool) :
    lexSpan text span depth interior = Engine.ofExcept ((Span.parts span).mapError .span) >>= fun p =>
      (if interior then Engine.ofExcept ((Span.interior p.1 p.2).mapError .span) else pure p) >>= fun q =>
        lexBetween text depth q.1 q.2 := by
  cases interior <;> rfl

/-- The lexemes of a span are those of a stretch. -/
theorem lex_of_lexSpan {text : Text} {span : Value} {depth : Option Int}
    {interior : Bool} {cursor : Cursor} {s : State}
    (h : (lexSpan text span depth interior c s).1 = .ok cursor) :
    ∃ start stop, c.lexer.lex text start stop depth = .ok cursor := by
  rw [lexSpan_eq] at h
  obtain ⟨p, s₁, -, h⟩ := ok_of_bind h
  obtain ⟨q, s₂, -, h⟩ := ok_of_bind h
  rw [lexBetween] at h
  cases ho : Span.offsets q.1 q.2 with
  | ok p => rw [ho] at h; exact ⟨p.1, p.2, lex_ok h⟩
  | error fault => rw [ho] at h; cases h

/-- What takes the place of a construct, by a hook if there is one. -/
def replaceBy (below : Level) (textEnd : Nat) (k : Construct) :
    Option (Construct → Script Value) → Engine (List Construct)
  | none => pure [k]
  | some hook => do hooked textEnd (← access (← (hook k).perform below).elements)

/-- A construct is replaced by the hook of the settings. -/
theorem replace_eq (below : Level) (textEnd : Nat) (k : Construct) :
    replace below textEnd k = settings >>= fun c => replaceBy below textEnd k c.hook := by
  funext c s
  show replace below textEnd k c s = replaceBy below textEnd k c.hook c s
  rw [replace, bind_run_ok rfl]
  cases c.hook <;> rfl

/-- How the rounds of a whole text go. -/
def wholeText (below : Level) (c : Settings) (text : Text) (skipComments : Bool) : Rounds where
  name := c.grammar.start
  skipComments := skipComments
  accept := replace below text.length
  reports := true

/-- The work of a parse that is in progress: the lexemes of the text, and the rounds over them. -/
def inProgress (rule : Matching) (below : Level) (c : Settings) (text : Text) (skipComments : Bool) :
    Engine (List Construct) := do
  let cursor ← Engine.lex text 0 none c.depth
  rule.repeatedly (wholeText below c text skipComments) cursor

/-- A parse that is in progress: its text is at hand, and its matcher is new. -/
def begun (text : Text) (s : State) : State := { s with cache := none, text := some text, run := {} }

section

variable {below : Level} {text : Text} {s : State}

/-- A parse is what it does while it is in progress; a result is remembered. -/
theorem parseText_run (skipComments : Bool) :
    rule.parseText below text skipComments c s =
      match inProgress rule below c text skipComments c (begun text s) with
      | (.ok found, after) => (.ok found, { after with
          run := s.run
          text := none
          cache := some ⟨found, text.length, skipComments⟩
          events := .parsed found.length :: after.events })
      | (.error e, after) => (.error e, { after with run := s.run, text := none }) := by
  let leave : State → State → State := fun before s => { s with text := none, run := before.run }
  let finish : List Construct → Engine (List Construct) := fun found => do
    modify fun s => { s with cache := some ⟨found, text.length, skipComments⟩ }
    emit (.parsed found.length)
    return found
  show (within (begun text) leave (inProgress rule below c text skipComments) >>= finish) c s = _
  have hw := within_run (begun text) leave (inProgress rule below c text skipComments) c s
  rcases hp : inProgress rule below c text skipComments c (begun text s) with ⟨e | found, after⟩
  · rw [hp] at hw
    exact bind_run_error hw
  · rw [hp] at hw
    exact bind_run_ok hw

/-- What is remembered of the text is the result, if there is any. -/
theorem parseAll_run (skip : Option Bool) :
    rule.parseAll below text skip c s =
      match s.cache.filter (·.isValidFor text (skip.getD c.skipComments)) with
      | some k => (.ok k.constructs, { s with events := .reused k.constructs.length :: s.events })
      | none => rule.parseText below text (skip.getD c.skipComments) c s := by
  obtain ⟨run, t, _ | k, events⟩ := s
  · rfl
  · show (if k.isValidFor text (skip.getD c.skipComments) = true then _ else _ :
      Engine (List Construct)) c _ = _
    by_cases hv : k.isValidFor text (skip.getD c.skipComments) = true
    · rw [if_pos hv]
      simp only [Option.filter_some, hv]
      rfl
    · rw [if_neg hv]
      simp only [Option.filter_some, hv]
      rfl

end

/-- What a parse found is what is remembered of the text, or comes from the rounds over its lexemes. -/
theorem parseAll_ok {below : Level} {text : Text} {skip : Option Bool} {found : List Construct}
    {s : State} (h : (rule.parseAll below text skip c s).1 = .ok found) :
    (∃ k ∈ s.cache, k.isValidFor text (skip.getD c.skipComments) = true ∧ found = k.constructs) ∨
      ∃ cursor s₁ out, c.lexer.lex text 0 none c.depth = .ok cursor ∧
        (rule.rounds (wholeText below c text (skip.getD c.skipComments)) cursor.unread cursor #[] c s₁).1 =
          .ok out ∧ found = out.toList := by
  rw [parseAll_run] at h
  cases hk : s.cache.filter (·.isValidFor text (skip.getD c.skipComments)) with
  | none =>
    rw [hk] at h
    simp only [parseText_run] at h
    cases hp : inProgress rule below c text (skip.getD c.skipComments) c (begun text s) with
    | mk res after =>
      rw [hp] at h
      cases res with
      | error e => cases h
      | ok found =>
        cases h
        obtain ⟨cursor, s₁, hl, hr⟩ := ok_of_bind (congrArg Prod.fst hp)
        obtain ⟨s₂, out, ho, hout⟩ := rounds_of_repeatedly hr
        exact Or.inr ⟨cursor, s₂, out, lex_ok (congrArg Prod.fst hl), ho, hout⟩
  | some k =>
    rw [hk] at h
    cases h
    obtain ⟨hmem, hv⟩ := Option.filter_eq_some_iff.mp hk
    exact Or.inl ⟨k, hmem, hv, rfl⟩

end Matching

end Outline
