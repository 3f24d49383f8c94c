import Outline.Proofs.Engine.Round
import Outline.Proofs.Matching.Advance

/-!
# The rounds of a parse, counted

Matching again and again is a loop that ends when no lexeme is left. Here it is a relation between where
it begins and what it comes to, with a place in the row for every round and no bound on their number. Each
round begins further on than the one before, so the rounds are no more than the lexemes, and the bound with
which they are run never ends them.

* `Matching.turn`: one round; `Matching.rounds_succ`: the rounds are a round and those behind it;
* `Matching.Turns`: the rounds from a cursor on, however many there are;
* `Matching.ahead_of_turn`: a round leads forward;
* **`Matching.turns_of_rounds`**: the rounds end by themselves, and how many there are.
-/

namespace Outline

open Engine

namespace Matching

variable {rule : Matching} {c : Settings} {r : Rounds}

/-! ## One round -/

/-- What a round comes to if a rule was matched where a lexeme was next. -/
def Rounds.settle (r : Rounds) (cursor : Cursor) (l : Lexeme) :
    Option Match → Engine (Option (List Construct × Cursor))
  | none => .fail (.parse cursor.text l.start r.name .expected)
  | some m =>
    if m.cursor.index = cursor.index then .fail (.parse cursor.text l.start r.name .idle)
    else do
      let more ← r.contribution m
      if r.reports then emit (.progress (100 * m.cursor.index / m.cursor.size))
      return some (more, m.cursor)

/-- One round: what it adds, and the cursor behind it. There is none if no lexeme is left. -/
def turn (rule : Matching) (r : Rounds) (cursor : Cursor) :
    Engine (Option (List Construct × Cursor)) := do
  match ← access cursor.peek with
  | none => return none
  | some l =>
    if r.skipComments ∧ l.kind = .comment then return some ([], cursor.advance)
    else r.settle cursor l (← rule.guarded cursor r.name)

section

variable {cursor : Cursor} {l : Lexeme} {s : State}

theorem turn_done (h : cursor.peek = .ok none) : turn rule r cursor c s = (.ok none, s) := by
  rw [turn, h]
  rfl

theorem turn_comment (h : cursor.peek = .ok (some l)) (hl : r.skipComments = true ∧ l.kind = .comment) :
    turn rule r cursor c s = (.ok (some ([], cursor.advance)), s) := by
  rw [turn, h]
  show (if r.skipComments = true ∧ l.kind = .comment then pure (some ([], cursor.advance))
    else _ : Engine (Option (List Construct × Cursor))) c s = _
  rw [if_pos hl]
  rfl

theorem turn_lexeme (h : cursor.peek = .ok (some l))
    (hl : ¬ (r.skipComments = true ∧ l.kind = .comment)) :
    turn rule r cursor c s = (rule.guarded cursor r.name >>= r.settle cursor l) c s := by
  rw [turn, h]
  show (if r.skipComments = true ∧ l.kind = .comment then _ else
    rule.guarded cursor r.name >>= r.settle cursor l :
      Engine (Option (List Construct × Cursor))) c s = _
  rw [if_neg hl]

end

/-- What the rounds come to behind one of them. -/
def resume (rule : Matching) (r : Rounds) (fuel : Nat) (found : Array Construct) :
    Option (List Construct × Cursor) → Engine (Array Construct)
  | none => pure found
  | some (more, d) => rule.rounds r fuel d (found ++ more)

theorem takeUp_eq (fuel : Nat) (cursor : Cursor) (l : Lexeme) (found : Array Construct)
    (m : Option Match) (s : State) : r.takeUp rule fuel cursor l found m c s =
      (r.settle cursor l m >>= resume rule r fuel found) c s := by
  cases m with
  | none => rfl
  | some m =>
    unfold Rounds.takeUp Rounds.settle
    by_cases hi : m.cursor.index = cursor.index
    · simp only [if_pos hi]
      rfl
    · simp only [if_neg hi]
      cases hc : r.contribution m c s with
      | mk more s₁ =>
        cases more with
        | error e =>
          rw [bind_run_error hc, bind_run_error (bind_run_error hc)]
        | ok more =>
          rw [bind_run_ok hc]
          by_cases hr : r.reports = true
          · simp only [if_pos hr]
            have hs : (do
                let more ← r.contribution m
                emit (.progress (100 * m.cursor.index / m.cursor.size))
                return some (more, m.cursor) : Engine (Option (List Construct × Cursor))) c s =
                  (.ok (some (more, m.cursor)), { s₁ with
                    events := .progress (100 * m.cursor.index / m.cursor.size) :: s₁.events }) := by
              rw [bind_run_ok hc]
              rfl
            rw [bind_run_ok hs]
            rfl
          · simp only [if_neg hr]
            have hs : (do
                let more ← r.contribution m
                return some (more, m.cursor) : Engine (Option (List Construct × Cursor))) c s =
                  (.ok (some (more, m.cursor)), s₁) := by
              rw [bind_run_ok hc]
              rfl
            rw [bind_run_ok hs]
            rfl

/-- The rounds are one of them and those behind it. -/
theorem rounds_succ (fuel : Nat) (cursor : Cursor) (found : Array Construct) (s : State) :
    rule.rounds r (fuel + 1) cursor found c s =
      (turn rule r cursor >>= resume rule r fuel found) c s := by
  cases hp : cursor.peek with
  | error e => rw [rounds, bind_run_error (m := turn rule r cursor) (by rw [turn, hp]; rfl), hp]; rfl
  | ok l =>
    cases l with
    | none =>
      rw [rounds_done hp, bind_run_ok (turn_done hp)]
      rfl
    | some l =>
      by_cases hl : r.skipComments = true ∧ l.kind = .comment
      · rw [rounds_comment hp hl, bind_run_ok (turn_comment hp hl)]
        simp [resume]
      · rw [rounds_lexeme hp hl]
        cases hg : rule.guarded cursor r.name c s with
        | mk m s₁ =>
          cases m with
          | error e =>
            have ht : turn rule r cursor c s = (.error e, s₁) := by
              rw [turn_lexeme hp hl, bind_run_error hg]
            rw [bind_run_error hg, bind_run_error ht]
          | ok m =>
            have ht : turn rule r cursor c s = r.settle cursor l m c s₁ := by
              rw [turn_lexeme hp hl, bind_run_ok hg]
            rw [bind_run_ok hg, takeUp_eq]
            cases hs : r.settle cursor l m c s₁ with
            | mk out s₂ =>
              cases out with
              | error e => rw [bind_run_error hs, bind_run_error (ht.trans hs)]
              | ok out => rw [bind_run_ok hs, bind_run_ok (ht.trans hs)]

/-! ## All rounds -/

/-- The rounds from a cursor on, one behind the other and however many there are: where each of them
begins, and what they come to. -/
inductive Turns (rule : Matching) (r : Rounds) (c : Settings) :
    Cursor → State → List Cursor → Except Failure (List Construct) → State → Prop where
  | done {cursor : Cursor} {s s' : State} (h : turn rule r cursor c s = (.ok none, s')) :
      Turns rule r c cursor s [] (.ok []) s'
  | failed {cursor : Cursor} {e : Failure} {s s' : State}
      (h : turn rule r cursor c s = (.error e, s')) : Turns rule r c cursor s [cursor] (.error e) s'
  | next {cursor d : Cursor} {more : List Construct} {s s₁ s' : State} {cs : List Cursor}
      {out : Except Failure (List Construct)} (h : turn rule r cursor c s = (.ok (some (more, d)), s₁))
      (ht : Turns rule r c d s₁ cs out s') :
      Turns rule r c cursor s (cursor :: cs) (out.map (more ++ ·)) s'

/-- Every match of the rule leads forward. -/
def Advances (rule : Matching) (c : Settings) : Prop :=
  ∀ (cursor : Cursor) (name : String) (s : State) (m : Match),
    (rule cursor name c s).1 = .ok (some m) → cursor.Ahead m.cursor

theorem advances_level (c : Settings) (room : Nat) : Advances (level room).match? c :=
  fun cursor name s m h => (Level.advances c room cursor name s m h).ahead

theorem peek_atEnd {cursor : Cursor} (h : (cursor.size : Int) ≤ cursor.index) :
    cursor.peek = .ok none := by
  rw [Cursor.peek, Cursor.atEnd, if_pos (decide_eq_true h)]

/-- A round that does not end the loop begins at a lexeme that is left to read. -/
theorem index_lt_of_turn {cursor : Cursor} {s s' : State}
    {out : Except Failure (Option (List Construct × Cursor))} (h : turn rule r cursor c s = (out, s'))
    (ho : out ≠ .ok none) : cursor.index < cursor.size := by
  by_contra hge
  rw [turn_done (peek_atEnd (by omega))] at h
  cases h
  exact ho rfl

/-- **A round leads forward in the row.** -/
theorem ahead_of_turn (ha : Advances rule c) {cursor d : Cursor} {more : List Construct}
    {s s' : State} (h : turn rule r cursor c s = (.ok (some (more, d)), s')) :
    cursor.Ahead d ∧ cursor.index < d.index := by
  have hlt := index_lt_of_turn h (by simp)
  cases hp : cursor.peek with
  | error e => rw [turn, hp] at h; cases h
  | ok l =>
    cases l with
    | none => rw [turn_done hp] at h; cases h
    | some l =>
      by_cases hl : r.skipComments = true ∧ l.kind = .comment
      · rw [turn_comment hp hl] at h
        cases h
        have hi := Cursor.index_advance hlt
        exact ⟨Cursor.ahead_advance hlt, by omega⟩
      · rw [turn_lexeme hp hl] at h
        obtain ⟨m, s₁, hm, h⟩ | ⟨e, -, he⟩ := bind_run_cases h
        · cases m with
          | none => cases h
          | some m =>
            have hahead : cursor.Ahead m.cursor := by
              obtain ⟨-, hrun⟩ | ⟨-, e, he, -⟩ := Level.guarded_run c rule cursor r.name hm
              · exact ha cursor r.name s m (congrArg Prod.fst hrun)
              · cases he
            unfold Rounds.settle at h
            by_cases hi : m.cursor.index = cursor.index
            · simp only [if_pos hi] at h
              cases h
            · simp only [if_neg hi] at h
              have hd : d = m.cursor := by
                obtain ⟨more', s₂, -, h⟩ | ⟨e, -, he⟩ := bind_run_cases h
                · split at h <;> (cases h; rfl)
                · cases he
              have hle := hahead.le
              exact ⟨hd ▸ hahead, by rw [hd]; omega⟩
        · cases he

theorem unread_lt_of_turn (ha : Advances rule c) {cursor d : Cursor} {more : List Construct}
    {s s' : State} (h : turn rule r cursor c s = (.ok (some (more, d)), s')) :
    d.unread < cursor.unread := by
  obtain ⟨hd, hi⟩ := ahead_of_turn ha h
  have hlt := index_lt_of_turn h (by simp)
  have hsize := hd.row.size_eq
  unfold Cursor.unread
  omega

/-- The rounds begin further and further on, each at a lexeme that is left to read. -/
theorem Turns.places (ha : Advances rule c) {cursor : Cursor} {s s' : State} {cs : List Cursor}
    {out : Except Failure (List Construct)} (h : Turns rule r c cursor s cs out s') :
    cs.Pairwise (·.index < ·.index) ∧ (∀ d ∈ cs, cursor.index ≤ d.index) ∧
      cs.length ≤ cursor.unread := by
  induction h with
  | done => exact ⟨.nil, fun _ hd => absurd hd List.not_mem_nil, Nat.zero_le _⟩
  | @failed cursor _ _ _ h =>
    have hlt := index_lt_of_turn h (by simp)
    refine ⟨List.pairwise_singleton _ _, by simp, ?_⟩
    rw [List.length_singleton, Cursor.unread]
    omega
  | @next cursor d more s s₁ s' cs out h _ ih =>
    obtain ⟨-, hi⟩ := ahead_of_turn ha h
    have hu := unread_lt_of_turn ha h
    obtain ⟨hp, hle, hl⟩ := ih
    refine ⟨List.pairwise_cons.mpr ⟨fun e he => ?_, hp⟩, ?_, ?_⟩
    · exact lt_of_lt_of_le hi (hle e he)
    · exact List.forall_mem_cons.mpr ⟨le_rfl, fun e he => hi.le.trans (hle e he)⟩
    · rw [List.length_cons]
      omega

/-- **The rounds end by themselves.** With a bound that is not below the number of lexemes left to read,
they are what they would be without one. -/
theorem turns_of_rounds (ha : Advances rule c) : ∀ (fuel : Nat) (cursor : Cursor)
    (found : Array Construct) (s : State), cursor.unread ≤ fuel →
    ∃ cs out s', Turns rule r c cursor s cs out s' ∧
      rule.rounds r fuel cursor found c s = (out.map fun more : List Construct => found ++ more, s')
  | 0, cursor, found, s, hn => by
    have hend : (cursor.size : Int) ≤ cursor.index := by
      unfold Cursor.unread at hn
      omega
    exact ⟨[], .ok [], s, .done (turn_done (peek_atEnd hend)), by simp [rounds, Except.map]⟩
  | fuel + 1, cursor, found, s, hn => by
    rw [rounds_succ]
    cases ht : turn rule r cursor c s with
    | mk out s₁ =>
      obtain e | _ | ⟨more, d⟩ := out
      · exact ⟨[cursor], .error e, s₁, .failed ht, by rw [bind_run_error ht]; rfl⟩
      · exact ⟨[], .ok [], s₁, .done ht, by rw [bind_run_ok ht]; simp [resume, Except.map]⟩
      · have hu := unread_lt_of_turn ha ht
        obtain ⟨cs, out, s', hturns, hrest⟩ :=
          turns_of_rounds ha fuel d (found ++ more) s₁ (by omega)
        refine ⟨cursor :: cs, out.map (more ++ ·), s', .next ht hturns, ?_⟩
        rw [bind_run_ok ht, resume, hrest]
        cases out with
        | error e => rfl
        | ok rest =>
          have happ : found ++ more ++ rest = found ++ (more ++ rest) := Array.toList_inj.mp (by simp)
          exact congrArg (fun out => (Except.ok out, s')) happ

end Matching

end Outline
