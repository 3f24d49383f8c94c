import Outline.Proofs.Lexeme.Abreast
import Outline.Proofs.Matching.Advance
import Outline.Proofs.Matching.Finding

/-!
# Rows of terminals

An alternative that speaks of lexemes alone matches just where the lexemes that are next have the kinds and
the texts, one by one.

* `Word`, `Cursor.words`: lexemes without their places; comments are left out;
* `Terminal.takes`, `Terminal.fit`: terminals against the words that are next;
* `Cursor.Passed`: a cursor so many words further on;
* **`Level.matchItems_terminals`**: what becomes of a row of terminals.
-/

namespace Outline

/-! ## Words -/

/-- What a lexeme says, wherever it stands. -/
structure Word where
  kind : Kind
  text : String
deriving DecidableEq, Repr

/-- The word of a lexeme. -/
def Lexeme.word (source : Text) (l : Lexeme) : Word := ⟨l.kind, String.ofList (l.text source)⟩

/-- The words that are left to read. -/
def Cursor.words (c : Cursor) : List Word := c.content.map (·.word c.text)

namespace Terminal

/-- The terminal is for words like this. -/
def takes (t : Terminal) (w : Word) : Bool := w.kind == t.kind && t.accepts w.text.toList

/-- The words start with one for each terminal. -/
def fit : List Terminal → List Word → Bool
  | [], _ => true
  | _ :: _, [] => false
  | t :: ts, w :: ws => t.takes w && fit ts ws

variable {ts : List Terminal} {ws : List Word}

@[simp] theorem fit_nil : fit [] ws = true := by simp [fit]

@[simp] theorem fit_cons_nil {t : Terminal} : fit (t :: ts) [] = false := rfl

@[simp] theorem fit_cons_cons {t : Terminal} {w : Word} :
    fit (t :: ts) (w :: ws) = (t.takes w && fit ts ws) := rfl

theorem length_le_of_fit : ∀ {ts : List Terminal} {ws : List Word}, fit ts ws = true → ts.length ≤ ws.length
  | [], _, _ => Nat.zero_le _
  | t :: ts, w :: ws, h => by
    rw [fit_cons_cons, Bool.and_eq_true] at h
    exact Nat.succ_le_succ (length_le_of_fit h.2)

/-- The words that are taken are of the kinds of the terminals. -/
theorem kind_of_fit : ∀ {ts : List Terminal} {ws : List Word}, fit ts ws = true →
    ∀ w ∈ ws.take ts.length, ∃ t ∈ ts, w.kind = t.kind
  | [], ws, _ => by simp
  | t :: ts, w :: ws, h => by
    rw [fit_cons_cons, Bool.and_eq_true] at h
    rw [List.length_cons, List.take_succ_cons]
    refine List.forall_mem_cons.mpr ⟨⟨t, List.mem_cons_self, ?_⟩, fun w' hw' => ?_⟩
    · have hw := h.1
      simp only [takes, Bool.and_eq_true, beq_iff_eq] at hw
      exact hw.1
    · obtain ⟨t', ht', hk⟩ := kind_of_fit h.2 w' hw'
      exact ⟨t', List.mem_cons_of_mem _ ht', hk⟩

end Terminal

/-! ## Reading -/

namespace Cursor

variable {c d e : Cursor} {m n : Nat}

/-- `d` stands behind the next `n` lexemes that are no comments. -/
structure Passed (c : Cursor) (n : Nat) (d : Cursor) : Prop where
  ahead : c.Ahead d
  content : d.content = c.content.drop n
  lt : 0 < n → c.index < d.index

theorem Passed.refl (c : Cursor) : c.Passed 0 c := ⟨.refl c, rfl, fun h => absurd h (lt_irrefl 0)⟩

theorem Passed.trans (h : c.Passed m d) (h' : d.Passed n e) : c.Passed (m + n) e := by
  refine ⟨h.ahead.trans h'.ahead, by rw [h'.content, h.content, List.drop_drop], fun hmn => ?_⟩
  by_cases hm : 0 < m
  · exact lt_of_lt_of_le (h.lt hm) h'.ahead.le
  · exact lt_of_le_of_lt h.ahead.le (h'.lt (by omega))

theorem Passed.words (h : c.Passed n d) : d.words = c.words.drop n := by
  rw [Cursor.words, h.content, h.ahead.row.1, Cursor.words, List.map_drop]

/-- A lexeme is read, if one is left. -/
theorem passed_of_next {l : Lexeme} (h : c.next = .ok (some l, d)) (hd : c.content = l :: d.content) :
    c.Passed 1 d :=
  have hr := next_eq_some_iff.mp h
  ⟨hr.toAhead, by rw [hd, List.drop_one, List.tail_cons], fun _ => hr.ahead⟩

end Cursor

/-! ## Matching -/

/-- What is collected behind terminals that fit. -/
def Collected.behind (k : Collected) (n : Nat) (d : Cursor) : Collected :=
  k.addAll ((k.cursor.content.take n).map (.ofLexeme · k.cursor.text)) d

namespace Level

variable {below : Level} {c : Settings}

/-- A terminal takes the next lexeme, or does not match. -/
theorem itemAttempt_terminal {t : Terminal} (ht : t.kind ≠ .comment) {k : Collected}
    (hk : 0 ≤ k.cursor.index) {s s' : State} {r : Except Failure (Option Collected)}
    (h : ItemAttempt below c k s (.terminal t) r s') :
    s' = s ∧ ((Terminal.fit [t] k.cursor.words = false ∧ r = .ok none) ∨
      ∃ l d, k.cursor.content = l :: d.content ∧ t.takes (l.word k.cursor.text) = true ∧
        k.cursor.Passed 1 d ∧ r = .ok (some (k.add (.ofLexeme l k.cursor.text) d))) := by
  have hskip : (t.kind != .comment) = true := by simpa using ht
  have htakes : ∀ l : Lexeme, t.takes (l.word k.cursor.text) = true ↔
      l.kind = t.kind ∧ t.accepts (l.text k.cursor.text) = true := fun l => by
    simp [Terminal.takes, Lexeme.word]
  cases h with
  | lost h =>
    rw [hskip] at h
    rcases Cursor.next_content hk with ⟨-, d, hn⟩ | ⟨l, d, hn, -⟩ <;> rw [hn] at h <;> cases h
  | atEnd h =>
    rw [hskip] at h
    rcases Cursor.next_content hk with ⟨hc, -⟩ | ⟨l, d, hn, -⟩
    · exact ⟨rfl, Or.inl ⟨by rw [Cursor.words, hc]; rfl, rfl⟩⟩
    · rw [hn] at h
      cases h
  | @mismatch _ l d h hl =>
    rw [hskip] at h
    rcases Cursor.next_content hk with ⟨-, d', hn⟩ | ⟨l', d', hn, -, hc⟩ <;> rw [hn] at h <;> cases h
    rw [(Cursor.next_eq_some_iff.mp hn).row.1, ← htakes, Bool.not_eq_true] at hl
    exact ⟨rfl, Or.inl ⟨by simp [Cursor.words, hc, hl], rfl⟩⟩
  | @lexeme _ l d h hl =>
    rw [hskip] at h
    rcases Cursor.next_content hk with ⟨-, d', hn⟩ | ⟨l', d', hn, -, hc⟩ <;> rw [hn] at h <;> cases h
    have htext := (Cursor.next_eq_some_iff.mp hn).row.1
    rw [htext, ← htakes] at hl
    refine ⟨rfl, Or.inr ⟨l, d, hc, hl, Cursor.passed_of_next hn hc, ?_⟩⟩
    rw [Collected.addLexeme_eq, htext]

/-- **A row of terminals matches just where the next words fit it**, and takes as many of them. -/
theorem matchItems_terminals : ∀ {ts : List Terminal}, (∀ t ∈ ts, t.kind ≠ .comment) →
    ∀ {k : Collected} {s s' : State} {r : Except Failure (Option Collected)}, 0 ≤ k.cursor.index →
      below.matchItems (ts.map .terminal) k c s = (r, s') →
        s' = s ∧ ((Terminal.fit ts k.cursor.words = false ∧ r = .ok none) ∨
          Terminal.fit ts k.cursor.words = true ∧ ∃ d, k.cursor.Passed ts.length d ∧
            r = .ok (some (k.behind ts.length d)))
  | [], _, k, s, s', r, hk, h => by
    cases h
    refine ⟨rfl, Or.inr ⟨Terminal.fit_nil, k.cursor, .refl _, ?_⟩⟩
    simp [Collected.behind, Collected.addAll_nil]
  | t :: ts, hts, k, s, s', r, hk, h => by
    obtain ⟨ht, hts⟩ := List.forall_mem_cons.mp hts
    have hmiss : Terminal.fit [t] k.cursor.words = false → Terminal.fit (t :: ts) k.cursor.words = false := by
      cases k.cursor.words <;> simp +contextual
    rcases matchItems_cons below c h with ⟨e, he, rfl⟩ | ⟨he, rfl⟩ | ⟨k', s₁, he, h⟩
    · obtain ⟨-, ⟨-, hr⟩ | ⟨l, d, -, -, -, hr⟩⟩ := itemAttempt_terminal ht hk he <;> cases hr
    · obtain ⟨rfl, ⟨hfit, -⟩ | ⟨l, d, -, -, -, hr⟩⟩ := itemAttempt_terminal ht hk he
      · exact ⟨rfl, Or.inl ⟨hmiss hfit, rfl⟩⟩
      · cases hr
    · obtain ⟨rfl, ⟨-, hr⟩ | ⟨l, d, hc, htakes, hd, hr⟩⟩ := itemAttempt_terminal ht hk he <;> cases hr
      have hwords : k.cursor.words = l.word k.cursor.text :: d.words := by
        rw [Cursor.words, hc, Cursor.words, hd.ahead.row.1, List.map_cons]
      have hfit : Terminal.fit (t :: ts) k.cursor.words = Terminal.fit ts d.words := by
        rw [hwords, Terminal.fit_cons_cons, htakes, Bool.true_and]
      rw [hfit]
      obtain ⟨rfl, ⟨hf, rfl⟩ | ⟨hf, e, he, rfl⟩⟩ :=
        matchItems_terminals hts (show 0 ≤ d.index from hk.trans hd.ahead.le) h
      · exact ⟨rfl, Or.inl ⟨hf, rfl⟩⟩
      · refine ⟨rfl, Or.inr ⟨hf, e, ?_, ?_⟩⟩
        · rw [List.length_cons, Nat.add_comm]
          exact hd.trans he
        · show Except.ok (some ((k.add _ d).addAll ((d.content.take ts.length).map
            (.ofLexeme · d.text)) e)) = _
          rw [Collected.addAll_cons, Collected.behind, hc, hd.ahead.row.1]
          rfl

end Level

end Outline
