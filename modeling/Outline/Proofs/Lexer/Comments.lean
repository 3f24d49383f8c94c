import Outline.Lexer
import Outline.Proofs.Lexeme.Abreast

/-!
# Lexemes of comments

A lexer that makes lexemes of comments and one that does not cut a text alike: they fail at the same place
for the same reason, or their lexemes differ in comments alone.

* `Lexer.ignoring`: the lexer with and without lexemes for comments;
* `LexStep.Alike`, `Lexer.step_ignoring`: one step of both;
* `Lexer.scanFrom_ignoring`, **`Lexer.lex_ignoring`**: all the lexemes of a stretch.
-/

namespace Outline

open Lexeme

/-- The steps lead to the same place, and what they read differs in comments alone. -/
structure LexStep.Alike (s s' : LexStep) : Prop where
  lexeme : spoken s'.lexeme.toList = spoken s.lexeme.toList
  resume : s'.resume = s.resume
  depth : s'.depth = s.depth

theorem LexStep.Alike.refl (s : LexStep) : s.Alike s := ⟨rfl, rfl, rfl⟩

namespace Lexer

variable (x : Lexer) (b b' : Bool) (text : Text) (stop : Nat) (limit : Option Int)

/-- The lexer, which passes comments over or makes lexemes of them. -/
def ignoring : Lexer := { x with ignoreComments := b }

/-- A comment is where the steps may differ. -/
theorem step_ignoring (depth i : Nat) (c : Char) (cs : List Char) :
    (∃ halt, (x.ignoring b).step text stop limit depth i c cs = .error halt ∧
      (x.ignoring b').step text stop limit depth i c cs = .error halt) ∨
    ∃ s s', (x.ignoring b).step text stop limit depth i c cs = .ok s ∧
      (x.ignoring b').step text stop limit depth i c cs = .ok s' ∧ s.Alike s' := by
  have hsame : (x.ignoring b).step text stop limit depth i c cs =
        (x.ignoring b').step text stop limit depth i c cs →
      (∃ halt, (x.ignoring b).step text stop limit depth i c cs = .error halt ∧
        (x.ignoring b').step text stop limit depth i c cs = .error halt) ∨
      ∃ s s', (x.ignoring b).step text stop limit depth i c cs = .ok s ∧
        (x.ignoring b').step text stop limit depth i c cs = .ok s' ∧ s.Alike s' := by
    intro heq
    rw [← heq]
    rcases (x.ignoring b).step text stop limit depth i c cs with halt | s
    · exact Or.inl ⟨halt, rfl, rfl⟩
    · exact Or.inr ⟨s, s, rfl, rfl, .refl s⟩
  by_cases hblank : x.alphabet.blanks.contains c = true
  · refine hsame ?_
    simp only [step, ignoring, hblank, if_true]
    rfl
  · rcases hc : x.alphabet.commentAt (c :: cs) with _ | comment
    · refine hsame ?_
      simp only [step, ignoring, hblank, hc]
      rfl
    · simp only [step, ignoring, hblank, hc]
      rcases commentEnd comment stop i (c :: cs) with halt | e
      · exact Or.inl ⟨halt, rfl, rfl⟩
      · refine Or.inr ⟨_, _, rfl, rfl, ?_, rfl, rfl⟩
        cases b <;> cases b' <;> rfl

/-- Two scans halt alike, and their lexemes differ in comments alone. -/
theorem scanFrom_ignoring (cs : List Char) : ∀ skip depth i : Nat,
    ((x.ignoring b').scanFrom text stop limit skip depth i cs).halt =
        ((x.ignoring b).scanFrom text stop limit skip depth i cs).halt ∧
      spoken ((x.ignoring b').scanFrom text stop limit skip depth i cs).lexemes =
        spoken ((x.ignoring b).scanFrom text stop limit skip depth i cs).lexemes := by
  have hcons : ∀ (l : Option Lexeme) (s : Scan),
      (s.cons l).halt = s.halt ∧ spoken (s.cons l).lexemes = spoken l.toList ++ spoken s.lexemes := by
    rintro (_ | l) s
    · exact ⟨rfl, rfl⟩
    · refine ⟨rfl, ?_⟩
      show spoken (l :: s.lexemes) = spoken ([l] ++ []) ++ spoken s.lexemes
      simp only [spoken_cons, List.append_nil, spoken_nil]
      split <;> rfl
  induction cs with
  | nil => exact fun skip depth i => ⟨by simp only [scanFrom], by simp only [scanFrom]⟩
  | cons c cs ih =>
    intro skip depth i
    cases skip with
    | succ skip =>
      simp only [scanFrom]
      exact ih skip depth (i + 1)
    | zero =>
      simp only [scanFrom]
      rcases x.step_ignoring b b' text stop limit depth i c cs with
        ⟨halt, h, h'⟩ | ⟨s, s', h, h', hs⟩
      · rw [h, h']
        exact ⟨rfl, rfl⟩
      · rw [h, h']
        simp only
        rw [(hcons _ _).1, (hcons _ _).1, (hcons _ _).2, (hcons _ _).2, hs.lexeme, hs.resume, hs.depth]
        have hrest := ih (s.resume - i - 1) s.depth (i + 1)
        exact ⟨hrest.1, by rw [hrest.2]⟩

/-- **With and without lexemes for comments a text is cut alike.** -/
theorem lex_ignoring (start : Int) (stop : Option Int) :
    (∃ e, (x.ignoring b).lex text start stop limit = .error e ∧
      (x.ignoring b').lex text start stop limit = .error e) ∨
    ∃ c c', (x.ignoring b).lex text start stop limit = .ok c ∧
      (x.ignoring b').lex text start stop limit = .ok c' ∧ c.Alike c' := by
  unfold lex
  dsimp only
  by_cases hr : 0 ≤ start ∧ start ≤ stop.getD text.length ∧ stop.getD text.length ≤ text.length
  · rw [if_pos hr, if_pos hr]
    unfold scan
    obtain ⟨hhalt, hlexemes⟩ := x.scanFrom_ignoring b b' text (stop.getD text.length).toNat limit
      (text.range start.toNat (stop.getD text.length).toNat) 0 0 start.toNat
    rw [hhalt]
    split
    · exact Or.inl ⟨_, rfl, rfl⟩
    · exact Or.inr ⟨_, _, rfl, rfl, rfl, rfl, rfl, le_rfl, le_rfl, hlexemes⟩
  · rw [if_neg hr, if_neg hr]
    exact Or.inl ⟨_, rfl, rfl⟩

end Lexer

end Outline
