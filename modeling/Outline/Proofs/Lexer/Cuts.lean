import Outline.Proofs.Lexer.Piece

/-!
# Successful cuts

How the lexemes of a stretch come about that is cut to its end, piece by piece.

* `Lexer.Cuts`: the lexemes from an offset on, with a rule for each sort of piece;
* **`Lexer.cuts_iff`**: these are the scans that do not halt;
* `Scan.result`, `Lexer.lex_eq`, **`Lexer.lex_eq_ok_iff`**: the lexemes of a stretch, and when there are
  any;
* `Kind.ofBrackets`, `Lexer.kind_of_passed`: the lexemes that come from brackets;
* `Lexer.Cuts.group_of_mem`: the lexemes that are groups close.
-/

namespace Outline

open Alphabet

/-- The kinds of lexemes that come from brackets. -/
def Kind.ofBrackets : List Kind := [.openParen, .closeParen, .semanticList]

@[simp] theorem Scan.halt_cons (l : Option Lexeme) (s : Scan) : (s.cons l).halt = s.halt := by
  cases l <;> rfl

namespace Lexer

variable {x : Lexer} {t : Text} {stop : Nat} {limit : Option Int}

/-- The lexemes from an offset on, at some depth in brackets: blanks, comments, symbols and the like are
passed over, brackets that are not too deep are lexemes, and groups that are too deep close. -/
inductive Cuts (x : Lexer) (t : Text) (stop : Nat) (limit : Option Int) :
    (depth i : Nat) → List Lexeme → Prop where
  | done {depth i : Nat} (hi : stop ≤ i) : Cuts x t stop limit depth i []
  | passed {depth i j : Nat} {l : Option Lexeme} {ls : List Lexeme} (hi : i < stop)
      (h : x.pieceAt t stop i = .ok (.passed l j)) (hr : Cuts x t stop limit depth j ls) :
      Cuts x t stop limit depth i (l.toList ++ ls)
  | opens {depth i : Nat} {closer : List Char} {ls : List Lexeme} (hi : i < stop)
      (h : x.pieceAt t stop i = .ok (.opener closer))
      (hl : limit.all ((depth : Int) < ·) = true) (hr : Cuts x t stop limit (depth + 1) (i + 1) ls) :
      Cuts x t stop limit depth i (.between .openParen i (i + 1) :: ls)
  | group {depth i e : Nat} {closer : List Char} {ls : List Lexeme} (hi : i < stop)
      (h : x.pieceAt t stop i = .ok (.opener closer))
      (hl : ¬ limit.all ((depth : Int) < ·) = true)
      (hg : x.alphabet.Closes t stop closer (i + 1) e) (hr : Cuts x t stop limit depth e ls) :
      Cuts x t stop limit depth i (.between .semanticList i e :: ls)
  | closes {depth i : Nat} {ls : List Lexeme} (hi : i < stop) (h : x.pieceAt t stop i = .ok .closer)
      (hr : Cuts x t stop limit (depth - 1) (i + 1) ls) :
      Cuts x t stop limit depth i (.between .closeParen i (i + 1) :: ls)

theorem cons_eq_done {l : Option Lexeme} {s : Scan} {ls : List Lexeme}
    (h : s.cons l = ⟨ls, none⟩) : ∃ rest, s = ⟨rest, none⟩ ∧ ls = l.toList ++ rest := by
  obtain ⟨rest, halt⟩ := s
  cases l with
  | none => cases h; exact ⟨_, rfl, rfl⟩
  | some l => cases h; exact ⟨_, rfl, rfl⟩

section

variable (hx : x.extensions = []) (hm : x.alphabet.Marked) (ht : stop ≤ t.length)
include hx hm ht

theorem Cuts.scanAt_eq {depth i : Nat} {ls : List Lexeme} (h : x.Cuts t stop limit depth i ls) :
    x.scanAt t stop limit depth i = ⟨ls, none⟩ := by
  induction h with
  | done hi => exact scanAt_end hi
  | @passed _ _ _ l _ hi h _ ih =>
    rw [scanAt_step hx hm hi ht, h]
    simp only [Except.bind, stepOf]
    rw [ih]
    cases l <;> rfl
  | opens hi h hl _ ih =>
    rw [scanAt_step hx hm hi ht, h]
    simp only [Except.bind, stepOf, if_pos hl]
    rw [ih]
    rfl
  | group hi h hl hg _ ih =>
    rw [scanAt_step hx hm hi ht, h]
    simp only [Except.bind, stepOf, if_neg hl, (groupFrom_eq_ok_iff hm ht).mpr hg, Except.map]
    rw [ih]
    rfl
  | closes hi h _ ih =>
    rw [scanAt_step hx hm hi ht, h]
    simp only [Except.bind, stepOf]
    rw [ih]
    rfl

theorem cuts_of_scanAt : ∀ (n : Nat) {depth i : Nat} {ls : List Lexeme}, stop - i ≤ n →
    x.scanAt t stop limit depth i = ⟨ls, none⟩ → x.Cuts t stop limit depth i ls
  | n, depth, i, ls, hn, h => by
    by_cases hi : i < stop
    · obtain ⟨n, rfl⟩ : ∃ m, n = m + 1 := ⟨n - 1, by omega⟩
      rw [scanAt_step hx hm hi ht] at h
      cases hs : (x.pieceAt t stop i).bind (x.stepOf t stop limit depth i) with
      | error e => rw [hs] at h; cases h
      | ok s =>
        have hlt := resume_of_step hm hi ht hs
        rw [hs] at h
        obtain ⟨rest, hrest, rfl⟩ := cons_eq_done h
        have hcuts := cuts_of_scanAt n (by omega) hrest
        cases stepAt_of_step hs with
        | passed hp => exact .passed hi hp hcuts
        | opens hp hl => exact .opens hi hp hl hcuts
        | group hp hl hg => exact .group hi hp hl ((groupFrom_eq_ok_iff hm ht).mp hg) hcuts
        | closes hp => exact .closes hi hp hcuts
    · rw [scanAt_end (by omega)] at h
      cases h
      exact .done (by omega)

/-- **A scan does not halt just if its lexemes come about piece by piece.** -/
theorem cuts_iff {depth i : Nat} {ls : List Lexeme} : x.Cuts t stop limit depth i ls ↔
    x.scanAt t stop limit depth i = ⟨ls, none⟩ :=
  ⟨Cuts.scanAt_eq hx hm ht, cuts_of_scanAt hx hm ht _ (Nat.le_refl _)⟩

end

end Lexer

/-! ## Whole stretches -/

/-- The lexemes of a scan, or the error that its halt comes to. -/
def Scan.result (t : Text) (s : Scan) : Except LexError (List Lexeme) :=
  match s.halt with
  | none => .ok s.lexemes
  | some h => .error (.ofHalt t h)

namespace Lexer

variable {x : Lexer} {t : Text} {limit stop : Option Int} {start : Int} {s e : Nat} {c : Cursor}

/-- A stretch that the text has is lexed by a scan. -/
theorem lex_eq (he : stop.getD t.length = e) (hse : s ≤ e) (ht : e ≤ t.length) :
    x.lex t s stop limit =
      ((x.scanAt t e limit 0 s).result t).map fun ls => ⟨t, ls.toArray, s, e, 0⟩ := by
  have hr : 0 ≤ (s : Int) ∧ (s : Int) ≤ stop.getD t.length ∧ stop.getD t.length ≤ t.length := by omega
  have hscan : x.scan t (s : Int).toNat (stop.getD t.length).toNat limit = x.scanAt t e limit 0 s := by
    rw [he]
    rfl
  rw [lex, if_pos hr]
  simp only [hscan]
  rw [he]
  unfold Scan.result
  cases (x.scanAt t e limit 0 s).halt <;> rfl

/-- Only a stretch that the text has is lexed. -/
theorem range_of_lex (h : x.lex t start stop limit = .ok c) :
    ∃ s e : Nat, start = s ∧ stop.getD t.length = e ∧ s ≤ e ∧ e ≤ t.length := by
  rw [lex] at h
  by_cases hr : 0 ≤ start ∧ start ≤ stop.getD t.length ∧ stop.getD t.length ≤ t.length
  · exact ⟨start.toNat, (stop.getD t.length).toNat, by omega⟩
  · rw [if_neg hr] at h
    cases h

/-- **A stretch is lexed if the text has it and its lexemes come about piece by piece.** -/
theorem lex_eq_ok_iff (hx : x.extensions = []) (hm : x.alphabet.Marked) :
    x.lex t start stop limit = .ok c ↔ ∃ s e : Nat, start = s ∧ stop.getD t.length = e ∧ s ≤ e ∧
      e ≤ t.length ∧ ∃ ls, x.Cuts t e limit 0 s ls ∧ c = ⟨t, ls.toArray, s, e, 0⟩ := by
  constructor
  · intro h
    obtain ⟨s, e, rfl, he, hse, ht⟩ := range_of_lex h
    refine ⟨s, e, rfl, he, hse, ht, ?_⟩
    rw [lex_eq he hse ht] at h
    cases hs : x.scanAt t e limit 0 s with
    | mk ls halt =>
      rw [hs] at h
      cases halt with
      | some halt => cases h
      | none =>
        cases h
        exact ⟨ls, (cuts_iff hx hm ht).mpr hs, rfl⟩
  · rintro ⟨s, e, rfl, he, hse, ht, ls, hc, rfl⟩
    rw [lex_eq he hse ht, (cuts_iff hx hm ht).mp hc]
    rfl

end Lexer

/-! ## Kinds -/

namespace Lexer

variable {x : Lexer} {t : Text} {stop : Nat}

theorem symbolKind_cases (x : Lexer) (cs : List Char) :
    x.symbolKind cs = .symbol ∨ ∃ p ∈ x.keywords, p.2 = x.symbolKind cs := by
  unfold symbolKind
  cases h : x.keywords.find? (·.1 == String.ofList cs) with
  | none => exact Or.inl rfl
  | some p => exact Or.inr ⟨p, List.mem_of_find?_eq_some h, rfl⟩

/-- What is passed over is no lexeme of a bracket, unless a keyword says so. -/
theorem kind_of_passed {i j : Nat} {l : Lexeme} (h : x.pieceAt t stop i = .ok (.passed (some l) j))
    {k : Kind} (hk : k ∈ Kind.ofBrackets) (hw : ∀ p ∈ x.keywords, p.2 ≠ k) : l.kind ≠ k := by
  have hne : ∀ k ∈ Kind.ofBrackets, k ≠ .symbol ∧
      k ∉ [Kind.newline, .comment, .charquote, .string, .punctuation] := by decide
  obtain ⟨hsymbol, hother⟩ := hne k hk
  obtain ⟨kind, rfl, rfl | hkind⟩ := lexeme_of_passed h
  · obtain hsym | ⟨p, hp, hsym⟩ := x.symbolKind_cases (x.symbolAt t stop i)
    · simp only [Lexeme.between, hsym]
      exact hsymbol.symm
    · simp only [Lexeme.between, ← hsym]
      exact hw p hp
  · rintro rfl
    exact hother hkind

theorem closerOf?_of_opener {i : Nat} {closer : List Char}
    (h : x.pieceAt t stop i = .ok (.opener closer)) : x.alphabet.closerOf? (t.charAt i) = some closer := by
  have hs := x.stands t stop i
  rw [h] at hs
  cases hs with
  | opener _ _ _ hr =>
    unfold role at hr
    split at hr
    · cases hr
    · split at hr
      · next hc =>
        cases hr
        exact hc
      · split at hr
        · cases hr
        · split at hr <;> cases hr

/-- The lexemes that are groups close. -/
theorem Cuts.group_of_mem (hk : ∀ p ∈ x.keywords, p.2 ≠ .semanticList) {limit : Option Int}
    {depth i : Nat} {ls : List Lexeme} (h : x.Cuts t stop limit depth i ls) :
    ∀ l ∈ ls, l.kind = .semanticList → ∃ s e closer, l = .between .semanticList s e ∧
      x.pieceAt t stop s = .ok (.opener closer) ∧ x.alphabet.Closes t stop closer (s + 1) e := by
  have ho : Kind.openParen ≠ Kind.semanticList := by decide
  have hc : Kind.closeParen ≠ Kind.semanticList := by decide
  induction h with
  | done => exact fun l hl => absurd hl List.not_mem_nil
  | @passed depth i j l ls _ h _ ih =>
    intro l' hl' hkind
    obtain hl' | hl' := List.mem_append.mp hl'
    · obtain rfl := Option.mem_toList.mp hl'
      exact absurd hkind (kind_of_passed h (by decide) hk)
    · exact ih l' hl' hkind
  | opens _ _ _ _ ih =>
    intro l hl hkind
    obtain rfl | hl := List.mem_cons.mp hl
    · exact absurd hkind ho
    · exact ih l hl hkind
  | @group depth i e closer ls _ h _ hg _ ih =>
    intro l hl hkind
    obtain rfl | hl := List.mem_cons.mp hl
    · exact ⟨i, e, closer, rfl, h, hg⟩
    · exact ih l hl hkind
  | closes _ _ _ ih =>
    intro l hl hkind
    obtain rfl | hl := List.mem_cons.mp hl
    · exact absurd hkind hc
    · exact ih l hl hkind

end Lexer

end Outline
