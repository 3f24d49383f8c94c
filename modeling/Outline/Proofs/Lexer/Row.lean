import Outline.Proofs.Lexer.Cuts

/-!
# Lexemes come in order

The lexemes of a stretch lie in the stretch, one behind the other, and only a comment can be empty. Nothing
is asked of the alphabet.

* `Lexeme.InRow`: lexemes in order between two offsets;
* `Lexer.extent_of_step`: the lexeme that is read at an offset;
* `Lexer.inRow_scanAt`, **`Lexer.inRow_of_lex`**: the lexemes of a stretch.
-/

namespace Outline

/-- Lexemes between two offsets, in order and one behind the other. Only a comment may be empty. -/
structure Lexeme.InRow (start stop : Nat) (ls : List Lexeme) : Prop where
  within : ∀ l ∈ ls, (start : Int) ≤ l.start ∧ l.start ≤ l.stop ∧ l.stop ≤ stop
  filled : ∀ l ∈ ls, l.kind ≠ .comment → l.start < l.stop
  apart : ls.Pairwise fun k l => k.start < l.start ∧ k.stop ≤ l.start

namespace Lexeme.InRow

variable {start stop next : Nat} {ls : List Lexeme}

theorem nil : InRow start stop [] := ⟨by simp, by simp, .nil⟩

theorem mono (h : InRow next stop ls) (hn : start ≤ next) : InRow start stop ls := by
  refine ⟨fun l hl => ?_, h.filled, h.apart⟩
  have hw := h.within l hl
  omega

/-- A lexeme goes in front of those behind its start and its end. -/
theorem cons {l : Lexeme} (h : InRow next stop ls) (hl : (start : Int) ≤ l.start ∧ l.start ≤ l.stop)
    (hs : l.stop ≤ stop) (hf : l.kind ≠ .comment → l.start < l.stop) (hn : l.start < next)
    (hn' : l.stop ≤ next) : InRow start stop (l :: ls) := by
  refine ⟨List.forall_mem_cons.mpr ⟨⟨hl.1, hl.2, hs⟩, fun k hk => ?_⟩,
    List.forall_mem_cons.mpr ⟨hf, h.filled⟩, List.pairwise_cons.mpr ⟨fun k hk => ?_, h.apart⟩⟩
  · have hw := h.within k hk
    omega
  · have hw := h.within k hk
    omega

end Lexeme.InRow

/-- A group ends behind its opener and within the characters. -/
theorem groupEnd_bounds {a : Alphabet} {stop opening : Nat} {opener : Char} :
    ∀ {cs : List Char} {skip i j : Nat} {closer : List Char} {outer : List (List Char)},
      groupEnd a stop opening opener skip closer outer i cs = .ok j → i < j ∧ j ≤ i + cs.length
  | [], skip, i, j, _, _, h => by
    rw [groupEnd.eq_def] at h
    exact absurd h ranOut_ne_ok
  | _ :: cs, skip + 1, i, j, _, _, h => by
    rw [groupEnd] at h
    have hb := groupEnd_bounds h
    rw [List.length_cons]
    omega
  | c :: cs, 0, i, j, closer, outer, h => by
    have hrest : ∀ skip closer outer,
        groupEnd a stop opening opener skip closer outer (i + 1) cs = .ok j →
          i < j ∧ j ≤ i + (c :: cs).length := by
      intro skip closer outer h
      have hb := groupEnd_bounds h
      rw [List.length_cons]
      omega
    rw [groupEnd.eq_def] at h
    simp only at h
    split at h
    · exact hrest _ _ _ h
    · split at h
      · exact hrest _ _ _ h
      · split at h
        · split at h
          · split at h
            · cases h
              rw [List.length_cons]
              omega
            · exact hrest _ _ _ h
          · cases h
        · split at h
          · split at h
            · cases h
            · exact hrest _ _ _ h
          · split at h
            · split at h
              · cases h
              · exact hrest _ _ _ h
            · exact hrest _ _ _ h

namespace Lexer

variable {x : Lexer} {t : Text} {stop i : Nat} {limit : Option Int} {depth : Nat}

/-- What the piece at an offset says about the lexeme that is read there. -/
theorem extent_of_pieceAt (hi : i < stop) (ht : stop ≤ t.length) {l : Option Lexeme} {j : Nat}
    (h : x.pieceAt t stop i = .ok (.passed l j)) :
    i ≤ j ∧ j ≤ stop ∧ ∀ k ∈ l, k.start = i ∧ k.stop = j ∧ (k.kind ≠ .comment → i < j) := by
  have hs := x.stands t stop i
  rw [h] at hs
  cases hs with
  | blank =>
    refine ⟨by omega, by omega, fun k hk => ?_⟩
    split at hk <;> cases hk
    exact ⟨rfl, rfl, fun _ => Nat.lt_succ_self i⟩
  | comment _ hk he =>
    have hb := Alphabet.comment_bounds hi hk he
    refine ⟨by omega, hb.2, fun k hk => ?_⟩
    split at hk <;> cases hk
    exact ⟨rfl, rfl, fun hne => absurd rfl hne⟩
  | symbol _ _ hc =>
    have hb := symbolAt_bounds hi ht hc
    refine ⟨by omega, hb.2, ?_⟩
    rintro k ⟨⟩
    exact ⟨rfl, rfl, fun _ => by omega⟩
  | escape =>
    refine ⟨by omega, by omega, ?_⟩
    rintro k ⟨⟩
    exact ⟨rfl, rfl, fun _ => by omega⟩
  | string _ _ _ _ he =>
    have hb := Alphabet.string_bounds hi he
    refine ⟨by omega, hb.2, ?_⟩
    rintro k ⟨⟩
    exact ⟨rfl, rfl, fun _ => hb.1⟩
  | punctuation =>
    refine ⟨by omega, by omega, ?_⟩
    rintro k ⟨⟩
    exact ⟨rfl, rfl, fun _ => Nat.lt_succ_self i⟩

theorem extent_of_step (hi : i < stop) (ht : stop ≤ t.length) {s : LexStep}
    (h : (x.pieceAt t stop i).bind (x.stepOf t stop limit depth i) = .ok s) :
    i ≤ s.resume ∧ s.resume ≤ stop ∧
      ∀ k ∈ s.lexeme, k.start = i ∧ k.stop = s.resume ∧ (k.kind ≠ .comment → i < s.resume) := by
  cases stepAt_of_step h with
  | passed hp => exact extent_of_pieceAt hi ht hp
  | opens | closes =>
    refine ⟨Nat.le_succ i, hi, ?_⟩
    rintro k ⟨⟩
    exact ⟨rfl, rfl, fun _ => Nat.lt_succ_self i⟩
  | group _ _ hg =>
    have hb := groupEnd_bounds hg
    rw [Text.length_range_of_le ht] at hb
    refine ⟨by simp only; omega, by simp only; omega, ?_⟩
    rintro k ⟨⟩
    exact ⟨rfl, rfl, fun _ => by simp only; omega⟩

/-- The lexemes from an offset on are in order, also if cutting halts. -/
theorem inRow_scanAt (hx : x.extensions = []) (ht : stop ≤ t.length) : ∀ (n : Nat) {depth i : Nat},
    stop - i ≤ n → Lexeme.InRow i stop (x.scanAt t stop limit depth i).lexemes
  | n, depth, i, hn => by
    by_cases hi : i < stop
    · obtain ⟨n, rfl⟩ : ∃ m, n = m + 1 := ⟨n - 1, by omega⟩
      rw [scanAt, Text.range_eq_cons hi ht, scanFrom, step_eq hx hi ht]
      cases hp : (x.pieceAt t stop i).bind (x.stepOf t stop limit depth i) with
      | error h => exact .nil
      | ok s =>
        obtain ⟨h1, h2, h3⟩ := extent_of_step hi ht hp
        simp only
        rw [scanFrom_skip ht]
        have hrest : Lexeme.InRow (i + 1 + (s.resume - i - 1)) stop
            (x.scanAt t stop limit s.depth (i + 1 + (s.resume - i - 1))).lexemes :=
          inRow_scanAt hx ht n (by omega)
        cases hl : s.lexeme with
        | none => exact hrest.mono (by omega)
        | some l =>
          obtain ⟨h4, h5, h6⟩ := h3 l hl
          exact hrest.cons (by omega) (by omega) (fun hk => by have := h6 hk; omega) (by omega)
            (by omega)
    · rw [scanAt_end (by omega)]
      exact .nil

/-- **The lexemes of a stretch are in order.** -/
theorem inRow_of_lex (hx : x.extensions = []) {start : Int} {stop : Option Int} {c : Cursor}
    (h : x.lex t start stop limit = .ok c) :
    c.start ≤ c.stop ∧ c.stop ≤ c.text.length ∧ c.index = 0 ∧
      Lexeme.InRow c.start c.stop c.lexemes.toList := by
  obtain ⟨s, e, rfl, he, hse, ht⟩ := range_of_lex h
  rw [lex_eq he hse ht] at h
  unfold Scan.result at h
  split at h
  · cases h
    exact ⟨hse, ht, rfl, inRow_scanAt hx ht _ (Nat.le_refl _)⟩
  · cases h

end Lexer

end Outline
