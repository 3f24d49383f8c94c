import Outline.Lexer
import Outline.Proofs.Lexer.Group

/-!
# Lexing piece by piece

Without extensions a lexer reads a piece at a time, and which piece stands at an offset depends neither
on the depth nor on how deep it looks into brackets.

* `Lexer.Piece`, `Lexer.pieceAt`, `Lexer.Stands`: what stands at an offset, and why;
* `Lexer.StepAt`: what a step makes of the piece at its offset;
* `Lexer.scanAt`, **`Lexer.scanAt_step`**: the lexemes from an offset on, and the first of them;
* `Lexer.pieceAt_bound`: pieces of shorter stretches.
-/

namespace Outline

/-- The lexeme of a kind between two offsets that are not below zero. -/
def Lexeme.between (kind : Kind) (start stop : Nat) : Lexeme := ⟨kind, start, stop⟩

namespace Lexer

/-- What stands at an offset: something of a fixed end, with a lexeme or without, or a bracket. -/
inductive Piece where
  | passed (lexeme : Option Lexeme) (resume : Nat)
  | opener (closer : List Char)
  | closer

/-- The characters of a symbol that starts at an offset. -/
def symbolAt (x : Lexer) (t : Text) (stop i : Nat) : List Char :=
  (t.range i stop).takeWhile x.alphabet.isSymbolChar

/-- The piece that is no blank, no comment and no symbol. -/
def markAt (x : Lexer) (t : Text) (stop i : Nat) : Except Halt Piece :=
  match x.alphabet.role (t.charAt i) with
  | .escape => .ok (.passed (some (.between .charquote i (min (i + 2) stop))) (min (i + 2) stop))
  | .opener closer => .ok (.opener closer)
  | .closer => .ok .closer
  | .quote =>
    (stringEnd x.alphabet stop i (t.charAt i) (i + 1) (t.range (i + 1) stop)).map fun e =>
      .passed (some (.between .string i e)) e
  | .other =>
    if x.alphabet.punctuation.contains (t.charAt i) then
      .ok (.passed (some (.between .punctuation i (i + 1))) (i + 1))
    else .error (.fault i (.unrecognised (t.charAt i)))

/-- The piece that stands at an offset. -/
def pieceAt (x : Lexer) (t : Text) (stop i : Nat) : Except Halt Piece :=
  if x.alphabet.blanks.contains (t.charAt i) then
    .ok (.passed
      (if t.charAt i = '\n' ∧ x.newlines then some (.between .newline i (i + 1)) else none) (i + 1))
  else match x.alphabet.commentAt (t.range i stop) with
    | some k => (commentEnd k stop i (t.range i stop)).map fun e =>
        .passed (if x.ignoreComments then none else some (.between .comment i e)) e
    | none =>
      if x.alphabet.isSymbolChar (t.charAt i) then
        .ok (.passed (some (.between (x.symbolKind (x.symbolAt t stop i)) i
          (i + (x.symbolAt t stop i).length))) (i + (x.symbolAt t stop i).length))
      else x.markAt t stop i

/-- The lexemes from an offset on. -/
def scanAt (x : Lexer) (t : Text) (stop : Nat) (limit : Option Int) (depth i : Nat) : Scan :=
  x.scanFrom t stop limit 0 depth i (t.range i stop)

variable {x : Lexer} {t : Text} {stop i : Nat} {limit : Option Int} {depth : Nat}

theorem symbolAt_bounds (hi : i < stop) (ht : stop ≤ t.length)
    (hc : x.alphabet.isSymbolChar (t.charAt i) = true) :
    1 ≤ (x.symbolAt t stop i).length ∧ i + (x.symbolAt t stop i).length ≤ stop := by
  have hlen := Text.length_range_of_le (i := i) ht
  have hle := (List.takeWhile_prefix x.alphabet.isSymbolChar (l := t.range i stop)).length_le
  have hcons : x.symbolAt t stop i =
      t.charAt i :: (t.range (i + 1) stop).takeWhile x.alphabet.isSymbolChar := by
    rw [symbolAt, Text.range_eq_cons hi ht, List.takeWhile_cons_of_pos hc]
  refine ⟨?_, ?_⟩
  · rw [hcons]
    simp
  · change i + ((t.range i stop).takeWhile _).length ≤ stop
    omega

/-- What stands at an offset, and what the text has there that makes it so. -/
inductive Stands (x : Lexer) (t : Text) (stop i : Nat) : Except Halt Piece → Prop where
  | blank (hb : x.alphabet.blanks.contains (t.charAt i) = true) :
      Stands x t stop i (.ok (.passed
        (if t.charAt i = '\n' ∧ x.newlines then some (.between .newline i (i + 1)) else none) (i + 1)))
  | comment {k : Comment} {e : Nat} (hb : ¬ x.alphabet.blanks.contains (t.charAt i) = true)
      (hk : x.alphabet.commentAt (t.range i stop) = some k)
      (he : commentEnd k stop i (t.range i stop) = .ok e) :
      Stands x t stop i
        (.ok (.passed (if x.ignoreComments then none else some (.between .comment i e)) e))
  | openComment {k : Comment} {h : Halt} (hb : ¬ x.alphabet.blanks.contains (t.charAt i) = true)
      (hk : x.alphabet.commentAt (t.range i stop) = some k)
      (he : commentEnd k stop i (t.range i stop) = .error h) : Stands x t stop i (.error h)
  | symbol (hb : ¬ x.alphabet.blanks.contains (t.charAt i) = true)
      (hk : x.alphabet.commentAt (t.range i stop) = none)
      (hc : x.alphabet.isSymbolChar (t.charAt i) = true) :
      Stands x t stop i (.ok (.passed (some (.between (x.symbolKind (x.symbolAt t stop i)) i
        (i + (x.symbolAt t stop i).length))) (i + (x.symbolAt t stop i).length)))
  | escape (hb : ¬ x.alphabet.blanks.contains (t.charAt i) = true)
      (hk : x.alphabet.commentAt (t.range i stop) = none)
      (hc : ¬ x.alphabet.isSymbolChar (t.charAt i) = true)
      (hr : x.alphabet.role (t.charAt i) = .escape) :
      Stands x t stop i
        (.ok (.passed (some (.between .charquote i (min (i + 2) stop))) (min (i + 2) stop)))
  | opener {closer : List Char} (hb : ¬ x.alphabet.blanks.contains (t.charAt i) = true)
      (hk : x.alphabet.commentAt (t.range i stop) = none)
      (hc : ¬ x.alphabet.isSymbolChar (t.charAt i) = true)
      (hr : x.alphabet.role (t.charAt i) = .opener closer) : Stands x t stop i (.ok (.opener closer))
  | closer (hb : ¬ x.alphabet.blanks.contains (t.charAt i) = true)
      (hk : x.alphabet.commentAt (t.range i stop) = none)
      (hc : ¬ x.alphabet.isSymbolChar (t.charAt i) = true)
      (hr : x.alphabet.role (t.charAt i) = .closer) : Stands x t stop i (.ok .closer)
  | string {e : Nat} (hb : ¬ x.alphabet.blanks.contains (t.charAt i) = true)
      (hk : x.alphabet.commentAt (t.range i stop) = none)
      (hc : ¬ x.alphabet.isSymbolChar (t.charAt i) = true)
      (hr : x.alphabet.role (t.charAt i) = .quote)
      (he : stringEnd x.alphabet stop i (t.charAt i) (i + 1) (t.range (i + 1) stop) = .ok e) :
      Stands x t stop i (.ok (.passed (some (.between .string i e)) e))
  | openString {h : Halt} (hb : ¬ x.alphabet.blanks.contains (t.charAt i) = true)
      (hk : x.alphabet.commentAt (t.range i stop) = none)
      (hc : ¬ x.alphabet.isSymbolChar (t.charAt i) = true)
      (hr : x.alphabet.role (t.charAt i) = .quote)
      (he : stringEnd x.alphabet stop i (t.charAt i) (i + 1) (t.range (i + 1) stop) = .error h) :
      Stands x t stop i (.error h)
  | punctuation (hb : ¬ x.alphabet.blanks.contains (t.charAt i) = true)
      (hk : x.alphabet.commentAt (t.range i stop) = none)
      (hc : ¬ x.alphabet.isSymbolChar (t.charAt i) = true)
      (hr : x.alphabet.role (t.charAt i) = .other)
      (hp : x.alphabet.punctuation.contains (t.charAt i) = true) :
      Stands x t stop i (.ok (.passed (some (.between .punctuation i (i + 1))) (i + 1)))
  | unrecognised (hb : ¬ x.alphabet.blanks.contains (t.charAt i) = true)
      (hk : x.alphabet.commentAt (t.range i stop) = none)
      (hc : ¬ x.alphabet.isSymbolChar (t.charAt i) = true)
      (hr : x.alphabet.role (t.charAt i) = .other)
      (hp : ¬ x.alphabet.punctuation.contains (t.charAt i) = true) :
      Stands x t stop i (.error (.fault i (.unrecognised (t.charAt i))))

theorem stands (x : Lexer) (t : Text) (stop i : Nat) : x.Stands t stop i (x.pieceAt t stop i) := by
  unfold pieceAt
  by_cases hb : x.alphabet.blanks.contains (t.charAt i) = true
  · rw [if_pos hb]
    exact .blank hb
  · rw [if_neg hb]
    cases hk : x.alphabet.commentAt (t.range i stop) with
    | some k =>
      simp only
      cases he : commentEnd k stop i (t.range i stop) with
      | error h => exact .openComment hb hk he
      | ok e => exact .comment hb hk he
    | none =>
      simp only
      by_cases hc : x.alphabet.isSymbolChar (t.charAt i) = true
      · rw [if_pos hc]
        exact .symbol hb hk hc
      · rw [if_neg hc, markAt]
        cases hr : x.alphabet.role (t.charAt i) with
        | escape => exact .escape hb hk hc hr
        | opener closer => exact .opener hb hk hc hr
        | closer => exact .closer hb hk hc hr
        | quote =>
          simp only
          cases he : stringEnd x.alphabet stop i (t.charAt i) (i + 1) (t.range (i + 1) stop) with
          | error h => exact .openString hb hk hc hr he
          | ok e => exact .string hb hk hc hr he
        | other =>
          simp only
          by_cases hp : x.alphabet.punctuation.contains (t.charAt i) = true
          · rw [if_pos hp]
            exact .punctuation hb hk hc hr hp
          · rw [if_neg hp]
            exact .unrecognised hb hk hc hr hp

theorem Stands.pieceAt_eq {r : Except Halt Piece} (h : x.Stands t stop i r) :
    x.pieceAt t stop i = r := by
  cases h with
  | blank hb => rw [pieceAt, if_pos hb]
  | comment hb hk he => rw [pieceAt, if_neg hb, hk]; simp only [he]; rfl
  | openComment hb hk he => rw [pieceAt, if_neg hb, hk]; simp only [he]; rfl
  | symbol hb hk hc => rw [pieceAt, if_neg hb, hk]; exact if_pos hc
  | escape hb hk hc hr => rw [pieceAt, if_neg hb, hk]; simp only [if_neg hc, markAt, hr]
  | opener hb hk hc hr => rw [pieceAt, if_neg hb, hk]; simp only [if_neg hc, markAt, hr]
  | closer hb hk hc hr => rw [pieceAt, if_neg hb, hk]; simp only [if_neg hc, markAt, hr]
  | string hb hk hc hr he => rw [pieceAt, if_neg hb, hk]; simp only [if_neg hc, markAt, hr, he]; rfl
  | openString hb hk hc hr he =>
    rw [pieceAt, if_neg hb, hk]; simp only [if_neg hc, markAt, hr, he]; rfl
  | punctuation hb hk hc hr hp =>
    rw [pieceAt, if_neg hb, hk]; simp only [if_neg hc, markAt, hr, if_pos hp]
  | unrecognised hb hk hc hr hp =>
    rw [pieceAt, if_neg hb, hk]; simp only [if_neg hc, markAt, hr, if_neg hp]

/-- What is passed over as a lexeme begins and ends with it. Its kind is one of its own or, for symbols, may be
that of a keyword. -/
theorem lexeme_of_passed {l : Lexeme} {j : Nat} (h : x.pieceAt t stop i = .ok (.passed (some l) j)) :
    ∃ k, l = .between k i j ∧ (k = x.symbolKind (x.symbolAt t stop i) ∨
      k ∈ [.newline, .comment, .charquote, .string, .punctuation]) := by
  have hs := x.stands t stop i
  rw [h] at hs
  generalize hr : (Except.ok (Piece.passed (some l) j) : Except Halt Piece) = r at hs
  cases hs with
  | blank =>
    simp only [Except.ok.injEq, Piece.passed.injEq] at hr
    obtain ⟨hl, rfl⟩ := hr
    split at hl <;> cases hl
    exact ⟨_, rfl, Or.inr (by simp)⟩
  | comment =>
    simp only [Except.ok.injEq, Piece.passed.injEq] at hr
    obtain ⟨hl, rfl⟩ := hr
    split at hl <;> cases hl
    exact ⟨_, rfl, Or.inr (by simp)⟩
  | symbol => cases hr; exact ⟨_, rfl, Or.inl rfl⟩
  | escape => cases hr; exact ⟨_, rfl, Or.inr (by simp)⟩
  | string => cases hr; exact ⟨_, rfl, Or.inr (by simp)⟩
  | punctuation => cases hr; exact ⟨_, rfl, Or.inr (by simp)⟩
  | openComment => cases hr
  | opener => cases hr
  | closer => cases hr
  | openString => cases hr
  | unrecognised => cases hr

theorem resume_of_pieceAt (ha : x.alphabet.Marked) (hi : i < stop) (ht : stop ≤ t.length)
    {l : Option Lexeme} {j : Nat} (h : x.pieceAt t stop i = .ok (.passed l j)) :
    i < j ∧ j ≤ stop := by
  have hs := x.stands t stop i
  rw [h] at hs
  cases hs with
  | blank => omega
  | comment _ hk he => exact ha.comment_bounds hi hk he
  | symbol _ _ hc =>
    have hb := symbolAt_bounds hi ht hc
    omega
  | escape => omega
  | string _ _ _ _ he => exact Alphabet.string_bounds hi he
  | punctuation => omega

/-! ## Scanning -/

theorem scanFrom_skip (ht : stop ≤ t.length) : ∀ (skip i : Nat),
    x.scanFrom t stop limit skip depth i (t.range i stop) = x.scanAt t stop limit depth (i + skip)
  | 0, i => rfl
  | skip + 1, i => by
    by_cases hi : i < stop
    · rw [Text.range_eq_cons hi ht, scanFrom, scanFrom_skip ht skip (i + 1)]
      congr 1
      omega
    · rw [scanAt, Text.range_eq_nil (by omega), Text.range_eq_nil (by omega), scanFrom, scanFrom]
      congr 1

theorem scanAt_end (hi : stop ≤ i) : x.scanAt t stop limit depth i = ⟨[], none⟩ := by
  rw [scanAt, Text.range_eq_nil hi, scanFrom, if_neg (by omega)]

/-- What a step makes of the piece that stands at an offset. -/
def stepOf (x : Lexer) (t : Text) (stop : Nat) (limit : Option Int) (depth i : Nat) :
    Piece → Except Halt LexStep
  | .passed l j => .ok ⟨l, j, depth⟩
  | .opener closer =>
    if limit.all ((depth : Int) < ·) then
      .ok ⟨some (.between .openParen i (i + 1)), i + 1, depth + 1⟩
    else (x.alphabet.groupFrom t stop i (t.charAt i) closer [] (i + 1)).map fun e =>
      ⟨some (.between .semanticList i e), e, depth⟩
  | .closer => .ok ⟨some (.between .closeParen i (i + 1)), i + 1, depth - 1⟩

theorem symbolStep_eq (hi : i < stop) (ht : stop ≤ t.length)
    (hc : x.alphabet.isSymbolChar (t.charAt i) = true) :
    x.symbolStep stop depth i (t.charAt i) (t.range (i + 1) stop) =
      .ok ⟨some (.between (x.symbolKind (x.symbolAt t stop i)) i
        (i + (x.symbolAt t stop i).length)), i + (x.symbolAt t stop i).length, depth⟩ := by
  have hcons : x.symbolAt t stop i =
      t.charAt i :: (t.range (i + 1) stop).takeWhile x.alphabet.isSymbolChar := by
    rw [symbolAt, Text.range_eq_cons hi ht, List.takeWhile_cons_of_pos hc]
  have hlen : i + (x.symbolAt t stop i).length =
      i + 1 + ((t.range (i + 1) stop).takeWhile x.alphabet.isSymbolChar).length := by
    rw [hcons, List.length_cons]
    omega
  -- all characters of the stretch are there, so the symbol does not run off the text
  have hrun : ¬ (((t.range (i + 1) stop).dropWhile x.alphabet.isSymbolChar).isEmpty = true ∧
      i + 1 + ((t.range (i + 1) stop).takeWhile x.alphabet.isSymbolChar).length < stop) := by
    rintro ⟨hempty, hlt⟩
    have happ := congrArg List.length (List.takeWhile_append_dropWhile
      (p := x.alphabet.isSymbolChar) (l := t.range (i + 1) stop))
    rw [List.isEmpty_iff.mp hempty, List.append_nil, Text.length_range_of_le ht] at happ
    omega
  rw [symbolStep, if_neg hrun, hlen, hcons]
  rfl

/-- A step reads the piece that stands at its offset. -/
theorem step_eq (hx : x.extensions = []) (hi : i < stop) (ht : stop ≤ t.length) :
    x.step t stop limit depth i (t.charAt i) (t.range (i + 1) stop) =
      (x.pieceAt t stop i).bind (x.stepOf t stop limit depth i) := by
  have hrange := Text.range_eq_cons hi ht
  have hext : x.extend? t i stop = none := by rw [extend?, hx]; rfl
  unfold step pieceAt
  simp only [← hrange, hext]
  by_cases hb : x.alphabet.blanks.contains (t.charAt i) = true
  · simp only [hb, if_true]
    rfl
  · simp only [hb, Bool.false_eq_true, if_false]
    cases hk : x.alphabet.commentAt (t.range i stop) with
    | some k =>
      simp only
      cases hs : commentEnd k stop i (t.range i stop) with
      | error e => rfl
      | ok m => rfl
    | none =>
      simp only
      by_cases hc : x.alphabet.isSymbolChar (t.charAt i) = true
      · simp only [hc, if_true]
        exact symbolStep_eq hi ht hc
      · simp only [hc, Bool.false_eq_true, if_false]
        unfold markAt Alphabet.role
        by_cases he : x.alphabet.escapes.contains (t.charAt i) = true
        · simp only [he, if_true]
          rfl
        · simp only [he, Bool.false_eq_true, if_false]
          cases ho : x.alphabet.closerOf? (t.charAt i) with
          | some closer =>
            change x.openStep stop limit depth i (t.charAt i) closer (t.range (i + 1) stop) =
              x.stepOf t stop limit depth i (.opener closer)
            unfold openStep stepOf
            split
            · rfl
            · change _ = Except.map _ (groupEnd _ _ _ _ _ _ _ _ _)
              cases groupEnd x.alphabet stop i (t.charAt i) 0 closer [] (i + 1)
                (t.range (i + 1) stop) <;> rfl
          | none =>
            by_cases hcl : x.alphabet.isCloser (t.charAt i) = true
            · simp only [hcl, if_true]
              rfl
            · simp only [hcl, Bool.false_eq_true, if_false]
              by_cases hq : x.alphabet.quotes.contains (t.charAt i) = true
              · simp only [hq, if_true]
                cases stringEnd x.alphabet stop i (t.charAt i) (i + 1) (t.range (i + 1) stop) <;> rfl
              · simp only [hq, Bool.false_eq_true, if_false]
                split <;> rfl

/-- What a step comes to: something that is passed over, a bracket that becomes a lexeme, or a group. -/
inductive StepAt (x : Lexer) (t : Text) (stop : Nat) (limit : Option Int) (depth i : Nat) :
    LexStep → Prop where
  | passed {l : Option Lexeme} {j : Nat} (hp : x.pieceAt t stop i = .ok (.passed l j)) :
      StepAt x t stop limit depth i ⟨l, j, depth⟩
  | opens {closer : List Char} (hp : x.pieceAt t stop i = .ok (.opener closer))
      (hl : limit.all ((depth : Int) < ·) = true) :
      StepAt x t stop limit depth i ⟨some (.between .openParen i (i + 1)), i + 1, depth + 1⟩
  | group {closer : List Char} {e : Nat} (hp : x.pieceAt t stop i = .ok (.opener closer))
      (hl : ¬ limit.all ((depth : Int) < ·) = true)
      (hg : x.alphabet.groupFrom t stop i (t.charAt i) closer [] (i + 1) = .ok e) :
      StepAt x t stop limit depth i ⟨some (.between .semanticList i e), e, depth⟩
  | closes (hp : x.pieceAt t stop i = .ok .closer) :
      StepAt x t stop limit depth i ⟨some (.between .closeParen i (i + 1)), i + 1, depth - 1⟩

theorem stepAt_of_step {s : LexStep}
    (h : (x.pieceAt t stop i).bind (x.stepOf t stop limit depth i) = .ok s) :
    x.StepAt t stop limit depth i s := by
  cases hp : x.pieceAt t stop i with
  | error e => rw [hp] at h; cases h
  | ok p =>
    rw [hp] at h
    change x.stepOf t stop limit depth i p = .ok s at h
    cases p with
    | passed l j =>
      cases h
      exact .passed hp
    | closer =>
      cases h
      exact .closes hp
    | opener closer =>
      rw [stepOf] at h
      by_cases hl : limit.all ((depth : Int) < ·) = true
      · rw [if_pos hl] at h
        cases h
        exact .opens hp hl
      · rw [if_neg hl] at h
        cases hg : x.alphabet.groupFrom t stop i (t.charAt i) closer [] (i + 1) with
        | error e => rw [hg] at h; cases h
        | ok e =>
          rw [hg] at h
          cases h
          exact .group hp hl hg

theorem resume_of_step (ha : x.alphabet.Marked) (hi : i < stop) (ht : stop ≤ t.length) {s : LexStep}
    (h : (x.pieceAt t stop i).bind (x.stepOf t stop limit depth i) = .ok s) : i < s.resume := by
  cases stepAt_of_step h with
  | passed hp => exact (resume_of_pieceAt ha hi ht hp).1
  | opens => exact Nat.lt_succ_self i
  | group _ _ hg =>
    have hlt := ((Alphabet.groupFrom_eq_ok_iff ha ht).mp hg).lt ha
    exact Nat.lt_of_succ_lt hlt.1
  | closes => exact Nat.lt_succ_self i

/-- **The lexemes from an offset on are that of the piece that stands there and those behind it.** -/
theorem scanAt_step (hx : x.extensions = []) (ha : x.alphabet.Marked) (hi : i < stop)
    (ht : stop ≤ t.length) : x.scanAt t stop limit depth i =
      match (x.pieceAt t stop i).bind (x.stepOf t stop limit depth i) with
      | .error h => ⟨[], some h⟩
      | .ok s => (x.scanAt t stop limit s.depth s.resume).cons s.lexeme := by
  rw [scanAt, Text.range_eq_cons hi ht, scanFrom, step_eq hx hi ht]
  cases hp : (x.pieceAt t stop i).bind (x.stepOf t stop limit depth i) with
  | error h => rfl
  | ok s =>
    have hlt := resume_of_step ha hi ht hp
    simp only
    rw [scanFrom_skip ht, show i + 1 + (s.resume - i - 1) = s.resume by omega]

/-! ## Pieces of shorter stretches -/

section Bound

variable {b : Nat}

theorem symbolAt_bound (hb : b ≤ stop) (hj : i + (x.symbolAt t stop i).length ≤ b) :
    x.symbolAt t b i = x.symbolAt t stop i := by
  unfold symbolAt at hj ⊢
  rw [← Text.take_range hb]
  exact takeWhile_take (by omega)

/-- A piece is the same in a shorter stretch, if it ends there. -/
theorem pieceAt_bound (hi : i < b) (hb : b ≤ stop) (ht : stop ≤ t.length) {p : Piece}
    (h : x.pieceAt t stop i = .ok p) (hp : ∀ l j, p = .passed l j → j ≤ b) :
    x.pieceAt t b i = .ok p := by
  have hs := x.stands t stop i
  rw [h] at hs
  cases hs with
  | blank hbl => exact (Stands.blank hbl).pieceAt_eq
  | comment hbl hk he =>
    obtain ⟨hk', he'⟩ := Alphabet.comment_bound hi hb ht hk he (hp _ _ rfl)
    exact (Stands.comment hbl hk' he').pieceAt_eq
  | symbol hbl hk hc =>
    rw [← symbolAt_bound hb (hp _ _ rfl)]
    exact (Stands.symbol hbl (Alphabet.commentAt_bound hb hk) hc).pieceAt_eq
  | escape hbl hk hc hr =>
    have hj := hp _ _ rfl
    rw [show min (i + 2) stop = min (i + 2) b by omega]
    exact (Stands.escape hbl (Alphabet.commentAt_bound hb hk) hc hr).pieceAt_eq
  | opener hbl hk hc hr =>
    exact (Stands.opener hbl (Alphabet.commentAt_bound hb hk) hc hr).pieceAt_eq
  | closer hbl hk hc hr =>
    exact (Stands.closer hbl (Alphabet.commentAt_bound hb hk) hc hr).pieceAt_eq
  | string hbl hk hc hr he =>
    have he' := Alphabet.stringEnd_bound hi hb he (hp _ _ rfl)
    exact (Stands.string hbl (Alphabet.commentAt_bound hb hk) hc hr he').pieceAt_eq
  | punctuation hbl hk hc hr hpu =>
    exact (Stands.punctuation hbl (Alphabet.commentAt_bound hb hk) hc hr hpu).pieceAt_eq

end Bound

end Lexer

end Outline
