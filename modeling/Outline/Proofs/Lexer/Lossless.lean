import Outline.Proofs.Lexer.Row
import Outline.Proofs.Pattern.Bounds

/-!
# Nothing is lost

The lexemes of a stretch lie in it one behind the other, each of at least one character, and every other
character of the stretch has been passed over for a reason: it is a blank, or it lies in a comment or in
what an extension skips.

* `Extension.Plain`: extensions that skip what they match, or make one lexeme of it;
* `Lexer.Drops`: what makes no lexeme;
* `Lexer.Fills`: lexemes between two offsets, and the rest dropped;
* `Lexer.step_cases`, `Lexer.extent_of_plain_step`: one step of a lexer with extensions;
* **`Lexer.fills_of_lex`**: all lexemes of a stretch.
-/

namespace Outline

/-! ## Extensions -/

/-- The extension skips what its pattern matches, or makes a lexeme of a kind of it. -/
inductive Extension.Plain : Extension → Prop where
  | skip (p : Pattern) : Plain (.skip p)
  | token (p : Pattern) (kind : Kind) : Plain (.token p kind)

/-- An extension that applies takes what its pattern matches, and that is at least a character. -/
theorem Extension.Plain.tryAt {x : Extension} (hx : x.Plain) {t : Text} {i stop e : Nat}
    {l : Option Lexeme} (hi : i ≤ stop) (ht : stop ≤ t.length) (h : x.tryAt t i stop = some (l, e)) :
    i < e ∧ e ≤ stop ∧ (∀ k ∈ l, k.start = i ∧ k.stop = e) ∧
      (l = none → ∃ p, x = .skip p ∧ p.matchAt t i stop = some e) := by
  unfold Extension.tryAt at h
  cases hm : x.pattern.matchAt t i stop with
  | none => rw [hm] at h; cases h
  | some j =>
    have hb := Pattern.bounds_of_matchAt hi ht hm
    rw [hm] at h
    simp only at h
    split at h
    · cases h
    · cases hx with
      | skip p =>
        cases h
        have hmax : max j 0 = j := Nat.max_eq_left (Nat.zero_le j)
        refine ⟨?_, ?_, fun k hk => (by cases hk), fun _ => ⟨p, rfl, ?_⟩⟩
        · exact hmax.symm ▸ Nat.lt_of_not_le ‹_›
        · exact hmax.symm ▸ hb.2
        · exact hmax.symm ▸ hm
      | token p kind =>
        cases h
        have hmax : max j j = j := Nat.max_self j
        refine ⟨?_, ?_, ?_, fun hn => by cases hn⟩
        · exact hmax.symm ▸ Nat.lt_of_not_le ‹_›
        · exact hmax.symm ▸ hb.2
        · rintro k ⟨⟩
          exact ⟨rfl, congrArg _ hmax.symm⟩

namespace Lexer

/-! ## What is dropped -/

/-- What stands at `i` makes no lexeme, and the lexer goes on behind it: a blank, but no line end if these
are lexemes; a comment, if comments are not; what an extension skips. -/
inductive Drops (x : Lexer) (t : Text) (stop i : Nat) : Nat → Prop where
  | blank (hb : x.alphabet.blanks.contains (t.charAt i) = true)
      (hn : ¬ (t.charAt i = '\n' ∧ x.newlines = true)) : Drops x t stop i (i + 1)
  | comment {k : Comment} {e : Nat} (hi : x.ignoreComments = true)
      (hk : x.alphabet.commentAt (t.range i stop) = some k)
      (he : commentEnd k stop i (t.range i stop) = .ok e) : Drops x t stop i e
  | skipped {p : Pattern} {e : Nat} (hp : .skip p ∈ x.extensions) (he : p.matchAt t i stop = some e) :
      Drops x t stop i e

/-- The lexemes between two offsets: each takes a character at least, none reaches into the next, and
every other character lies in a stretch that is dropped and that no lexeme reaches into. -/
structure Fills (x : Lexer) (t : Text) (stop i : Nat) (ls : List Lexeme) : Prop where
  within : ∀ l ∈ ls, (i : Int) ≤ l.start ∧ l.start < l.stop ∧ l.stop ≤ stop
  apart : ls.Pairwise (·.stop ≤ ·.start)
  dropped : ∀ o : Nat, i ≤ o → o < stop → (∀ l ∈ ls, ¬ (l.start ≤ o ∧ o < l.stop)) →
    ∃ j k, i ≤ j ∧ j ≤ o ∧ o < k ∧ k ≤ stop ∧ x.Drops t stop j k ∧
      ∀ l ∈ ls, l.stop ≤ j ∨ k ≤ l.start

variable {x : Lexer} {t : Text} {stop i j : Nat} {ls : List Lexeme}

namespace Fills

theorem nil (hi : stop ≤ i) : x.Fills t stop i [] where
  within l hl := absurd hl List.not_mem_nil
  apart := .nil
  dropped o ho hs _ := by omega

/-- A lexeme goes in front of those behind its end. -/
theorem cons (h : x.Fills t stop j ls) (hij : i < j) (hj : j ≤ stop) {l : Lexeme} (hs : l.start = i)
    (he : l.stop = j) : x.Fills t stop i (l :: ls) where
  within := by
    refine List.forall_mem_cons.mpr ⟨by omega, fun k hk => ?_⟩
    have hw := h.within k hk
    omega
  apart := by
    refine List.pairwise_cons.mpr ⟨fun k hk => ?_, h.apart⟩
    have hw := h.within k hk
    omega
  dropped o ho hos hn := by
    obtain ⟨hl, hn⟩ := List.forall_mem_cons.mp hn
    obtain ⟨a, b, ha, hao, hob, hb, hd, hls⟩ := h.dropped o (by omega) hos hn
    exact ⟨a, b, by omega, hao, hob, hb, hd, List.forall_mem_cons.mpr ⟨Or.inl (by omega), hls⟩⟩

/-- What is dropped goes in front of the lexemes behind it. -/
theorem drop (h : x.Fills t stop j ls) (hij : i < j) (hj : j ≤ stop) (hd : x.Drops t stop i j) :
    x.Fills t stop i ls where
  within l hl := by
    have hw := h.within l hl
    omega
  apart := h.apart
  dropped o ho hos hn := by
    by_cases hoj : o < j
    · refine ⟨i, j, Nat.le_refl i, ho, hoj, hj, hd, fun l hl => Or.inr ?_⟩
      exact (h.within l hl).1
    · obtain ⟨a, b, ha, hrest⟩ := h.dropped o (by omega) hos hn
      exact ⟨a, b, by omega, hrest⟩

end Fills

/-! ## One step -/

/-- The same lexer without its extensions. -/
def unextended (x : Lexer) : Lexer := { x with extensions := [] }

variable {limit : Option Int} {depth : Nat}

/-- An extension decides what is read, or the step is that of the lexer without extensions. -/
theorem step_cases (x : Lexer) (t : Text) (stop : Nat) (limit : Option Int) (depth i : Nat) (c : Char)
    (cs : List Char) :
    x.step t stop limit depth i c cs = x.unextended.step t stop limit depth i c cs ∨
      ∃ l e, x.extend? t i stop = some (l, e) ∧
        x.step t stop limit depth i c cs = .ok ⟨l, e, depth⟩ := by
  by_cases hb : x.alphabet.blanks.contains c = true
  · exact Or.inl ((if_pos hb).trans (if_pos hb).symm)
  · cases hk : x.alphabet.commentAt (c :: cs) with
    | some k =>
      refine Or.inl ?_
      simp only [step, unextended, hb, hk, Bool.false_eq_true, ↓reduceIte]
      rfl
    | none =>
      cases hx : x.extend? t i stop with
      | some found =>
        refine Or.inr ⟨found.1, found.2, rfl, ?_⟩
        simp only [step, hb, hk, hx, Bool.false_eq_true, ↓reduceIte]
      | none =>
        have hb' : ¬ x.unextended.alphabet.blanks.contains c = true := hb
        have hk' : x.unextended.alphabet.commentAt (c :: cs) = none := hk
        have hx' : x.unextended.extend? t i stop = none := rfl
        refine Or.inl ?_
        simp only [step, hb, hk, hx, hb', hk', hx', Bool.false_eq_true, ↓reduceIte]
        rfl

/-- Where the lexer without extensions reads no lexeme, there is a blank or a comment. -/
theorem drops_of_pieceAt (h : x.unextended.pieceAt t stop i = .ok (.passed none j)) :
    x.Drops t stop i j := by
  have hs := x.unextended.stands t stop i
  rw [h] at hs
  generalize hr : (Except.ok (Piece.passed none j) : Except Halt Piece) = r at hs
  cases hs with
  | blank hb =>
    simp only [Except.ok.injEq, Piece.passed.injEq] at hr
    obtain ⟨hl, rfl⟩ := hr
    refine .blank hb fun hn => ?_
    exact nomatch hl.trans (if_pos hn)
  | comment _ hk he =>
    simp only [Except.ok.injEq, Piece.passed.injEq] at hr
    obtain ⟨hl, rfl⟩ := hr
    refine .comment ?_ hk he
    by_cases hi : x.ignoreComments = true
    · exact hi
    · exact nomatch hl.trans (if_neg hi)
  | openComment => cases hr
  | symbol => cases hr
  | escape => cases hr
  | opener => cases hr
  | closer => cases hr
  | string => cases hr
  | openString => cases hr
  | punctuation => cases hr
  | unrecognised => cases hr

/-- A step leads forward; it reads all that it passes as one lexeme, or drops it. -/
theorem extent_of_plain_step (hx : ∀ e ∈ x.extensions, e.Plain) (ha : x.alphabet.Marked) (hi : i < stop)
    (ht : stop ≤ t.length) {s : LexStep}
    (h : x.step t stop limit depth i (t.charAt i) (t.range (i + 1) stop) = .ok s) :
    i < s.resume ∧ s.resume ≤ stop ∧ (∀ l ∈ s.lexeme, l.start = i ∧ l.stop = s.resume) ∧
      (s.lexeme = none → x.Drops t stop i s.resume) := by
  obtain hstep | ⟨l, e, hl, hstep⟩ :=
    x.step_cases t stop limit depth i (t.charAt i) (t.range (i + 1) stop)
  · rw [hstep, step_eq (x := x.unextended) rfl hi ht] at h
    obtain ⟨-, hle, hlexeme⟩ := extent_of_step (x := x.unextended) hi ht h
    refine ⟨resume_of_step (x := x.unextended) ha hi ht h, hle, fun l hl => ?_, fun hnone => ?_⟩
    · obtain ⟨hs, he, -⟩ := hlexeme l hl
      exact ⟨hs, he⟩
    · cases stepAt_of_step h with
      | passed hp => exact drops_of_pieceAt (hnone ▸ hp)
      | opens | group | closes => cases hnone
  · rw [hstep] at h
    cases h
    obtain ⟨e', he', htry⟩ := List.exists_of_findSome?_eq_some hl
    obtain ⟨hlt, hle, hlexeme, hskip⟩ := (hx e' he').tryAt (Nat.le_of_lt hi) ht htry
    refine ⟨hlt, hle, hlexeme, fun hnone => ?_⟩
    obtain ⟨p, rfl, hp⟩ := hskip hnone
    exact .skipped he' hp

/-! ## All steps -/

/-- The lexemes of a scan that does not halt fill the stretch. -/
theorem fills_of_scanAt (hx : ∀ e ∈ x.extensions, e.Plain) (ha : x.alphabet.Marked)
    (ht : stop ≤ t.length) : ∀ (n : Nat) {depth i : Nat} {ls : List Lexeme}, stop - i ≤ n →
      x.scanAt t stop limit depth i = ⟨ls, none⟩ → x.Fills t stop i ls
  | n, depth, i, ls, hn, h => by
    by_cases hi : i < stop
    · obtain ⟨n, rfl⟩ : ∃ m, n = m + 1 := ⟨n - 1, by omega⟩
      rw [scanAt, Text.range_eq_cons hi ht, scanFrom] at h
      cases hs : x.step t stop limit depth i (t.charAt i) (t.range (i + 1) stop) with
      | error halt => rw [hs] at h; cases h
      | ok s =>
        obtain ⟨hlt, hle, hlexeme, hdrop⟩ := extent_of_plain_step hx ha hi ht hs
        rw [hs] at h
        simp only at h
        rw [scanFrom_skip ht, show i + 1 + (s.resume - i - 1) = s.resume by omega] at h
        obtain ⟨rest, hrest, rfl⟩ := cons_eq_done h
        have hfills := fills_of_scanAt hx ha ht n (by omega) hrest
        cases hl : s.lexeme with
        | none => exact hfills.drop hlt hle (hdrop hl)
        | some l =>
          obtain ⟨hstart, hstop⟩ := hlexeme l hl
          exact hfills.cons hlt hle hstart hstop
    · rw [scanAt_end (by omega)] at h
      cases h
      exact .nil (by omega)

/-- **Cutting a text is ordered and loses nothing.** The lexemes of a stretch lie within it, one behind the
other and none of them empty, and all other characters are dropped for a reason. -/
theorem fills_of_lex (hx : ∀ e ∈ x.extensions, e.Plain) (ha : x.alphabet.Marked) {start : Int}
    {stop : Option Int} {c : Cursor} (h : x.lex t start stop limit = .ok c) :
    c.text = t ∧ (c.start : Int) = start ∧ (c.stop : Int) = stop.getD t.length ∧
      x.Fills t c.stop c.start c.lexemes.toList := by
  obtain ⟨s, e, rfl, he, hse, ht⟩ := range_of_lex h
  rw [lex_eq he hse ht] at h
  cases hs : x.scanAt t e limit 0 s with
  | mk ls halt =>
    rw [hs] at h
    cases halt with
    | some halt => cases h
    | none =>
      cases h
      exact ⟨rfl, rfl, he.symm, fills_of_scanAt hx ha ht _ (Nat.le_refl _) hs⟩

/-- A lexer that passes comments over, makes lexemes of line ends, skips number signs and has a kind for
numbers. -/
def numbered : Lexer where
  extensions := [.skip ⟨"#", .one (.single '#')⟩,
    .token ⟨"[0-9]+", .repeated .greedy 1 none (.one ⟨false, [.between 48 57]⟩)⟩ ⟨"number"⟩]
  ignoreComments := true
  newlines := true

/-- Four lexemes; what lies between them is a sign, a blank and a comment. -/
theorem lex_numbered : ∃ c, numbered.lex (.ofString "a#b /**/\n12") = .ok c ∧
    c.lexemes.toList = [⟨.symbol, 0, 1⟩, ⟨.symbol, 2, 3⟩, ⟨.newline, 8, 9⟩, ⟨⟨"number"⟩, 9, 11⟩] ∧
    numbered.Fills (.ofString "a#b /**/\n12") c.stop c.start c.lexemes.toList := by
  have hx : ∀ e ∈ numbered.extensions, e.Plain :=
    List.forall_mem_cons.mpr ⟨.skip _, List.forall_mem_cons.mpr ⟨.token _ _, by simp⟩⟩
  have hlex : (numbered.lex (.ofString "a#b /**/\n12")).toOption.map (·.lexemes.toList) =
      some [⟨.symbol, 0, 1⟩, ⟨.symbol, 2, 3⟩, ⟨.newline, 8, 9⟩, ⟨⟨"number"⟩, 9, 11⟩] := by
    decide +kernel
  cases hc : numbered.lex (.ofString "a#b /**/\n12") with
  | error e => rw [hc] at hlex; cases hlex
  | ok c =>
    rw [hc] at hlex
    have hmarked : numbered.alphabet.Marked := by simp [Alphabet.Marked, numbered, Alphabet.cLike]
    exact ⟨c, rfl, Option.some.inj hlex, (fills_of_lex hx hmarked hc).2.2.2⟩

end Lexer

end Outline
