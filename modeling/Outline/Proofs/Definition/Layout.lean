import Outline.Proofs.Definition.Quoting
import Outline.Proofs.Definition.Spelling
import Outline.Proofs.Lexer.Cuts

/-!
# Laying out words

Words are laid out one behind the other, with blanks and comments between them. Two symbols must be kept apart;
everything else may also stand side by side.

* `Piece.Symbolic`, `Word.Written`: names that are symbols, and the words that a source can hold;
* `Gap`, `Laid`: blanks and comments, and words with gaps behind them;
* `Piece.step_plain`, `Piece.scanFrom_gap`, `Piece.scanFrom_word`: what the lexer makes of a gap and of a word;
* **`Piece.lex_laid`**: the words of a text are those that it was laid out from.
-/

namespace Outline

/-! ## Words and gaps -/

/-- The name is a symbol of grammar sources. -/
def Piece.Symbolic (name : String) : Prop :=
  name ≠ "" ∧ ∀ c ∈ name.toList, Piece.alphabet.isSymbolChar c = true

instance : DecidablePred Piece.Symbolic := fun name =>
  decidable_of_iff (name ≠ "" ∧ name.toList.all Piece.alphabet.isSymbolChar = true)
    (and_congr_right' List.all_eq_true)

/-- The words that a grammar source is made of. -/
inductive Word.Written : Word → Prop where
  | symbol {name : String} (h : Piece.Symbolic name) : Written (.symbol name)
  | mark {c : Char} (h : c ∈ Piece.alphabet.punctuation) : Written (.mark c)
  | string {quoted pattern : String} (h : Piece.Quotes quoted pattern) : Written (.string quoted)

/-- Blanks and comments, each comment with the end of its line. -/
inductive Gap : List Char → Prop where
  | nil : Gap []
  | blank {c : Char} {cs : List Char} (hc : c ∈ Piece.alphabet.blanks) (h : Gap cs) : Gap (c :: cs)
  | comment {body cs : List Char} (hb : '\n' ∉ body) (h : Gap cs) : Gap ('#' :: (body ++ '\n' :: cs))

/-- Words, each with a gap behind it. Between two symbols the gap is not empty. -/
inductive Laid : List Word → List Char → Prop where
  | nil : Laid [] []
  | cons {w : Word} {ws : List Word} {gap cs : List Char} (hg : Gap gap)
      (hapart : w.kind = .symbol → (∃ v ∈ ws.head?, v.kind = .symbol) → gap ≠ []) (h : Laid ws cs) :
      Laid (w :: ws) (w.text.toList ++ (gap ++ cs))

namespace Piece

/-! ## Characters -/

variable {c : Char}

theorem not_isSymbolChar_of_mem (h : c ∈ alphabet.blanks ++ '#' :: (alphabet.quotes ++ alphabet.punctuation)) :
    alphabet.isSymbolChar c = false := by
  have hall : (alphabet.blanks ++ '#' :: (alphabet.quotes ++ alphabet.punctuation)).all
      (fun c => !alphabet.isSymbolChar c) = true := by rfl
  simpa using List.all_eq_true.mp hall c h

theorem not_mem_of_isSymbolChar (h : alphabet.isSymbolChar c = true) : c ∉ '#' :: alphabet.blanks := by
  intro hc
  rw [not_isSymbolChar_of_mem (by simp only [List.mem_append, List.mem_cons] at hc ⊢; tauto)] at h
  cases h

theorem gap_head {gap : List Char} (h : Gap gap) : ∀ c ∈ gap.head?, alphabet.isSymbolChar c = false := by
  intro c hc
  cases h with
  | nil => cases hc
  | blank hb =>
    cases hc
    exact not_isSymbolChar_of_mem (List.mem_append_left _ hb)
  | comment =>
    cases hc
    exact not_isSymbolChar_of_mem (by simp)

/-- A word has a first character, and unless the word is a symbol that is no character of one. -/
theorem head_of_written {w : Word} (hw : w.Written) : ∃ c us, w.text.toList = c :: us ∧
    (w.kind ≠ .symbol → alphabet.isSymbolChar c = false) := by
  cases hw with
  | @symbol name h =>
    cases hname : name.toList with
    | nil => exact absurd (String.toList_eq_nil_iff.mp hname) h.1
    | cons c us => exact ⟨c, us, hname, fun hk => absurd rfl hk⟩
  | @mark c h =>
    exact ⟨c, [], String.toList_singleton c, fun _ => not_isSymbolChar_of_mem (by simp [h])⟩
  | string h =>
    obtain ⟨q, hq, rfl⟩ := h
    refine ⟨q, _, String.toList_ofList, fun _ => not_isSymbolChar_of_mem ?_⟩
    obtain rfl | rfl := hq <;> decide

/-- Behind a word and its gap no symbol goes on, if there is a gap or no symbol comes next. -/
theorem head_of_laid {gap cs : List Char} {ws : List Word} (hg : Gap gap) (h : Laid ws cs)
    (hw : ∀ w ∈ ws, w.Written) (hapart : (∃ v ∈ ws.head?, v.kind = .symbol) → gap ≠ []) :
    ∀ c ∈ (gap ++ cs).head?, alphabet.isSymbolChar c = false := by
  intro c hc
  by_cases hgap : gap = []
  · subst hgap
    cases h with
    | nil => cases hc
    | @cons w ws _ _ _ _ _ =>
      obtain ⟨d, us, htext, hd⟩ := head_of_written (hw w List.mem_cons_self)
      rw [htext] at hc
      cases hc
      exact hd fun hk => hapart ⟨w, rfl, hk⟩ rfl
  · rw [List.head?_append_of_ne_nil _ hgap] at hc
    exact gap_head hg c hc

/-! ## Steps of the lexer -/

variable {t : Text} {stop depth i : Nat} {limit : Option Int} {cs : List Char}

theorem scanFrom_append (x : Lexer) (us vs : List Char) : ∀ i : Nat,
    x.scanFrom t stop limit us.length depth i (us ++ vs) =
      x.scanFrom t stop limit 0 depth (i + us.length) vs := by
  induction us with
  | nil => exact fun i => rfl
  | cons u us ih =>
    intro i
    rw [List.length_cons, List.cons_append, Lexer.scanFrom, ih (i + 1)]
    congr 1
    omega

/-- A step that takes up some characters leaves the rest to the scan. -/
theorem scanFrom_of_step {us vs : List Char} {l : Option Lexeme}
    (h : lexer.step t stop limit depth i c (us ++ vs) = .ok ⟨l, i + 1 + us.length, depth⟩) :
    lexer.scanFrom t stop limit 0 depth i (c :: (us ++ vs)) =
      (lexer.scanFrom t stop limit 0 depth (i + (us.length + 1)) vs).cons l := by
  have hskip : i + 1 + us.length - i - 1 = us.length := by omega
  have hplace : i + 1 + us.length = i + (us.length + 1) := by omega
  rw [Lexer.scanFrom, h]
  simp only
  rw [hskip, scanFrom_append, hplace]

theorem commentAt_of_ne (hc : c ≠ '#') (cs : List Char) : alphabet.commentAt (c :: cs) = none := by
  rw [Alphabet.commentAt_eq_none_iff]
  intro k hk
  obtain rfl := List.mem_singleton.mp hk
  simpa [List.isPrefixOf] using Ne.symm hc

/-- What is read where no blank and no comment stands. -/
theorem step_plain (hc : c ∉ '#' :: alphabet.blanks) :
    lexer.step t stop limit depth i c cs =
      if alphabet.isSymbolChar c then lexer.symbolStep stop depth i c cs
      else if alphabet.escapes.contains c then Lexer.take .charquote i (min (i + 2) stop) depth
      else if alphabet.quotes.contains c then do
        Lexer.take .string i (← stringEnd alphabet stop i c (i + 1) cs) depth
      else if alphabet.punctuation.contains c then Lexer.take .punctuation i (i + 1) depth
      else .error (.fault i (.unrecognised c)) := by
  rw [List.mem_cons, not_or] at hc
  have hb : ¬ lexer.alphabet.blanks.contains c = true := by simpa [lexer] using hc.2
  rw [Lexer.step, if_neg hb, show lexer.alphabet.commentAt (c :: cs) = none from commentAt_of_ne hc.1 cs]
  rfl

/-! ## Gaps -/

theorem scanFrom_blank (hc : c ∈ alphabet.blanks) :
    lexer.scanFrom t stop limit 0 depth i (c :: cs) = lexer.scanFrom t stop limit 0 depth (i + 1) cs := by
  have hb : lexer.alphabet.blanks.contains c = true := by simpa [lexer] using hc
  have hstep : lexer.step t stop limit depth i c ([] ++ cs) = .ok ⟨none, i + 1 + 0, depth⟩ := by
    rw [Lexer.step, if_pos hb]
    simp [lexer]
  exact scanFrom_of_step hstep

theorem findMark_newline {body : List Char} (hb : '\n' ∉ body) (cs : List Char) : ∀ i : Nat,
    findMark ['\n'] i (body ++ '\n' :: cs) = some (i + body.length) := by
  induction body with
  | nil => exact fun i => rfl
  | cons c body ih =>
    intro i
    rw [List.mem_cons, not_or] at hb
    have hc : ¬ ['\n'].isPrefixOf (c :: (body ++ '\n' :: cs)) = true := by
      simpa [List.isPrefixOf] using hb.1
    rw [List.cons_append, findMark, if_neg hc, ih hb.2, List.length_cons]
    exact congrArg some (by omega)

theorem scanFrom_comment {body : List Char} (hb : '\n' ∉ body) :
    lexer.scanFrom t stop limit 0 depth i ('#' :: (body ++ '\n' :: cs)) =
      lexer.scanFrom t stop limit 0 depth (i + (body.length + 1)) ('\n' :: cs) := by
  have hk : lexer.alphabet.commentAt ('#' :: (body ++ '\n' :: cs)) = some ⟨['#'], ['\n']⟩ := rfl
  have hend : commentEnd ⟨['#'], ['\n']⟩ stop i ('#' :: (body ++ '\n' :: cs)) = .ok (i + 1 + body.length) := by
    simp only [commentEnd, List.length_singleton, List.drop_one, List.tail_cons, findMark_newline hb]
    rfl
  have hstep : lexer.step t stop limit depth i '#' (body ++ '\n' :: cs) =
      .ok ⟨none, i + 1 + body.length, depth⟩ := by
    rw [Lexer.step, if_neg (by decide), hk]
    simp only [hend]
    rfl
  exact scanFrom_of_step hstep

/-- A gap is passed over. -/
theorem scanFrom_gap {gap : List Char} (h : Gap gap) : ∀ i : Nat,
    lexer.scanFrom t stop limit 0 depth i (gap ++ cs) =
      lexer.scanFrom t stop limit 0 depth (i + gap.length) cs := by
  induction h with
  | nil => exact fun i => rfl
  | @blank c gap hc _ ih =>
    intro i
    rw [List.cons_append, scanFrom_blank hc, ih, List.length_cons]
    congr 1
    omega
  | @comment body gap hb _ ih =>
    intro i
    rw [List.cons_append, List.append_assoc, List.cons_append, scanFrom_comment hb,
      scanFrom_blank (by decide), ih, List.length_cons, List.length_append, List.length_cons]
    congr 1
    omega

/-! ## Words -/

theorem takeWhile_append_of_head {p : Char → Bool} {us vs : List Char} (hu : ∀ c ∈ us, p c = true)
    (hv : ∀ c ∈ vs.head?, p c = false) : (us ++ vs).takeWhile p = us ∧ (us ++ vs).dropWhile p = vs := by
  have hnil : vs.takeWhile p = [] ∧ vs.dropWhile p = vs := by
    cases vs with
    | nil => exact ⟨rfl, rfl⟩
    | cons v vs => simp [hv v rfl]
  rw [List.takeWhile_append_of_pos hu, List.dropWhile_append_of_pos hu, hnil.1, hnil.2, List.append_nil]
  exact ⟨rfl, rfl⟩

theorem step_symbol {us : List Char} (hus : ∀ d ∈ c :: us, alphabet.isSymbolChar d = true)
    (hcs : ∀ d ∈ cs.head?, alphabet.isSymbolChar d = false) (hstop : i + 1 + (us ++ cs).length = stop) :
    lexer.step t stop limit depth i c (us ++ cs) = Lexer.take .symbol i (i + 1 + us.length) depth := by
  obtain ⟨hc, hus⟩ := List.forall_mem_cons.mp hus
  obtain ⟨htake, hdrop⟩ := takeWhile_append_of_head hus hcs
  -- the stretch goes as far as the text, so the symbol does not run off it
  have hrun : ¬ (cs.isEmpty = true ∧ i + 1 + us.length < stop) := by
    rintro ⟨hnil, hlt⟩
    rw [List.isEmpty_iff.mp hnil, List.append_nil] at hstop
    omega
  rw [step_plain (not_mem_of_isSymbolChar hc), if_pos hc, Lexer.symbolStep,
    show lexer.alphabet = alphabet from rfl, htake, hdrop, if_neg hrun]
  rfl

theorem step_mark (hc : c ∈ alphabet.punctuation) :
    lexer.step t stop limit depth i c cs = Lexer.take .punctuation i (i + 1) depth := by
  have hmarks : alphabet.punctuation.all (fun c => !('#' :: alphabet.blanks).contains c &&
    !alphabet.escapes.contains c && !alphabet.quotes.contains c) = true := by rfl
  have hroles := List.all_eq_true.mp hmarks c hc
  simp only [Bool.and_eq_true, Bool.not_eq_true'] at hroles
  obtain ⟨⟨hplain, hescape⟩, hquote⟩ := hroles
  have hsymbol := not_isSymbolChar_of_mem (c := c) (by simp [hc])
  rw [step_plain (by simpa using hplain), hsymbol, hescape, hquote, if_neg Bool.false_ne_true,
    if_neg Bool.false_ne_true, if_neg Bool.false_ne_true, if_pos (by simpa using hc)]

theorem step_quote {q : Char} (hq : q = '\'' ∨ q = '"') (us : List Char) :
    lexer.step t stop limit depth i q (us.flatMap (Unquote.escape q) ++ q :: cs) =
      Lexer.take .string i (i + 1 + (us.flatMap (Unquote.escape q)).length + 1) depth := by
  have hne : q ≠ '\\' := by obtain rfl | rfl := hq <;> decide
  have hmem : q ∈ alphabet.quotes := by obtain rfl | rfl := hq <;> decide
  have hplain : q ∉ '#' :: alphabet.blanks := by obtain rfl | rfl := hq <;> decide
  have hsymbol := not_isSymbolChar_of_mem (c := q) (by simp [hmem])
  rw [step_plain hplain, hsymbol, if_neg Bool.false_ne_true, if_neg (by simpa [alphabet] using hne),
    if_pos (by simpa using hmem), stringEnd_quote hne]
  rfl

/-- A word is taken, if no symbol goes on behind it. -/
theorem scanFrom_word {w : Word} (hw : w.Written) (hstop : i + (w.text.toList ++ cs).length = stop)
    (hcs : w.kind = .symbol → ∀ c ∈ cs.head?, alphabet.isSymbolChar c = false) :
    lexer.scanFrom t stop limit 0 depth i (w.text.toList ++ cs) =
      (lexer.scanFrom t stop limit 0 depth (i + w.text.toList.length) cs).cons
        (some (.between w.kind i (i + w.text.toList.length))) := by
  cases hw with
  | @symbol name h =>
    obtain ⟨hne, hall⟩ := h
    rw [Word.text_symbol] at hstop ⊢
    cases hname : name.toList with
    | nil => exact absurd (String.toList_eq_nil_iff.mp hname) hne
    | cons c us =>
      rw [hname] at hall hstop
      have hstop' : i + 1 + (us ++ cs).length = stop := by
        rw [← hstop, List.cons_append, List.length_cons]
        omega
      refine scanFrom_of_step ?_
      rw [step_symbol hall (hcs rfl) hstop', Nat.add_right_comm]
      rfl
  | @mark c h =>
    have hlist : (Word.mark c).text.toList = [c] := String.toList_singleton c
    rw [hlist]
    exact @scanFrom_of_step c t stop depth i limit [] cs _ (step_mark h)
  | @string quoted p h =>
    obtain ⟨q, hq, rfl⟩ := h
    have hlength : i + 1 + (p.toList.flatMap (Unquote.escape q)).length + 1 =
        i + 1 + (p.toList.flatMap (Unquote.escape q) ++ [q]).length := by
      rw [List.length_append, List.length_singleton, Nat.add_assoc]
    rw [Word.text_string, String.toList_ofList, Unquote.quote, List.cons_append]
    refine scanFrom_of_step ?_
    rw [List.append_assoc, List.singleton_append, step_quote hq, hlength, Nat.add_right_comm]
    rfl

/-! ## Texts -/

variable {source : Text}

theorem word_between {pre us : List Char} (kind : Kind) (h : source.toList = pre ++ (us ++ cs)) :
    (Lexeme.between kind pre.length (pre.length + us.length)).word source = ⟨kind, String.ofList us⟩ := by
  have hle : pre.length + us.length ≤ source.length := by
    rw [← Text.length_toList, h]
    simp only [List.length_append]
    omega
  have htext : (Lexeme.between kind pre.length (pre.length + us.length)).text source = us := by
    rw [Lexeme.text, Lexeme.between, Text.slice_natCast _ hle, Text.range_eq_drop_take, h,
      List.take_length_add_append, List.take_left, List.drop_left]
  rw [Lexeme.word, htext]
  rfl

theorem scanFrom_laid {ws : List Word} (h : Laid ws cs) : ∀ {pre : List Char},
    source.toList = pre ++ cs → (∀ w ∈ ws, w.Written) → ∃ ls,
      lexer.scanFrom source source.length limit 0 depth pre.length cs = ⟨ls, none⟩ ∧
        ls.map (·.word source) = ws := by
  -- `pre` is what has been read, so that the offsets of the words are those in the source
  induction h with
  | nil =>
    intro pre hs _
    have hlen : ¬ pre.length + 0 < source.length := by
      rw [← Text.length_toList, hs, List.append_nil]
      omega
    exact ⟨[], by rw [Lexer.scanFrom, if_neg hlen], rfl⟩
  | @cons w ws gap cs hg hapart h ih =>
    intro pre hs hws
    obtain ⟨hw, hws⟩ := List.forall_mem_cons.mp hws
    have hstop : pre.length + (w.text.toList ++ (gap ++ cs)).length = source.length := by
      rw [← Text.length_toList, hs]
      simp only [List.length_append]
    obtain ⟨ls, hls, hmap⟩ := @ih (pre ++ w.text.toList ++ gap) (by rw [hs]; simp only [List.append_assoc]) hws
    refine ⟨.between w.kind pre.length (pre.length + w.text.toList.length) :: ls, ?_, ?_⟩
    · rw [scanFrom_word hw hstop fun hk => head_of_laid hg h hws (hapart hk), scanFrom_gap hg,
        ← List.length_append, ← List.length_append, hls]
      rfl
    · rw [List.map_cons, word_between _ hs, hmap, String.ofList_toList]

theorem kind_of_written {w : Word} (hw : w.Written) : w.kind ≠ .comment := by
  cases hw <;> simp [Kind.symbol, Kind.punctuation, Kind.string, Kind.comment]

/-- **The words of a text are those that it is laid out from.** -/
theorem lex_laid {ws : List Word} {gap : List Char} (hg : Gap gap) (h : Laid ws cs)
    (hw : ∀ w ∈ ws, w.Written) (hs : source.toList = gap ++ cs) :
    ∃ cursor, lexer.lex source = .ok cursor ∧ cursor.words = ws := by
  obtain ⟨ls, hls, hmap⟩ := @scanFrom_laid 0 (some 0) cs source ws h gap hs hw
  have hall : source.range 0 source.length = gap ++ cs := by
    rw [Text.range_eq_drop_take, ← Text.length_toList, List.take_length, List.drop_zero, hs]
  have hscan : lexer.scanAt source source.length (some 0) 0 0 = ⟨ls, none⟩ := by
    rw [Lexer.scanAt, hall, scanFrom_gap hg, Nat.zero_add, hls]
  have hlex : lexer.lex source = .ok ⟨source, ls.toArray, 0, source.length, 0⟩ := by
    refine (Lexer.lex_eq rfl (Nat.zero_le _) le_rfl).trans ?_
    rw [hscan]
    rfl
  have hspoken : Lexeme.spoken ls = ls := by
    refine List.filter_eq_self.mpr fun l hl => ?_
    have hl : l.word source ∈ ws := hmap ▸ List.mem_map_of_mem hl
    exact bne_iff_ne.mpr (kind_of_written (hw _ hl))
  refine ⟨_, hlex, ?_⟩
  change (Lexeme.spoken (ls.toArray.toList.drop 0)).map (·.word source) = ws
  rw [List.drop_zero, hspoken, hmap]

end Piece

end Outline
