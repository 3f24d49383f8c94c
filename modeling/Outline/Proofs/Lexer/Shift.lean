import Outline.Proofs.Lexer.Row

/-!
# A stretch of a text and a text of its own

A stretch that is cut where it stands in a text, and the same characters as a text of their own, give the
same lexemes at other offsets: the readers see the characters of the stretch alone, and count from where
they begin.

* `Lexeme.shift`, `Halt.shift`, `Scan.shift`, `LexError.within`: the same things `d` characters further on;
* `findMark_shift`, `commentEnd_shift`, `stringEnd_shift`, `groupEnd_shift`: where constructs end;
* `Lexer.step_shift`, `Lexer.scanFrom_shift`: what one step reads, and all steps;
* `Text.Part`: a text is a stretch of another;
* **`Lexer.lex_part`**: the lexemes of the stretch.

Only extensions are handed the whole text, so the lexers here have none.
-/

namespace Outline

/-- A lexeme `d` characters further on. -/
def Lexeme.shift (d : Nat) (l : Lexeme) : Lexeme := ⟨l.kind, l.start + d, l.stop + d⟩

/-- A halt `d` characters further on. -/
def Halt.shift (d : Nat) : Halt → Halt
  | .fault offset f => .fault (offset + d) f
  | .beyondText => .beyondText

/-- A step `d` characters further on. -/
def LexStep.shift (d : Nat) (s : LexStep) : LexStep := ⟨s.lexeme.map (·.shift d), s.resume + d, s.depth⟩

/-- Lexemes `d` characters further on. -/
def Scan.shift (d : Nat) (s : Scan) : Scan := ⟨s.lexemes.map (·.shift d), s.halt.map (·.shift d)⟩

/-- What was found by a reader, or kept it from finding anything, `d` characters further on. -/
def shifted {α : Type} (move : α → α) (d : Nat) : Except Halt α → Except Halt α
  | .ok a => .ok (move a)
  | .error h => .error (h.shift d)

/-! ## Where constructs end -/

section

variable {a : Alphabet} {stop opening i : Nat} (d : Nat)

theorem findMark_shift (mark : List Char) : ∀ (i : Nat) (cs : List Char),
    findMark mark (i + d) cs = (findMark mark i cs).map (· + d)
  | i, [] => by
    rw [findMark, findMark]
    split <;> rfl
  | i, c :: cs => by
    rw [findMark, findMark]
    split
    · rfl
    · rw [Nat.add_right_comm, findMark_shift mark (i + 1) cs]

theorem commentEnd_shift (k : Comment) (cs : List Char) :
    commentEnd k (stop + d) (opening + d) cs = shifted (· + d) d (commentEnd k stop opening cs) := by
  unfold commentEnd
  simp only
  rw [show opening + d + k.opener.length = opening + k.opener.length + d by omega, findMark_shift]
  cases findMark k.closer (opening + k.opener.length) (cs.drop k.opener.length) with
  | some j =>
    by_cases hl : k.isLine = true
    · simp only [Option.map_some, if_pos hl, shifted]
    · simp only [Option.map_some, if_neg hl, shifted, Nat.add_right_comm]
  | none =>
    simp only [Option.map_none]
    split <;> rfl

theorem ranOut_shift (fault : LexFault) :
    ranOut (stop + d) (i + d) (opening + d) fault = shifted (· + d) d (ranOut stop i opening fault) := by
  simp only [ranOut, Nat.add_lt_add_iff_right]
  split <;> rfl

theorem stringEnd_shift (quote : Char) : ∀ (i : Nat) (cs : List Char),
    stringEnd a (stop + d) (opening + d) quote (i + d) cs =
      shifted (· + d) d (stringEnd a stop opening quote i cs)
  | i, [] => by
    rw [stringEnd, stringEnd]
    exact ranOut_shift d _
  | i, c :: cs => by
    by_cases he : a.escapes.contains c = true
    · rw [stringEnd.eq_def, stringEnd.eq_def a stop]
      simp only [if_pos he]
      rw [Nat.add_right_comm]
      cases cs with
      | nil => exact ranOut_shift d _
      | cons _ rest => exact stringEnd_shift quote (i + 2) rest
    · rw [stringEnd_cons he, stringEnd_cons he, Nat.add_right_comm]
      split
      · rfl
      · exact stringEnd_shift quote (i + 1) cs

theorem groupEnd_shift (opener : Char) : ∀ (cs : List Char) (skip : Nat) (closer : List Char)
    (outer : List (List Char)) (i : Nat),
    groupEnd a (stop + d) (opening + d) opener skip closer outer (i + d) cs =
      shifted (· + d) d (groupEnd a stop opening opener skip closer outer i cs)
  | [], skip, closer, outer, i => by
    have hnil : ∀ stop opening i, groupEnd a stop opening opener skip closer outer i [] =
        ranOut stop (i + skip) opening (.unbalanced opener) := fun _ _ _ => by rw [groupEnd.eq_def]
    rw [hnil, hnil, Nat.add_right_comm]
    exact ranOut_shift d _
  | _ :: cs, skip + 1, closer, outer, i => by
    rw [groupEnd, groupEnd, Nat.add_right_comm]
    exact groupEnd_shift opener cs skip closer outer (i + 1)
  | c :: cs, 0, closer, outer, i => by
    have ih := fun skip closer outer => groupEnd_shift opener cs skip closer outer (i + 1)
    have hjump : ∀ j, j + d - (i + d) - 1 = j - i - 1 := fun j => by omega
    rw [groupEnd.eq_def, groupEnd.eq_def a stop]
    simp only
    rw [Nat.add_right_comm i d 1]
    split
    · exact ih 1 closer outer
    · cases a.closerOf? c with
      | some inner => exact ih 0 inner (closer :: outer)
      | none =>
        simp only
        split
        · split
          · cases outer with
            | nil => rfl
            | cons next rest => exact ih 0 next rest
          · rfl
        · split
          · rw [stringEnd_shift]
            cases stringEnd a stop i c (i + 1) cs with
            | error h => rfl
            | ok j => simp only [shifted, hjump]; exact ih (j - i - 1) closer outer
          · cases a.commentAt (c :: cs) with
            | none => exact ih 0 closer outer
            | some k =>
              simp only [commentEnd_shift]
              cases commentEnd k stop i (c :: cs) with
              | error h => rfl
              | ok j => simp only [shifted, hjump]; exact ih (j - i - 1) closer outer

end

namespace Lexer

variable {x : Lexer} {t t' : Text} {stop : Nat} {limit : Option Int} (d : Nat)

/-! ## What is read -/

theorem take_shift (kind : Kind) (i e depth : Nat) :
    take kind (i + d) (e + d) depth = shifted (·.shift d) d (take kind i e depth) := by
  simp [take, shifted, LexStep.shift, Lexeme.shift]

theorem shifted_bind {r : Except Halt Nat} {f g : Nat → Except Halt LexStep}
    (h : ∀ e, g (e + d) = shifted (·.shift d) d (f e)) :
    (shifted (· + d) d r >>= g) = shifted (·.shift d) d (r >>= f) := by
  cases r with
  | error e => rfl
  | ok e => exact h e

theorem step_shift (hx : x.extensions = []) (depth i : Nat) (c : Char) (cs : List Char) :
    x.step t' (stop + d) limit depth (i + d) c cs =
      shifted (·.shift d) d (x.step t stop limit depth i c cs) := by
  have hnone : ∀ t i stop, x.extend? t i stop = none := by simp [extend?, hx]
  unfold step
  simp only [hnone]
  split
  · simp only [shifted, LexStep.shift, Nat.add_right_comm]
    split <;> simp [Lexeme.shift]
    omega
  · cases x.alphabet.commentAt (c :: cs) with
    | some k =>
      simp only [commentEnd_shift]
      refine shifted_bind d fun e => ?_
      by_cases hi : x.ignoreComments = true
      · simp [hi, shifted, LexStep.shift, pure, Except.pure]
      · simp [hi, shifted, LexStep.shift, Lexeme.shift, pure, Except.pure]
    | none =>
      simp only
      split
      · simp only [symbolStep]
        rw [show i + d + 1 + (cs.takeWhile x.alphabet.isSymbolChar).length =
          i + 1 + (cs.takeWhile x.alphabet.isSymbolChar).length + d by omega]
        simp only [Nat.add_lt_add_iff_right]
        split
        · rfl
        · exact take_shift d _ _ _ _
      · split
        · rw [show min (i + d + 2) (stop + d) = min (i + 2) stop + d by omega]
          exact take_shift d _ _ _ _
        · cases x.alphabet.closerOf? c with
          | some closer =>
            simp only [openStep, Nat.add_right_comm i d]
            split
            · exact take_shift d _ _ _ _
            · rw [groupEnd_shift]
              exact shifted_bind d fun e => take_shift d _ _ _ _
          | none =>
            simp only [Nat.add_right_comm i d]
            split
            · exact take_shift d _ _ _ _
            · split
              · rw [stringEnd_shift]
                exact shifted_bind d fun e => take_shift d _ _ _ _
              · split
                · exact take_shift d _ _ _ _
                · rfl

theorem cons_shift (l : Option Lexeme) (s : Scan) :
    (s.shift d).cons (l.map (·.shift d)) = (s.cons l).shift d := by
  cases l <;> rfl

theorem scanFrom_shift (hx : x.extensions = []) : ∀ (cs : List Char) (skip depth i : Nat),
    x.scanFrom t' (stop + d) limit skip depth (i + d) cs =
      (x.scanFrom t stop limit skip depth i cs).shift d
  | [], skip, depth, i => by
    rw [scanFrom.eq_def, scanFrom.eq_def x t]
    simp only [Nat.add_right_comm i d, Nat.add_lt_add_iff_right, Scan.shift, List.map_nil]
    split <;> rfl
  | _ :: cs, skip + 1, depth, i => by
    rw [scanFrom, scanFrom, Nat.add_right_comm]
    exact scanFrom_shift hx cs skip depth (i + 1)
  | c :: cs, 0, depth, i => by
    rw [scanFrom, scanFrom, step_shift d hx (t := t)]
    cases x.step t stop limit depth i c cs with
    | error h => rfl
    | ok s =>
      simp only [shifted, LexStep.shift]
      rw [Nat.add_right_comm, show s.resume + d - (i + d) - 1 = s.resume - i - 1 by omega,
        scanFrom_shift hx cs (s.resume - i - 1) s.depth (i + 1), cons_shift]

end Lexer

/-! ## A stretch as a text of its own -/

/-- The text `t` is the stretch of `T` that begins at `d`. -/
structure Text.Part (t T : Text) (d : Nat) : Prop where
  inside : t.length + d ≤ T.length
  range {i j : Nat} (hj : j ≤ t.length) : T.range (i + d) (j + d) = t.range i j

/-- The characters between two offsets as a text of their own. -/
theorem Text.part_range {T : Text} {s e : Nat} (he : e ≤ T.length) (hs : s ≤ e) :
    (Text.ofList (T.range s e)).Part T s := by
  have hlen : (Text.ofList (T.range s e)).length + s = e := by
    rw [length_ofList, length_range_of_le he]
    omega
  refine ⟨by omega, fun {i j} hj => ?_⟩
  rw [range_eq_drop_take, range_eq_drop_take, toList_ofList, range_eq_drop_take, List.take_drop,
    List.take_take, Nat.min_eq_left (by omega), List.drop_drop]
  rw [Nat.add_comm i s, Nat.add_comm j s]

/-- The same row of lexemes `d` characters further on, in another text. -/
def Cursor.shift (T : Text) (d : Nat) (c : Cursor) : Cursor :=
  ⟨T, c.lexemes.map (·.shift d), c.start + d, c.stop + d, c.index⟩

/-- The same complaint `d` characters further on, about another text. -/
def LexError.shift (T : Text) (d : Nat) : LexError → LexError
  | .fault _ offset f => .fault T (offset + d) f
  | e => e

/-- **A stretch is cut like a text of its own.** Its lexemes are those of the text, as far on as the stretch
begins, and so is the place where cutting halts. -/
theorem Lexer.lex_part {x : Lexer} (hx : x.extensions = []) {T : Text} {s e : Nat} (he : e ≤ T.length)
    (hs : s ≤ e) (limit : Option Int) : x.lex T s (some e) limit =
      match x.lex (.ofList (T.range s e)) 0 none limit with
      | .ok c => .ok (c.shift T s)
      | .error err => .error (err.shift T s) := by
  let t := Text.ofList (T.range s e)
  have hlen : t.length + s = e := by
    simp only [t, Text.length_ofList, Text.length_range_of_le he]
    omega
  have hpart : t.Part T s := Text.part_range he hs
  have hscan : x.scanAt T e limit 0 s = (x.scanAt t t.length limit 0 0).shift s := by
    have hchars : T.range s e = t.range 0 t.length := by
      rw [← hpart.range (Nat.le_refl _), Nat.zero_add, hlen]
    have hshift : x.scanFrom T (t.length + s) limit 0 0 (0 + s) (t.range 0 t.length) =
        (x.scanFrom t t.length limit 0 0 0 (t.range 0 t.length)).shift s := scanFrom_shift s hx _ 0 0 0
    rw [hlen, Nat.zero_add] at hshift
    rw [scanAt, hchars, hshift]
    rfl
  have hbig : x.lex T s (some e) limit =
      ((x.scanAt T e limit 0 s).result T).map fun ls => ⟨T, ls.toArray, s, e, 0⟩ := lex_eq rfl hs he
  have hsmall : x.lex t 0 none limit =
      ((x.scanAt t t.length limit 0 0).result t).map fun ls => ⟨t, ls.toArray, 0, t.length, 0⟩ :=
    lex_eq rfl (Nat.zero_le _) (Nat.le_refl _)
  change _ = (match x.lex t 0 none limit with
    | .ok c => Except.ok (c.shift T s)
    | .error err => .error (err.shift T s))
  rw [hbig, hscan, hsmall]
  obtain ⟨ls, _ | h⟩ := x.scanAt t t.length limit 0 0
  · simp only [Scan.result, Scan.shift, Option.map_none, Except.map, Cursor.shift, hlen]
    simp
  · cases h <;> rfl

end Outline
