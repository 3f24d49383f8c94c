import Outline.Proofs.Lexer.Cuts

/-!
# Where cutting halts

Where a stretch of a text cannot be cut, the fault is at an offset inside the stretch: no reader of a
lexer without extensions runs off the text, and nothing is blamed on an offset behind it.

* `Halt.Inside`: a fault between two offsets;
* `commentEnd_inside`, `stringEnd_inside`, `groupEnd_inside`, `Lexer.pieceAt_inside`: one for each reader;
* **`Lexer.lex_inside`**: the error of a whole text.
-/

namespace Outline

/-- A fault at an offset from `start` up to, but without, `stop`. -/
def Halt.Inside (start stop : Nat) (h : Halt) : Prop := ∃ o f, h = .fault o f ∧ start ≤ o ∧ o < stop

theorem Halt.Inside.mono {start start' stop : Nat} {h : Halt} (hs : start' ≤ start)
    (hi : h.Inside start stop) : h.Inside start' stop := by
  obtain ⟨o, f, rfl, ho, ho'⟩ := hi
  exact ⟨o, f, rfl, Nat.le_trans hs ho, ho'⟩

/-! ## Readers -/

/-- A reader that has used up the stretch blames the construct it is in. -/
theorem ranOut_inside {stop i opening : Nat} {fault : LexFault} {h : Halt} (hi : stop ≤ i)
    (ho : opening < stop) (hr : ranOut stop i opening fault = .error h) : h.Inside opening stop := by
  rw [ranOut, if_neg (by omega)] at hr
  cases hr
  exact ⟨opening, fault, rfl, Nat.le_refl _, ho⟩

theorem commentEnd_inside {k : Comment} {stop i : Nat} {cs : List Char} {h : Halt} (hi : i < stop)
    (he : commentEnd k stop i cs = .error h) : h.Inside i stop := by
  unfold commentEnd at he
  simp only at he
  split at he
  · cases he
  · split at he <;> cases he
    exact ⟨i, _, rfl, Nat.le_refl _, hi⟩

theorem stringEnd_inside {a : Alphabet} {stop opening : Nat} {q : Char} {h : Halt}
    (ho : opening < stop) : ∀ {i : Nat} {cs : List Char}, i + cs.length = stop →
      stringEnd a stop opening q i cs = .error h → h.Inside opening stop
  | i, [], hs, he => by
    rw [stringEnd] at he
    exact ranOut_inside (Nat.le_of_eq hs.symm) ho he
  | i, c :: cs, hs, he => by
    rw [List.length_cons] at hs
    by_cases hc : a.escapes.contains c = true
    · cases cs with
      | nil =>
        rw [stringEnd, if_pos hc] at he
        rw [List.length_nil] at hs
        exact ranOut_inside (by omega) ho he
      | cons d cs =>
        rw [stringEnd, if_pos hc] at he
        rw [List.length_cons] at hs
        exact stringEnd_inside ho (by omega) he
    · rw [stringEnd_cons hc] at he
      split at he
      · cases he
      · exact stringEnd_inside ho (by omega) he

/-- A group is blamed where it opens, or a part of it where that stands. -/
theorem groupEnd_inside {a : Alphabet} {stop opening : Nat} {opener : Char} {h : Halt} :
    ∀ {cs : List Char} {skip i : Nat} {closer : List Char} {outer : List (List Char)},
      opening < i → i + cs.length = stop → opening < stop →
        groupEnd a stop opening opener skip closer outer i cs = .error h → h.Inside opening stop
  | [], skip, i, _, _, _, hs, ho, he => by
    rw [groupEnd.eq_def] at he
    rw [List.length_nil] at hs
    exact ranOut_inside (by omega) ho he
  | c :: cs, skip, i, closer, outer, hi, hs, ho, he => by
    rw [List.length_cons] at hs
    have hrest : ∀ skip closer outer,
        groupEnd a stop opening opener skip closer outer (i + 1) cs = .error h →
          h.Inside opening stop :=
      fun _ _ _ he => groupEnd_inside (by omega) (by omega) ho he
    rw [groupEnd.eq_def] at he
    cases skip with
    | succ skip => exact hrest _ _ _ he
    | zero =>
      simp only at he
      split at he
      · exact hrest _ _ _ he
      · split at he
        · exact hrest _ _ _ he
        · split at he
          · split at he
            · split at he
              · cases he
              · exact hrest _ _ _ he
            · cases he
              exact ⟨i, _, rfl, by omega, by omega⟩
          · split at he
            · split at he
              · next e hstr =>
                cases he
                exact (stringEnd_inside (by omega) (by omega) hstr).mono (by omega)
              · exact hrest _ _ _ he
            · split at he
              · split at he
                · next e hcom =>
                  cases he
                  exact (commentEnd_inside (by omega) hcom).mono (by omega)
                · exact hrest _ _ _ he
              · exact hrest _ _ _ he

namespace Lexer

variable {x : Lexer} {t : Text} {stop i depth : Nat} {limit : Option Int} {h : Halt}

theorem pieceAt_inside (hi : i < stop) (ht : stop ≤ t.length) (hp : x.pieceAt t stop i = .error h) :
    h.Inside i stop := by
  have hs := x.stands t stop i
  rw [hp] at hs
  cases hs with
  | openComment _ _ he => exact commentEnd_inside hi he
  | openString _ _ _ _ he =>
    refine stringEnd_inside hi ?_ he
    rw [Text.length_range_of_le ht]
    omega
  | unrecognised => exact ⟨i, _, rfl, Nat.le_refl _, hi⟩

theorem stepOf_inside (hi : i < stop) (ht : stop ≤ t.length) {p : Piece}
    (hp : x.stepOf t stop limit depth i p = .error h) : h.Inside i stop := by
  cases p with
  | passed l j => cases hp
  | closer => cases hp
  | opener closer =>
    rw [stepOf] at hp
    split at hp
    · cases hp
    · cases hg : x.alphabet.groupFrom t stop i (t.charAt i) closer [] (i + 1) with
      | ok e => rw [hg] at hp; cases hp
      | error e =>
        rw [hg] at hp
        cases hp
        refine groupEnd_inside (Nat.lt_succ_self i) ?_ hi hg
        rw [Text.length_range_of_le ht]
        omega

/-- A scan that halts does so inside the stretch. -/
theorem halt_scanAt_inside (hx : x.extensions = []) (ha : x.alphabet.Marked) (ht : stop ≤ t.length) :
    ∀ (n : Nat) {depth i : Nat}, stop - i ≤ n → (x.scanAt t stop limit depth i).halt = some h →
      h.Inside i stop
  | n, depth, i, hn, hh => by
    by_cases hi : i < stop
    · obtain ⟨n, rfl⟩ : ∃ m, n = m + 1 := ⟨n - 1, by omega⟩
      rw [scanAt_step hx ha hi ht] at hh
      cases hs : (x.pieceAt t stop i).bind (x.stepOf t stop limit depth i) with
      | error e =>
        rw [hs] at hh
        cases hh
        cases hp : x.pieceAt t stop i with
        | error e =>
          rw [hp] at hs
          cases hs
          exact pieceAt_inside hi ht hp
        | ok p =>
          rw [hp] at hs
          exact stepOf_inside hi ht hs
      | ok s =>
        have hlt := resume_of_step ha hi ht hs
        simp only [hs, Scan.halt_cons] at hh
        exact (halt_scanAt_inside hx ha ht n (by omega) hh).mono (by omega)
    · rw [scanAt_end (by omega)] at hh
      cases hh

/-- **A text that cannot be cut has a fault at one of its offsets.** -/
theorem lex_inside (hx : x.extensions = []) (ha : x.alphabet.Marked) {e : LexError}
    (he : x.lex t 0 none limit = .error e) : ∃ o f, e = .fault t o f ∧ o < t.length := by
  have hlex : x.lex t ((0 : Nat) : Int) none limit =
      ((x.scanAt t t.length limit 0 0).result t).map fun ls => ⟨t, ls.toArray, 0, t.length, 0⟩ :=
    lex_eq rfl (Nat.zero_le _) (Nat.le_refl _)
  rw [show (0 : Int) = ((0 : Nat) : Int) from rfl, hlex] at he
  unfold Scan.result at he
  split at he
  · cases he
  · next h hh =>
    cases he
    obtain ⟨o, f, rfl, -, ho⟩ := halt_scanAt_inside hx ha (Nat.le_refl _) _ (Nat.le_refl _) hh
    exact ⟨o, f, rfl, ho⟩

end Lexer

end Outline
