import Outline.Proofs.Definition.Assembly
import Outline.Proofs.Definition.Pieces
import Outline.Proofs.Lexer.Halts

/-!
# The language of grammar sources

A text is a grammar source just if its words spell declarations, and then these are read from it. Every other
text has a fault at one of its offsets, or at its end.

* `Piece.fault?_grammar`, `Piece.readPieces_run`: the pieces of a text are those that the
  rounds find;
* `readDeclarations_uncut`, `readDeclarations_cut`: texts that are not cut into lexemes, and texts that are;
* **`readDeclarations_eq_ok_iff_spells`**: the language.
-/

namespace Outline

open Engine

namespace Piece

theorem marked_alphabet : lexer.alphabet.Marked := by
  unfold Alphabet.Marked
  decide

theorem fault?_grammar : grammar.fault? = none :=
  Grammar.fault?_eq_none_iff.mpr (.of_rank (by decide) (by decide)
    (fun n => if n = "declaration" then 1 else 0) (by decide))

/-- A source is read by the rounds over its words. -/
theorem inProgress_run (room : Nat) (source : Text) (s : State) (hs : s.run.nesting = (0, []))
    (ht : s.text.isSome = true) :
    (∃ e s', lexer.lex source = .error e ∧ Matching.inProgress (level (room + 2)).match? (level (room + 1))
      settings source true settings s = (.error (.lex e), s')) ∨
    ∃ cursor out s', lexer.lex source = .ok cursor ∧ cursor.text = source ∧ Ends cursor #[] out ∧
      Matching.inProgress (level (room + 2)).match? (level (room + 1)) settings source true settings s =
        (out.map (·.toList), s') := by
  let r := Matching.wholeText (level (room + 1)) settings source true
  have hlex := @Matching.lex_run settings source 0 none settings.depth s
  have hlexer : settings.lexer.lex source 0 none settings.depth = lexer.lex source := rfl
  cases hl : lexer.lex source with
  | error e =>
    rw [hlexer, hl] at hlex
    exact Or.inl ⟨e, _, rfl, bind_run_error hlex⟩
  | ok cursor =>
    rw [hlexer, hl] at hlex
    obtain ⟨hrow, -⟩ := Cursor.Row.of_lex (x := lexer) rfl hl
    let s₁ : State := { s with
      events := .lexed cursor.size cursor.start cursor.stop settings.depth :: .lexing :: s.events }
    have hends : Ends cursor #[]
        (Matching.rounds (level (room + 2)).match? r cursor.unread cursor #[] settings s₁).1 :=
      ends_rounds rfl rfl (fun _ _ => rfl) cursor.unread cursor #[] s₁ hrow le_rfl hs
    rcases hr : Matching.rounds (level (room + 2)).match? r cursor.unread cursor #[] settings s₁ with
      ⟨out, s₂⟩
    rw [hr] at hends
    refine Or.inr ⟨cursor, out, s₂, rfl, (Lexer.start_of_lex hl).1, hends, ?_⟩
    have ht₁ : s₁.text.isSome = true := ht
    rw [Matching.inProgress, bind_run_ok hlex, Matching.repeatedly, withMatcher_run _ ht₁]
    rcases out with e | found
    · exact bind_run_error hr
    · exact bind_run_ok hr

/-- The pieces of a source, or the failure to read them. -/
theorem readPieces_run (source : Text) :
    (∃ e, lexer.lex source = .error e ∧ readPieces source = .error (.failure (.lex e))) ∨
    ∃ cursor out, lexer.lex source = .ok cursor ∧ cursor.text = source ∧ Ends cursor #[] out ∧
      readPieces source = (out.map (·.toList)).mapError .failure := by
  have hnew : Session.new settings = .ok ⟨settings, none⟩ := by
    rw [Session.new, show settings.grammar.fault? = none from fault?_grammar]
  have hrun : (level defaultRoom).parseAll source none settings {} =
      Matching.parseText (level 2000).match? (level 1999) source true settings {} :=
    Matching.parseAll_run none
  have hread : readPieces source =
      ((Matching.parseText (level 2000).match? (level 1999) source true settings {}).1).mapError .failure := by
    rw [← hrun]
    show Outline.parseAll settings source = _
    rw [Outline.parseAll, hnew]
    rfl
  rw [hread, Matching.parseText_run]
  obtain ⟨e, s', hl, hp⟩ | ⟨cursor, out, s', hl, ht, hends, hp⟩ :=
    inProgress_run 1998 source (Matching.begun source {}) rfl rfl
  · rw [hp]
    exact Or.inl ⟨e, hl, rfl⟩
  · rw [hp]
    refine Or.inr ⟨cursor, out, hl, ht, hends, ?_⟩
    cases out <;> rfl

end Piece

/-! ## Declarations -/

open Piece

variable {source : Text}

/-- A text that cannot be cut into lexemes has a fault where it cannot be cut. -/
theorem readDeclarations_uncut {e : LexError} (hl : lexer.lex source = .error e) :
    ∃ (offset : Nat) (fault : SourceFault),
      readDeclarations source = .error (.fault source offset fault) ∧ offset ≤ source.length := by
  obtain ⟨o, f, rfl, ho⟩ := lexer.lex_inside rfl marked_alphabet hl
  obtain ⟨e, hl', hr⟩ | ⟨cursor, out, hl', -⟩ := readPieces_run source
  · cases hl.symm.trans hl'
    refine ⟨o, .lexical f, ?_, ho.le⟩
    rw [readDeclarations, hr]
    rfl
  · cases hl.symm.trans hl'

/-- What the words of a text spell is read from it, or they spell nothing and the text has a fault. -/
theorem readDeclarations_cut {cursor : Cursor} (hl : lexer.lex source = .ok cursor) :
    (∃ ds, readDeclarations source = .ok ds ∧ ∀ ds', SpellsSource Unquotes cursor.words ds' ↔ ds = ds') ∨
      (∃ (offset : Nat) (fault : SourceFault),
        readDeclarations source = .error (.fault source offset fault) ∧ offset ≤ source.length) ∧
        ∀ ds, ¬ SpellsSource Unquotes cursor.words ds := by
  obtain ⟨e, hl', -⟩ | ⟨cursor', out, hl', ht, hends, hr⟩ := readPieces_run source
  · cases hl.symm.trans hl'
  cases hl.symm.trans hl'
  unfold Ends at hends
  rw [ht] at hends
  obtain ⟨ks, ps, rfl, hps, hle, hs⟩ | ⟨o, rfl, ho, hnot⟩ := hends
  · have hread : readDeclarations source = assemble source none ps := by
      rw [readDeclarations, hr, ← hps]
      simp [Except.map, Except.mapError]
    have hiff : ∀ ds, SpellsSource Unquotes cursor.words ds ↔ assemble source none ps = .ok ds := by
      intro ds
      rw [spellsSource_iff, assemble_eq_ok_iff]
      exact and_congr_right fun _ => ⟨fun h => spellsPieces_unique h hs, fun h => h ▸ hs⟩
    rw [hread]
    cases ha : assemble source none ps with
    | ok ds =>
      refine Or.inl ⟨ds, rfl, fun ds' => ?_⟩
      rw [hiff, ha, Except.ok.injEq]
    | error e =>
      obtain ⟨o, f, rfl, ho⟩ := offset_of_assemble (by simp) hle ha
      refine Or.inr ⟨⟨o, f, rfl, ho⟩, fun ds h => ?_⟩
      rw [hiff, ha] at h
      cases h
  · refine Or.inr ⟨⟨o, .noPiece, ?_, ho⟩, fun ds h => hnot _ (spellsSource_iff.mp h).2⟩
    rw [readDeclarations, hr]
    rfl

/-- **A text is read just if its words spell declarations, and these are what is read.** Every other text
has a fault, at one of its offsets or at its end. -/
theorem readDeclarations_eq_ok_iff_spells (source : Text) :
    (∀ ds, readDeclarations source = .ok ds ↔
      ∃ cursor, lexer.lex source = .ok cursor ∧ SpellsSource Unquotes cursor.words ds) ∧
    ((∃ ds, readDeclarations source = .ok ds) ∨
      ∃ (offset : Nat) (fault : SourceFault),
        readDeclarations source = .error (.fault source offset fault) ∧ offset ≤ source.length) := by
  cases hl : lexer.lex source with
  | error e =>
    obtain ⟨o, f, hr, ho⟩ := readDeclarations_uncut hl
    rw [hr]
    refine ⟨fun ds => ⟨by rintro ⟨⟩, ?_⟩, Or.inr ⟨o, f, rfl, ho⟩⟩
    rintro ⟨cursor, hc, -⟩
    cases hc
  | ok cursor =>
    have hwords : ∀ ds, (∃ c, Except.ok cursor = (Except.ok c : Except LexError Cursor) ∧
        SpellsSource Unquotes c.words ds) ↔ SpellsSource Unquotes cursor.words ds := fun ds =>
      ⟨fun ⟨c, hc, h⟩ => by cases hc; exact h, fun h => ⟨cursor, rfl, h⟩⟩
    obtain ⟨ds, hr, hiff⟩ | ⟨⟨o, f, hr, ho⟩, hnot⟩ := readDeclarations_cut hl
    · rw [hr]
      refine ⟨fun ds' => ?_, Or.inl ⟨ds, rfl⟩⟩
      rw [hwords, hiff, Except.ok.injEq]
    · rw [hr]
      refine ⟨fun ds => ?_, Or.inr ⟨o, f, rfl, ho⟩⟩
      rw [hwords]
      exact ⟨by rintro ⟨⟩, fun h => absurd h (hnot ds)⟩

end Outline
