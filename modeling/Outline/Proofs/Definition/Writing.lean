import Outline.Proofs.Definition.Layout
import Outline.Proofs.Definition.Reading

/-!
# Writing declarations

Declarations are written by spelling them, with patterns put in quotes, and laying out the words. Whatever the
quotes and the layout, the declarations are what is read from the text.

* `Declaration.names`, `Piece.names`: the names that have to be written;
* `SpellsPieces.written`, `SpellsPieces.unquotes`: the words of pieces, and how they are read;
* `Piece.words`, `Declaration.write`: one way of writing;
* `Writes`, `writes_write`, `spells_of_writes`, **`readDeclarations_of_writes`**: what is written is what
  is read.
-/

namespace Outline

open Piece

/-! ## Names -/

/-- The names in an alternative. -/
def AlternativeSource.names (a : AlternativeSource) : List String :=
  a.items.map (·.1) ++ a.action.toList

/-- The names in a declaration. -/
def Declaration.names : Declaration → List String
  | start name | token name => [name]
  | rule name as => name :: as.flatMap (·.names)

/-- The names in a piece. -/
def Piece.names : Piece → List String
  | start name | token name | rule name | item name _ | action name => [name]
  | separator | terminator => []

theorem AlternativeSource.names_pieces (a : AlternativeSource) : a.pieces.flatMap Piece.names = a.names := by
  rw [pieces, List.flatMap_append, List.flatMap_map, names, List.map_eq_flatMap]
  cases a.action <;> rfl

theorem AlternativeSource.names_barred (as : List AlternativeSource) :
    (barred as).flatMap Piece.names = as.flatMap (·.names) := by
  induction as with
  | nil => rfl
  | cons a as ih =>
    by_cases has : as = []
    · subst has
      simp [a.names_pieces]
    · rw [barred_cons has, List.flatMap_append, List.flatMap_cons, List.flatMap_cons, a.names_pieces, ih]
      rfl

/-- A declaration has the names of its pieces. -/
theorem Declaration.names_pieces (d : Declaration) : d.pieces.flatMap Piece.names = d.names := by
  cases d with
  | start name | token name => rfl
  | rule name as =>
    rw [pieces, List.flatMap_cons, List.flatMap_append, AlternativeSource.names_barred]
    simp [Piece.names, names]

/-! ## Words -/

variable {ws : List Word} {ps : List Piece} {ds : List Declaration} {source : Text}

theorem SpellsPiece.written {p : Piece} (h : SpellsPiece Quotes ws p)
    (hn : ∀ name ∈ p.names, Symbolic name) : ∀ w ∈ ws, w.Written := by
  cases h with
  | start name | token name =>
    refine List.forall_mem_cons.mpr ⟨.mark (by decide), List.forall_mem_cons.mpr ⟨.symbol (by decide), ?_⟩⟩
    exact List.forall_mem_singleton.mpr (.symbol (hn name List.mem_cons_self))
  | rule name =>
    refine List.forall_mem_cons.mpr ⟨.symbol (hn name List.mem_cons_self), ?_⟩
    exact List.forall_mem_singleton.mpr (.mark (by decide))
  | plain name => exact List.forall_mem_singleton.mpr (.symbol (hn name List.mem_cons_self))
  | pattern name hq =>
    refine List.forall_mem_cons.mpr ⟨.symbol (hn name List.mem_cons_self), ?_⟩
    exact List.forall_mem_singleton.mpr (.string hq)
  | action name =>
    refine List.forall_mem_cons.mpr ⟨.mark (by decide), List.forall_mem_cons.mpr ⟨.mark (by decide), ?_⟩⟩
    exact List.forall_mem_singleton.mpr (.symbol (hn name List.mem_cons_self))
  | separator | terminator => exact List.forall_mem_singleton.mpr (.mark (by decide))

theorem SpellsPieces.written (h : SpellsPieces Quotes ws ps)
    (hn : ∀ p ∈ ps, ∀ name ∈ p.names, Symbolic name) : ∀ w ∈ ws, w.Written := by
  induction h with
  | nil => simp
  | cons h _ ih =>
    obtain ⟨hp, hps⟩ := List.forall_mem_cons.mp hn
    exact List.forall_mem_append.mpr ⟨h.written hp, ih hps⟩

theorem SpellsPieces.unquotes (h : SpellsPieces Quotes ws ps) : SpellsPieces Unquotes ws ps := by
  induction h with
  | nil => exact .nil
  | cons h _ ih =>
    refine .cons ?_ ih
    cases h with
    | pattern name hq => exact .pattern name (unquotes_of_quotes hq)
    | start | token | rule | plain | action | separator | terminator => constructor

/-! ## One way of writing -/

/-- A piece in words, with its pattern in single quotes. -/
def Piece.words : Piece → List Word
  | start name => [.mark '%', .symbol "start", .symbol name]
  | token name => [.mark '%', .symbol "token", .symbol name]
  | rule name => [.symbol name, .mark ':']
  | item name none => [.symbol name]
  | item name (some pattern) => [.symbol name, .string (String.ofList (Unquote.quote '\'' pattern.toList))]
  | action name => [.mark '=', .mark '>', .symbol name]
  | separator => [.mark '|']
  | terminator => [.mark ';']

theorem Piece.spells_words (p : Piece) : SpellsPiece Quotes p.words p := by
  cases p with
  | item name pattern =>
    cases pattern with
    | none => exact .plain name
    | some pattern => exact .pattern name ⟨'\'', .inl rfl, rfl⟩
  | start | token | rule | action | separator | terminator => constructor

theorem Piece.spells_flatMap_words (ps : List Piece) : SpellsPieces Quotes (ps.flatMap words) ps := by
  induction ps with
  | nil => exact .nil
  | cons p ps ih => exact .cons p.spells_words ih

/-- Words with a blank behind each. -/
def Word.spaced (ws : List Word) : List Char := ws.flatMap fun w => w.text.toList ++ [' ']

theorem laid_spaced (ws : List Word) : Laid ws (Word.spaced ws) := by
  induction ws with
  | nil => exact .nil
  | cons w ws ih =>
    have hlaid := Laid.cons (w := w) (.blank (c := ' ') (by decide) .nil) (fun _ _ => List.cons_ne_nil _ _) ih
    rwa [← List.append_assoc] at hlaid

/-- Declarations as a source. -/
def Declaration.write (ds : List Declaration) : Text :=
  .ofList (Word.spaced ((ds.flatMap (·.pieces)).flatMap Piece.words))

/-! ## Writing and reading -/

/-- The text is a way of writing the declarations. -/
def Writes (ds : List Declaration) (source : Text) : Prop :=
  ∃ ws gap cs, SpellsSource Quotes ws ds ∧ Gap gap ∧ Laid ws cs ∧ source.toList = gap ++ cs

theorem writes_write (hf : ∀ d ∈ ds, d.Filled) : Writes ds (Declaration.write ds) :=
  ⟨_, [], _, spellsSource_iff.mpr ⟨hf, spells_flatMap_words _⟩, .nil, laid_spaced _, rfl⟩

theorem spells_of_writes (hn : ∀ d ∈ ds, ∀ name ∈ d.names, Symbolic name) (h : Writes ds source) :
    ∃ cursor, lexer.lex source = .ok cursor ∧ SpellsSource Unquotes cursor.words ds := by
  obtain ⟨ws, gap, cs, hs, hg, hl, hsource⟩ := h
  obtain ⟨hf, hp⟩ := spellsSource_iff.mp hs
  have hw : ∀ w ∈ ws, w.Written := by
    refine hp.written fun p hp name hname => ?_
    obtain ⟨d, hd, hp⟩ := List.mem_flatMap.mp hp
    exact hn d hd name (d.names_pieces ▸ List.mem_flatMap.mpr ⟨p, hp, hname⟩)
  obtain ⟨cursor, hlex, hwords⟩ := lex_laid hg hl hw hsource
  refine ⟨cursor, hlex, ?_⟩
  rw [hwords]
  exact spellsSource_iff.mpr ⟨hf, hp.unquotes⟩

/-- **Declarations can be written, and they are what is read from any text that writes them.** -/
theorem readDeclarations_of_writes (hn : ∀ d ∈ ds, ∀ name ∈ d.names, Symbolic name)
    (hf : ∀ d ∈ ds, d.Filled) :
    (∃ source, Writes ds source) ∧ ∀ source, Writes ds source → readDeclarations source = .ok ds := by
  refine ⟨⟨Declaration.write ds, writes_write hf⟩, fun source h => ?_⟩
  obtain ⟨cursor, hlex, hspells⟩ := spells_of_writes hn h
  obtain ⟨ds', hr, hiff⟩ | ⟨-, hnot⟩ := readDeclarations_cut hlex
  · rw [hr, (hiff ds).mp hspells]
  · exact absurd hspells (hnot ds)

/-- A pattern of quotes, a hash and a backslash, and an apostrophe in a comment. -/
theorem readDeclarations_quotes :
    let ds := [Declaration.rule "a" [⟨[("b", some "'#\\\"")], none⟩]]
    let source := Text.ofString "a:# it's\n b'\\'#\\\\\"';"
    Writes ds source ∧ readDeclarations source = .ok ds := by
  intro ds source
  have hkinds : Kind.string ≠ .symbol ∧ Kind.punctuation ≠ .symbol := by decide
  have hgap : Gap ('#' :: (" it's".toList ++ '\n' :: [' '])) :=
    .comment (by decide) (.blank (by decide) .nil)
  have hlaid : Laid [.symbol "a", .mark ':', .symbol "b", .string "'\\'#\\\\\"'", .mark ';'] _ :=
    .cons .nil (by simp [hkinds]) <| .cons hgap (by simp [hkinds]) <| .cons .nil (by simp [hkinds]) <|
      .cons .nil (by simp [hkinds]) <| .cons .nil (by simp) .nil
  have hspells : SpellsSource Quotes
      [.symbol "a", .mark ':', .symbol "b", .string "'\\'#\\\\\"'", .mark ';'] ds :=
    .cons (.rule (.last (.plain (.pattern ⟨'\'', .inl rfl, by decide⟩ .nil)))) .nil
  have hw : Writes ds source := ⟨_, [], _, hspells, .nil, hlaid, by decide⟩
  exact ⟨hw, (readDeclarations_of_writes (by decide) (by simp [ds, Declaration.Filled])).2 source hw⟩

end Outline
