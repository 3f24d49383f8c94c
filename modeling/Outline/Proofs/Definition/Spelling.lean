import Outline.Definition.Declaration
import Outline.Proofs.Matching.Terminals

/-!
# How declarations are spelt

The language of grammar sources, as a grammar over the words of a source, and the same language piece by
piece.

* `Word.symbol`, `Word.mark`, `Word.string`: the words that sources are made of;
* `SpellsItems`, `SpellsAlternative`, `SpellsAlternatives`, `SpellsDeclaration`, `SpellsSource`: which
  words spell what, with a constructor for each form. How a pattern is quoted is left open;
* `SpellsPiece`, `SpellsPieces`: which words spell a piece, and pieces in a row;
* `Declaration.pieces`, **`spellsSource_iff`**: declarations are spelt by the words that spell their pieces.
-/

namespace Outline

/-! ## Words -/

namespace Word

/-- A symbol. -/
def symbol (name : String) : Word := ⟨.symbol, name⟩

/-- A mark. -/
def mark (c : Char) : Word := ⟨.punctuation, String.singleton c⟩

/-- A string, with its quotes. -/
def string (quoted : String) : Word := ⟨.string, quoted⟩

@[simp] theorem kind_symbol (name : String) : (symbol name).kind = .symbol := rfl

@[simp] theorem kind_mark (c : Char) : (mark c).kind = .punctuation := rfl

@[simp] theorem kind_string (quoted : String) : (string quoted).kind = .string := rfl

@[simp] theorem text_symbol (name : String) : (symbol name).text = name := rfl

@[simp] theorem text_string (quoted : String) : (string quoted).text = quoted := rfl

theorem eq_symbol {w : Word} (h : w.kind = .symbol) : w = symbol w.text := by
  rw [symbol, ← h]

theorem eq_string {w : Word} (h : w.kind = .string) : w = string w.text := by
  rw [string, ← h]

@[simp] theorem symbol_inj {m n : String} : symbol m = symbol n ↔ m = n := by simp [symbol]

@[simp] theorem mark_inj {c d : Char} : mark c = mark d ↔ c = d := by
  simp [mark, ← String.toList_inj]

@[simp] theorem symbol_ne_mark (name : String) (c : Char) : symbol name ≠ mark c :=
  fun h => absurd (congrArg kind h) (show Kind.symbol ≠ .punctuation by decide)

@[simp] theorem mark_ne_symbol (c : Char) (name : String) : mark c ≠ symbol name :=
  (symbol_ne_mark name c).symm

@[simp] theorem string_ne_mark (quoted : String) (c : Char) : string quoted ≠ mark c :=
  fun h => absurd (congrArg kind h) (show Kind.string ≠ .punctuation by decide)

end Word

/-! ## The language -/

/-- A way of quoting: which strings stand for which patterns. -/
abbrev Quoting : Type := (quoted pattern : String) → Prop

section Language

variable (Q : Quoting)

/-- Items: symbols, each with a pattern behind it or without. -/
inductive SpellsItems : List Word → List (String × Option String) → Prop where
  | nil : SpellsItems [] []
  | plain {name : String} {ws : List Word} {is : List (String × Option String)}
      (h : SpellsItems ws is) : SpellsItems (.symbol name :: ws) ((name, none) :: is)
  | pattern {name quoted p : String} {ws : List Word} {is : List (String × Option String)}
      (hq : Q quoted p) (h : SpellsItems ws is) :
      SpellsItems (.symbol name :: .string quoted :: ws) ((name, some p) :: is)

/-- An alternative: items, and an action behind an arrow if there is one. -/
inductive SpellsAlternative : List Word → AlternativeSource → Prop where
  | plain {ws : List Word} {is : List (String × Option String)} (h : SpellsItems Q ws is) :
      SpellsAlternative ws ⟨is, none⟩
  | action {name : String} {ws : List Word} {is : List (String × Option String)}
      (h : SpellsItems Q ws is) :
      SpellsAlternative (ws ++ [.mark '=', .mark '>', .symbol name]) ⟨is, some name⟩

/-- One alternative or more, with bars between them. -/
inductive SpellsAlternatives : List Word → List AlternativeSource → Prop where
  | last {ws : List Word} {a : AlternativeSource} (h : SpellsAlternative Q ws a) :
      SpellsAlternatives ws [a]
  | more {ws vs : List Word} {a : AlternativeSource} {as : List AlternativeSource}
      (h : SpellsAlternative Q ws a) (hr : SpellsAlternatives vs as) :
      SpellsAlternatives (ws ++ .mark '|' :: vs) (a :: as)

/-- A directive, or a rule between its head and a semicolon. -/
inductive SpellsDeclaration : List Word → Declaration → Prop where
  | start (name : String) :
      SpellsDeclaration [.mark '%', .symbol "start", .symbol name] (.start name)
  | token (name : String) :
      SpellsDeclaration [.mark '%', .symbol "token", .symbol name] (.token name)
  | rule {name : String} {ws : List Word} {as : List AlternativeSource}
      (h : SpellsAlternatives Q ws as) :
      SpellsDeclaration (.symbol name :: .mark ':' :: (ws ++ [.mark ';'])) (.rule name as)

/-- A source: declarations one behind the other. -/
inductive SpellsSource : List Word → List Declaration → Prop where
  | nil : SpellsSource [] []
  | cons {ws vs : List Word} {d : Declaration} {ds : List Declaration}
      (h : SpellsDeclaration Q ws d) (hr : SpellsSource vs ds) : SpellsSource (ws ++ vs) (d :: ds)

/-! ## Pieces -/

/-- A piece by itself. -/
inductive SpellsPiece : List Word → Piece → Prop where
  | start (name : String) : SpellsPiece [.mark '%', .symbol "start", .symbol name] (.start name)
  | token (name : String) : SpellsPiece [.mark '%', .symbol "token", .symbol name] (.token name)
  | rule (name : String) : SpellsPiece [.symbol name, .mark ':'] (.rule name)
  | plain (name : String) : SpellsPiece [.symbol name] (.item name none)
  | pattern (name : String) {quoted p : String} (hq : Q quoted p) :
      SpellsPiece [.symbol name, .string quoted] (.item name (some p))
  | action (name : String) : SpellsPiece [.mark '=', .mark '>', .symbol name] (.action name)
  | separator : SpellsPiece [.mark '|'] .separator
  | terminator : SpellsPiece [.mark ';'] .terminator

/-- Pieces one behind the other. -/
inductive SpellsPieces : List Word → List Piece → Prop where
  | nil : SpellsPieces [] []
  | cons {ws vs : List Word} {p : Piece} {ps : List Piece} (h : SpellsPiece Q ws p)
      (hr : SpellsPieces vs ps) : SpellsPieces (ws ++ vs) (p :: ps)

end Language

variable {Q : Quoting} {ws : List Word} {ps qs : List Piece}

@[simp] theorem spellsPieces_nil_iff : SpellsPieces Q ws [] ↔ ws = [] :=
  ⟨fun h => by cases h; rfl, fun h => h ▸ .nil⟩

theorem spellsPieces_cons_iff {p : Piece} : SpellsPieces Q ws (p :: ps) ↔
    ∃ us vs, ws = us ++ vs ∧ SpellsPiece Q us p ∧ SpellsPieces Q vs ps := by
  constructor
  · intro h
    cases h with
    | cons h hr => exact ⟨_, _, rfl, h, hr⟩
  · rintro ⟨us, vs, rfl, h, hr⟩
    exact .cons h hr

theorem spellsPieces_singleton_iff {p : Piece} : SpellsPieces Q ws [p] ↔ SpellsPiece Q ws p := by
  simp [spellsPieces_cons_iff]

theorem spellsPieces_append_iff : SpellsPieces Q ws (ps ++ qs) ↔
    ∃ us vs, ws = us ++ vs ∧ SpellsPieces Q us ps ∧ SpellsPieces Q vs qs := by
  induction ps generalizing ws with
  | nil => simp
  | cons p ps ih =>
    simp only [List.cons_append, spellsPieces_cons_iff, ih]
    constructor
    · rintro ⟨us, _, rfl, hp, us', vs, rfl, hps, hqs⟩
      exact ⟨us ++ us', vs, (List.append_assoc _ _ _).symm, ⟨us, us', rfl, hp, hps⟩, hqs⟩
    · rintro ⟨_, vs, rfl, ⟨us, us', rfl, hp, hps⟩, hqs⟩
      exact ⟨us, us' ++ vs, List.append_assoc _ _ _, hp, us', vs, rfl, hps, hqs⟩

/-! ## The pieces of a declaration -/

/-- The pieces of an alternative. -/
def AlternativeSource.pieces (a : AlternativeSource) : List Piece :=
  a.items.map (fun (name, pattern) => .item name pattern) ++ (a.action.map Piece.action).toList

/-- The pieces of alternatives, with bars between them. -/
def AlternativeSource.barred : List AlternativeSource → List Piece
  | [] => []
  | [a] => a.pieces
  | a :: as => a.pieces ++ .separator :: barred as

namespace Declaration

/-- The pieces of a declaration. -/
def pieces : Declaration → List Piece
  | start name => [.start name]
  | token name => [.token name]
  | rule name as => .rule name :: (AlternativeSource.barred as ++ [.terminator])

/-- A rule has an alternative. -/
def Filled : Declaration → Prop
  | rule _ as => as ≠ []
  | _ => True

end Declaration

open AlternativeSource

@[simp] theorem AlternativeSource.barred_singleton (a : AlternativeSource) : barred [a] = a.pieces := rfl

theorem AlternativeSource.barred_cons {a : AlternativeSource} {as : List AlternativeSource}
    (h : as ≠ []) : barred (a :: as) = a.pieces ++ .separator :: barred as := by
  cases as with
  | nil => exact absurd rfl h
  | cons => rfl

theorem spellsItems_iff {is : List (String × Option String)} : SpellsItems Q ws is ↔
    SpellsPieces Q ws (is.map fun (name, pattern) => .item name pattern) := by
  constructor
  · intro h
    induction h with
    | nil => exact .nil
    | plain _ ih => exact .cons (.plain _) ih
    | pattern hq _ ih => exact .cons (.pattern _ hq) ih
  · intro h
    induction is generalizing ws with
    | nil =>
      cases h
      exact .nil
    | cons i is ih =>
      obtain ⟨us, vs, rfl, hp, hps⟩ := spellsPieces_cons_iff.mp h
      obtain ⟨name, _ | p⟩ := i
      · cases hp
        exact .plain (ih hps)
      · cases hp with
        | pattern _ hq => exact .pattern hq (ih hps)

theorem spellsAlternative_iff {a : AlternativeSource} :
    SpellsAlternative Q ws a ↔ SpellsPieces Q ws a.pieces := by
  constructor
  · intro h
    cases h with
    | plain h => simpa [pieces] using spellsItems_iff.mp h
    | action h =>
      exact spellsPieces_append_iff.mpr
        ⟨_, _, rfl, spellsItems_iff.mp h, spellsPieces_singleton_iff.mpr (.action _)⟩
  · intro h
    obtain ⟨is, _ | name⟩ := a
    · exact .plain (spellsItems_iff.mpr (by simpa [pieces] using h))
    · obtain ⟨us, vs, rfl, hi, ha⟩ := spellsPieces_append_iff.mp h
      cases spellsPieces_singleton_iff.mp ha
      exact .action (spellsItems_iff.mpr hi)

theorem spellsAlternatives_iff {as : List AlternativeSource} :
    SpellsAlternatives Q ws as ↔ as ≠ [] ∧ SpellsPieces Q ws (barred as) := by
  constructor
  · intro h
    induction h with
    | last h => exact ⟨List.cons_ne_nil _ _, spellsAlternative_iff.mp h⟩
    | more h _ ih =>
      refine ⟨List.cons_ne_nil _ _, ?_⟩
      rw [barred_cons ih.1]
      exact spellsPieces_append_iff.mpr
        ⟨_, _, rfl, spellsAlternative_iff.mp h, .cons .separator ih.2⟩
  · rintro ⟨hne, h⟩
    induction as generalizing ws with
    | nil => exact absurd rfl hne
    | cons a as ih =>
      by_cases has : as = []
      · subst has
        exact .last (spellsAlternative_iff.mpr h)
      · rw [barred_cons has] at h
        obtain ⟨us, _, rfl, ha, h⟩ := spellsPieces_append_iff.mp h
        obtain ⟨_, vs, rfl, hs, hr⟩ := spellsPieces_cons_iff.mp h
        cases hs
        exact .more (spellsAlternative_iff.mpr ha) (ih has hr)

theorem spellsDeclaration_iff {d : Declaration} :
    SpellsDeclaration Q ws d ↔ d.Filled ∧ SpellsPieces Q ws d.pieces := by
  constructor
  · intro h
    cases h with
    | start name => exact ⟨trivial, spellsPieces_singleton_iff.mpr (.start name)⟩
    | token name => exact ⟨trivial, spellsPieces_singleton_iff.mpr (.token name)⟩
    | rule h =>
      obtain ⟨hne, h⟩ := spellsAlternatives_iff.mp h
      exact ⟨hne, .cons (.rule _) (spellsPieces_append_iff.mpr
        ⟨_, _, rfl, h, spellsPieces_singleton_iff.mpr .terminator⟩)⟩
  · rintro ⟨hf, h⟩
    cases d with
    | start name =>
      cases spellsPieces_singleton_iff.mp h
      exact .start name
    | token name =>
      cases spellsPieces_singleton_iff.mp h
      exact .token name
    | rule name as =>
      obtain ⟨_, _, rfl, hn, h⟩ := spellsPieces_cons_iff.mp h
      obtain ⟨us, _, rfl, ha, ht⟩ := spellsPieces_append_iff.mp h
      cases hn
      cases spellsPieces_singleton_iff.mp ht
      exact .rule (spellsAlternatives_iff.mpr ⟨hf, ha⟩)

/-- **Declarations are spelt by the words that spell their pieces.** -/
theorem spellsSource_iff {ds : List Declaration} : SpellsSource Q ws ds ↔
    (∀ d ∈ ds, d.Filled) ∧ SpellsPieces Q ws (ds.flatMap Declaration.pieces) := by
  constructor
  · intro h
    induction h with
    | nil => exact ⟨by simp, .nil⟩
    | cons h _ ih =>
      obtain ⟨hf, h⟩ := spellsDeclaration_iff.mp h
      exact ⟨List.forall_mem_cons.mpr ⟨hf, ih.1⟩,
        spellsPieces_append_iff.mpr ⟨_, _, rfl, h, ih.2⟩⟩
  · rintro ⟨hf, h⟩
    induction ds generalizing ws with
    | nil =>
      cases h
      exact .nil
    | cons d ds ih =>
      obtain ⟨hd, hf⟩ := List.forall_mem_cons.mp hf
      obtain ⟨us, vs, rfl, h, hr⟩ := spellsPieces_append_iff.mp h
      exact .cons (spellsDeclaration_iff.mpr ⟨hd, h⟩) (ih hf hr)

end Outline
