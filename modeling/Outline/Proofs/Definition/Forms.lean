import Outline.Proofs.Definition.Spelling

/-!
# The forms of pieces

A piece has one of eight forms, each a row of terminals. Of the forms that fit the words that are next, the
first in the order of the grammar is taken, and that is the piece that the words spell.

* `Regex.run_ofSeq`, `Piece.matchesAll_exactly`: a pattern for one text;
* `Form`, `Piece.forms`, `Piece.itemForms`: the forms, and `Piece.alternatives_declaration`,
  `Piece.alternatives_item`: that these are the alternatives of the grammar;
* `Piece.next?`: the piece that is next, and how many words it takes;
* `Piece.Unquotes`, `Piece.next?_of_spells`, `Piece.spells_of_next?`: what is next, and what is spelt;
* **`Piece.spellsPieces_iff_of_next?`**, `Piece.not_spellsPieces`: pieces in a row are read one by one.
-/

namespace Outline

/-! ## A pattern for one text -/

theorem CharSet.holds_single (c d : Char) : (single c).holds d = decide (d = c) := by
  have hiff : c.toNat ≤ d.toNat ∧ d.toNat ≤ c.toNat ↔ d = c := by
    rw [← Nat.le_antisymm_iff, eq_comm, Char.toNat_inj]
  simp [holds, single, CharRange.holds, ← hiff]

namespace Regex

variable {s : Subject} {rest : Rest}

theorem run_ofSeq_cons (r : Regex) (rs : List Regex) (i : Nat) :
    run s (ofSeq (r :: rs)) i rest = run s r i fun j => run s (ofSeq rs) j rest := by
  cases rs <;> rfl

/-- An expression for one text takes just that. -/
theorem run_ofSeq (ds : List Char) : ∀ (cs : List Char) (i : Nat),
    run ⟨.ofList ds, ds.length⟩ (ofSeq (cs.map fun c => .one (.single c))) i rest =
      if cs <+: ds.drop i then rest (i + cs.length) else none
  | [], i => by simp [ofSeq, run]
  | c :: cs, i => by
    rw [List.map_cons, run_ofSeq_cons, run]
    simp only [run_ofSeq ds cs]
    by_cases hi : i < ds.length
    · have hchar : (⟨.ofList ds, ds.length⟩ : Subject).charAt i = some ds[i] := by
        simp [Subject.charAt, Text.ofList, hi]
      simp only [hchar, List.drop_eq_getElem_cons hi, List.cons_prefix_cons, Option.any_some,
        CharSet.holds_single, decide_eq_true_eq, List.length_cons]
      by_cases hc : ds[i] = c
      · simp [hc, Nat.add_comm, Nat.add_left_comm]
      · simp [hc, Ne.symm hc]
    · have hchar : (⟨.ofList ds, ds.length⟩ : Subject).charAt i = none := by
        simp [Subject.charAt, hi]
      rw [hchar, List.drop_eq_nil_of_le (Nat.le_of_not_lt hi)]
      simp

end Regex

theorem Piece.matchesAll_exactly (source : String) (cs ds : List Char) :
    (exactly source cs).matchesAll ds = decide (ds = cs) := by
  have hiff : cs <+: ds ∧ cs.length = ds.length ↔ ds = cs :=
    ⟨fun ⟨h, hl⟩ => (h.eq_of_length hl).symm, fun h => h ▸ ⟨List.prefix_rfl, rfl⟩⟩
  rw [Pattern.matchesAll, exactly, Text.length_ofList, Regex.run_ofSeq, Bool.eq_iff_iff]
  by_cases h : cs <+: ds <;> simp [h, ← hiff]

/-! ## Terminals -/

namespace Terminal

/-- The terminal for a mark. -/
def ofMark (c : Char) (source : String := String.singleton c) : Terminal :=
  ⟨.punctuation, some (Piece.exactly source [c])⟩

/-- The terminal for a symbol with a given text. -/
def ofWord (text : String) : Terminal := ⟨.symbol, some (Piece.exactly text text.toList)⟩

/-- The terminal for all lexemes of a kind. -/
def ofKind (kind : Kind) : Terminal := ⟨kind, none⟩

variable {w : Word}

@[simp] theorem takes_ofMark {c : Char} {source : String} :
    (ofMark c source).takes w = decide (w = .mark c) := by
  obtain ⟨kind, text⟩ := w
  have htext : text.toList = [c] ↔ text = String.singleton c := by
    rw [← String.toList_inj, String.toList_singleton]
  rw [Bool.eq_iff_iff]
  simp [takes, ofMark, accepts, Piece.matchesAll_exactly, Word.mark, htext]

@[simp] theorem takes_ofWord {name : String} :
    (ofWord name).takes w = decide (w = .symbol name) := by
  obtain ⟨kind, text⟩ := w
  rw [Bool.eq_iff_iff]
  simp [takes, ofWord, accepts, Piece.matchesAll_exactly, Word.symbol, String.toList_inj]

@[simp] theorem takes_ofKind {kind : Kind} : (ofKind kind).takes w = decide (w.kind = kind) := by
  rw [Bool.eq_iff_iff]
  simp [takes, ofKind, accepts]

end Terminal

/-! ## Forms -/

/-- A row of terminals, and the piece that the texts they match make. -/
structure Form where
  terminals : List Terminal
  action : String
  piece : List String → Piece

namespace Form

/-- The alternative for a form. -/
def alternative (f : Form) : Alternative :=
  ⟨f.terminals.map .terminal, some (Piece.builds f.action f.piece)⟩

/-- The piece of the form that is next, and how many words it takes. -/
def read? (f : Form) (ws : List Word) : Option (Piece × Nat) :=
  if Terminal.fit f.terminals ws then
    some (f.piece ((ws.take f.terminals.length).map (·.text)), f.terminals.length)
  else none

/-- The piece of the first form that fits. -/
def first? (fs : List Form) (ws : List Word) : Option (Piece × Nat) := fs.findSome? (·.read? ws)

theorem first?_append (fs gs : List Form) (ws : List Word) :
    first? (fs ++ gs) ws = (first? fs ws).or (first? gs ws) := List.findSome?_append

end Form

namespace Piece

/-- The forms of pieces that are no items. -/
def forms : List Form :=
  [⟨[.ofMark '%', .ofWord "start", .ofKind .symbol], "start_directive", fun ts => start (ts.getD 2 "")⟩,
   ⟨[.ofMark '%', .ofWord "token", .ofKind .symbol], "token_directive", fun ts => token (ts.getD 2 "")⟩,
   ⟨[.ofKind .symbol, .ofMark ':'], "rule_head", fun ts => rule (ts.getD 0 "")⟩,
   ⟨[.ofMark '|' "\\|"], "alternative_separator", fun _ => separator⟩,
   ⟨[.ofMark ';'], "rule_terminator", fun _ => terminator⟩,
   ⟨[.ofMark '=', .ofMark '>', .ofKind .symbol], "action_reference", fun ts => action (ts.getD 2 "")⟩]

/-- The forms of items. -/
def itemForms : List Form :=
  [⟨[.ofKind .symbol, .ofKind .string], "pattern_item",
    fun ts => item (ts.getD 0 "") (some (String.ofList (unquote (ts.getD 1 "").toList)))⟩,
   ⟨[.ofKind .symbol], "plain_item", fun ts => item (ts.getD 0 "") none⟩]

theorem alternatives_declaration : grammar.alternatives? "declaration" =
    some (forms.map Form.alternative ++ [⟨[.rule "item"], none⟩]) := rfl

theorem alternatives_item : grammar.alternatives? "item" = some (itemForms.map Form.alternative) := rfl

/-- The piece that is next, and how many words it takes. -/
def next? (ws : List Word) : Option (Piece × Nat) :=
  (Form.first? forms ws).or (Form.first? itemForms ws)

/-! ## What is next is what is spelt -/

/-- Strings are read by taking off their quotes. -/
def Unquotes : Quoting := fun quoted pattern => pattern = String.ofList (unquote quoted.toList)

/-- The words could not go on with an item that is a symbol alone. -/
def Apart (ws : List Word) : Prop := ∀ w ∈ ws.head?, w ≠ .mark ':' ∧ w.kind ≠ .string

variable {ws us vs : List Word} {p : Piece} {ps : List Piece} {n : Nat}

/-- A piece starts with a mark of its own, or with a symbol. -/
theorem ne_nil_of_spellsPiece {Q : Quoting} (h : SpellsPiece Q us p) : us ≠ [] := by
  cases h <;> simp

theorem apart_of_spellsPiece {Q : Quoting} (h : SpellsPiece Q us p) : Apart (us ++ vs) := by
  cases h <;> simp [Apart, Kind.punctuation, Kind.symbol, Kind.string]

theorem apart_of_spellsPieces {Q : Quoting} (h : SpellsPieces Q ws ps) : Apart ws := by
  cases h with
  | nil => simp [Apart]
  | cons hp => exact apart_of_spellsPiece hp

/-- The words of a piece are taken for it. -/
theorem next?_of_spells (h : SpellsPiece Unquotes us p) (ha : Apart vs) :
    next? (us ++ vs) = some (p, us.length) := by
  have hps : Kind.punctuation ≠ .symbol := by decide
  cases h with
  | plain name =>
    cases vs with
    | nil => simp [next?, Form.first?, forms, itemForms, Form.read?]
    | cons w vs =>
      obtain ⟨h1, h2⟩ := ha w rfl
      simp [next?, Form.first?, forms, itemForms, Form.read?, h1, h2]
  | pattern name hq =>
    cases hq
    simp [next?, Form.first?, forms, itemForms, Form.read?]
  | _ => simp [next?, Form.first?, forms, itemForms, Form.read?, hps]

/-- Words that fit a form spell its piece. -/
theorem spells_of_fit {f : Form} (hf : f ∈ forms ++ itemForms) (h : Terminal.fit f.terminals ws = true) :
    SpellsPiece Unquotes (ws.take f.terminals.length)
      (f.piece ((ws.take f.terminals.length).map (·.text))) := by
  simp only [forms, itemForms, List.cons_append, List.nil_append, List.mem_cons, List.not_mem_nil,
    or_false] at hf
  have hone : ∀ {t}, Terminal.fit [t] ws = true → ∃ w vs, ws = w :: vs ∧ t.takes w = true := by
    cases ws <;> simp
  have htwo : ∀ {t t'}, Terminal.fit [t, t'] ws = true →
      ∃ w w' vs, ws = w :: w' :: vs ∧ t.takes w = true ∧ t'.takes w' = true := by
    rcases ws with _ | ⟨w, _ | ⟨w', vs⟩⟩ <;> simp
  have hthree : ∀ {t t' t''}, Terminal.fit [t, t', t''] ws = true → ∃ w w' w'' vs,
      ws = w :: w' :: w'' :: vs ∧ t.takes w = true ∧ t'.takes w' = true ∧ t''.takes w'' = true := by
    rcases ws with _ | ⟨w, _ | ⟨w', _ | ⟨w'', vs⟩⟩⟩ <;> simp
  rcases hf with rfl | rfl | rfl | rfl | rfl | rfl | rfl | rfl
  · obtain ⟨w, w', w'', vs, rfl, h1, h2, h3⟩ := hthree h
    simp only [Terminal.takes_ofMark, Terminal.takes_ofWord, Terminal.takes_ofKind,
      decide_eq_true_eq] at h1 h2 h3
    rw [h1, h2, Word.eq_symbol h3]
    exact .start _
  · obtain ⟨w, w', w'', vs, rfl, h1, h2, h3⟩ := hthree h
    simp only [Terminal.takes_ofMark, Terminal.takes_ofWord, Terminal.takes_ofKind,
      decide_eq_true_eq] at h1 h2 h3
    rw [h1, h2, Word.eq_symbol h3]
    exact .token _
  · obtain ⟨w, w', vs, rfl, h1, h2⟩ := htwo h
    simp only [Terminal.takes_ofMark, Terminal.takes_ofKind, decide_eq_true_eq] at h1 h2
    rw [h2, Word.eq_symbol h1]
    exact .rule _
  · obtain ⟨w, vs, rfl, h1⟩ := hone h
    simp only [Terminal.takes_ofMark, decide_eq_true_eq] at h1
    rw [h1]
    exact .separator
  · obtain ⟨w, vs, rfl, h1⟩ := hone h
    simp only [Terminal.takes_ofMark, decide_eq_true_eq] at h1
    rw [h1]
    exact .terminator
  · obtain ⟨w, w', w'', vs, rfl, h1, h2, h3⟩ := hthree h
    simp only [Terminal.takes_ofMark, Terminal.takes_ofKind, decide_eq_true_eq] at h1 h2 h3
    rw [h1, h2, Word.eq_symbol h3]
    exact .action _
  · obtain ⟨w, w', vs, rfl, h1, h2⟩ := htwo h
    simp only [Terminal.takes_ofKind, decide_eq_true_eq] at h1 h2
    rw [Word.eq_symbol h1, Word.eq_string h2]
    exact .pattern _ rfl
  · obtain ⟨w, vs, rfl, h1⟩ := hone h
    simp only [Terminal.takes_ofKind, decide_eq_true_eq] at h1
    rw [Word.eq_symbol h1]
    exact .plain _

/-- What is taken for a piece spells it. -/
theorem spells_of_next? (h : next? ws = some (p, n)) :
    SpellsPiece Unquotes (ws.take n) p ∧ n ≤ ws.length := by
  have hread : ∃ f ∈ forms ++ itemForms, f.read? ws = some (p, n) := by
    rw [next?, ← Form.first?_append] at h
    exact List.exists_of_findSome?_eq_some h
  obtain ⟨f, hf, hr⟩ := hread
  unfold Form.read? at hr
  split at hr
  · next hfit =>
    cases hr
    exact ⟨spells_of_fit hf hfit, Terminal.length_le_of_fit hfit⟩
  · cases hr

theorem pos_of_next? (h : next? ws = some (p, n)) : 0 < n := by
  have hne := ne_nil_of_spellsPiece (spells_of_next? h).1
  exact Nat.pos_of_ne_zero fun hn => hne (by rw [hn, List.take_zero])

/-! ## Pieces in a row -/

/-- Pieces are read one by one: the first of them is the one that is next. -/
theorem spellsPieces_iff_of_next? (h : next? ws = some (p, n)) :
    SpellsPieces Unquotes ws ps ↔ ∃ qs, ps = p :: qs ∧ SpellsPieces Unquotes (ws.drop n) qs := by
  constructor
  · intro hs
    cases hs with
    | nil => cases h
    | @cons us vs p' qs hp hr =>
      rw [next?_of_spells hp (apart_of_spellsPieces hr)] at h
      cases h
      exact ⟨qs, rfl, by rwa [List.drop_left]⟩
  · rintro ⟨qs, rfl, hr⟩
    rw [← List.take_append_drop n ws]
    exact .cons (spells_of_next? h).1 hr

/-- Words spell one row of pieces at most. -/
theorem spellsPieces_unique (h : SpellsPieces Unquotes ws ps) :
    ∀ {qs : List Piece}, SpellsPieces Unquotes ws qs → qs = ps := by
  induction h with
  | nil =>
    intro qs hq
    generalize hw : ([] : List Word) = ws at hq
    cases hq with
    | nil => rfl
    | cons hp => exact absurd (List.append_eq_nil_iff.mp hw.symm).1 (ne_nil_of_spellsPiece hp)
  | cons hp hr ih =>
    intro qs hq
    have hnext := next?_of_spells hp (apart_of_spellsPieces hr)
    obtain ⟨qs, rfl, hqs⟩ := (spellsPieces_iff_of_next? hnext).mp hq
    rw [List.drop_left] at hqs
    rw [ih hqs]

/-- Words that start with no piece are no row of pieces. -/
theorem not_spellsPieces (hne : ws ≠ []) (h : next? ws = none) : ¬ SpellsPieces Unquotes ws ps := by
  intro hs
  cases hs with
  | nil => exact hne rfl
  | cons hp hr =>
    rw [next?_of_spells hp (apart_of_spellsPieces hr)] at h
    cases h

end Piece

end Outline
