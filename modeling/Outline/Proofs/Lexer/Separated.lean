import Outline.Proofs.Lexer.Piece

/-!
# Where lexing and passing over agree

The lexer and the reader that passes over a group ask for the roles of a character in different orders,
and the one takes a symbol at once where the other goes on character by character. Both come to the
same if no character has roles that the orders could tell apart.

* `Alphabet.Separated`: blanks, symbols and the starts of comments have no role inside a group;
* **`Lexer.closes_iff_of_passed`**: what the lexer passes over can be left out of a group;
* `Lexer.partAt_of_opener`, `Lexer.partAt_of_closer`, `Lexer.unrecognised_of_closes`: the other pieces;
* `Alphabet.separated_cLike`, `Alphabet.separated_lispLike`: two alphabets of this sort.
-/

namespace Outline

namespace Alphabet

/-- No blank and no character of a symbol is an escape, a bracket or a quote, and no comment starts with
any of those, a blank or a character of a symbol. -/
structure Separated (a : Alphabet) : Prop where
  marked : a.Marked
  role_blank : ∀ c, a.blanks.contains c = true → a.role c = .other
  role_symbol : ∀ c, a.isSymbolChar c = true → a.role c = .other
  comment : ∀ k ∈ a.comments, ∀ c, k.opener.head? = some c →
    a.blanks.contains c = false ∧ a.isSymbolChar c = false ∧ a.role c = .other

variable {a : Alphabet} {t : Text} {stop i j e : Nat} {closer : List Char}

theorem head_of_commentAt (ha : a.Marked) (hi : i < stop) (ht : stop ≤ t.length) {k : Comment}
    (h : a.commentAt (t.range i stop) = some k) :
    k ∈ a.comments ∧ k.opener.head? = some (t.charAt i) := by
  obtain ⟨hk, hp⟩ := commentAt_mem h
  rw [Text.range_eq_cons hi ht] at hp
  cases ho : k.opener with
  | nil => exact absurd ho (ha k hk)
  | cons c cs =>
    rw [ho, List.isPrefixOf_cons_cons, Bool.and_eq_true] at hp
    have hc : c = t.charAt i := by simpa using hp.1
    exact ⟨hk, by rw [hc]; rfl⟩

namespace Separated

theorem commentAt_of_blank (ha : a.Separated) (hi : i < stop) (ht : stop ≤ t.length)
    (hb : a.blanks.contains (t.charAt i) = true) : a.commentAt (t.range i stop) = none := by
  cases h : a.commentAt (t.range i stop) with
  | none => rfl
  | some k =>
    obtain ⟨hk, hc⟩ := head_of_commentAt ha.marked hi ht h
    rw [(ha.comment k hk _ hc).1] at hb
    cases hb

theorem commentAt_of_symbol (ha : a.Separated) (hi : i < stop) (ht : stop ≤ t.length)
    (hs : a.isSymbolChar (t.charAt i) = true) : a.commentAt (t.range i stop) = none := by
  cases h : a.commentAt (t.range i stop) with
  | none => rfl
  | some k =>
    obtain ⟨hk, hc⟩ := head_of_commentAt ha.marked hi ht h
    rw [(ha.comment k hk _ hc).2.1] at hs
    cases hs

theorem role_of_comment (ha : a.Separated) (hi : i < stop) (ht : stop ≤ t.length) {k : Comment}
    (h : a.commentAt (t.range i stop) = some k) : a.role (t.charAt i) = .other := by
  obtain ⟨hk, hc⟩ := head_of_commentAt ha.marked hi ht h
  exact (ha.comment k hk _ hc).2.2

end Separated

/-! ## Closing behind a part -/

theorem closes_iff_of_part (hi : i < stop) (h : a.partAt t stop i = .ok (.passed j)) :
    a.Closes t stop closer i e ↔ a.Closes t stop closer j e := by
  constructor
  · intro hc
    cases hc with
    | close _ h' => rw [h] at h'; cases h'
    | pass _ h' hr => rw [h] at h'; cases h'; exact hr
    | group _ h' => rw [h] at h'; cases h'
  · exact .pass hi h

end Alphabet

namespace Lexer

open Alphabet

variable {x : Lexer} {t : Text} {stop i j e : Nat} {closer : List Char}

/-! ## Pieces inside of groups -/

/-- A symbol is passed over character by character. -/
theorem closes_iff_of_symbol (hs : x.alphabet.Separated) (ht : stop ≤ t.length) :
    ∀ (n i : Nat), (x.symbolAt t stop i).length = n →
      (x.alphabet.Closes t stop closer i e ↔ x.alphabet.Closes t stop closer (i + n) e)
  | 0, i, _ => Iff.rfl
  | n + 1, i, h => by
    unfold symbolAt at h
    have hi : i < stop := by
      by_cases hi : i < stop
      · exact hi
      · rw [Text.range_eq_nil (by omega)] at h
        cases h
    have hc : x.alphabet.isSymbolChar (t.charAt i) = true := by
      by_cases hc : x.alphabet.isSymbolChar (t.charAt i) = true
      · exact hc
      · rw [Text.range_eq_cons hi ht, List.takeWhile_cons_of_neg hc] at h
        cases h
    rw [Text.range_eq_cons hi ht, List.takeWhile_cons_of_pos hc, List.length_cons] at h
    have hpart := (HasPart.other (hs.role_symbol _ hc) (hs.commentAt_of_symbol hi ht hc)).partAt_eq
    rw [closes_iff_of_part hi hpart,
      closes_iff_of_symbol hs ht n (i + 1) (Nat.succ.inj h), Nat.add_right_comm, Nat.add_assoc]

/-- **What the lexer passes over makes no difference to where a group closes.** -/
theorem closes_iff_of_passed (ha : x.alphabet.Separated) (hi : i < stop) (ht : stop ≤ t.length)
    {l : Option Lexeme} (h : x.pieceAt t stop i = .ok (.passed l j)) :
    x.alphabet.Closes t stop closer i e ↔ x.alphabet.Closes t stop closer j e := by
  have hs := x.stands t stop i
  rw [h] at hs
  cases hs with
  | blank hb =>
    exact closes_iff_of_part hi
      (HasPart.other (ha.role_blank _ hb) (ha.commentAt_of_blank hi ht hb)).partAt_eq
  | comment _ hk he =>
    have hr := ha.role_of_comment hi ht hk
    exact closes_iff_of_part hi (HasPart.comment hr hk he).partAt_eq
  | symbol => exact closes_iff_of_symbol ha ht _ i rfl
  | escape _ _ _ hr =>
    rw [closes_iff_of_part hi (HasPart.escape hr).partAt_eq]
    by_cases hlast : i + 2 ≤ stop
    · rw [Nat.min_eq_left hlast]
    · -- an escape at the end of the stretch leaves nothing that could close
      rw [Nat.min_eq_right (by omega)]
      refine iff_of_false (fun hcl => ?_) fun hcl => ?_
      · have hlt := hcl.lt ha.marked
        omega
      · have hlt := hcl.lt ha.marked
        omega
  | string _ _ _ hr he => exact closes_iff_of_part hi (HasPart.string hr he).partAt_eq
  | punctuation _ hk _ hr => exact closes_iff_of_part hi (HasPart.other hr hk).partAt_eq

/-- An opening bracket of the lexer is one inside a group. -/
theorem partAt_of_opener {inner : List Char} (h : x.pieceAt t stop i = .ok (.opener inner)) :
    x.alphabet.partAt t stop i = .ok (.opener inner) := by
  have hs := x.stands t stop i
  rw [h] at hs
  cases hs with
  | opener _ _ _ hr => exact (HasPart.opener hr).partAt_eq

/-- A closing bracket of the lexer is one inside a group. -/
theorem partAt_of_closer (h : x.pieceAt t stop i = .ok .closer) :
    x.alphabet.partAt t stop i = .ok .closer := by
  have hs := x.stands t stop i
  rw [h] at hs
  cases hs with
  | closer _ _ _ hr => exact (HasPart.closer hr).partAt_eq

/-- In a group that closes the lexer can come upon nothing worse than a character that it does not
recognise, and it does so whatever the stretch. -/
theorem unrecognised_of_closes (ha : x.alphabet.Separated) (hi : i < stop) (ht : stop ≤ t.length)
    {h : Halt} (hcl : x.alphabet.Closes t stop closer i e) (hp : x.pieceAt t stop i = .error h) :
    h = .fault i (.unrecognised (t.charAt i)) ∧ i + 1 < e ∧
      ∀ b ≤ stop, x.pieceAt t b i = .error h := by
  have hpart : ∃ p, x.alphabet.partAt t stop i = .ok p := by
    cases hcl with
    | close _ h => exact ⟨_, h⟩
    | pass _ h => exact ⟨_, h⟩
    | group _ h => exact ⟨_, h⟩
  obtain ⟨p, hpart⟩ := hpart
  have hs := x.stands t stop i
  rw [hp] at hs
  cases hs with
  | openComment _ hk he =>
    rw [(HasPart.openComment (ha.role_of_comment hi ht hk) hk he).partAt_eq] at hpart
    cases hpart
  | openString _ _ _ hr he =>
    rw [(HasPart.openString hr he).partAt_eq] at hpart
    cases hpart
  | unrecognised hb hk hc hr hpu =>
    have hrest := (closes_iff_of_part hi (HasPart.other hr hk).partAt_eq).mp hcl
    exact ⟨rfl, (hrest.lt ha.marked).1, fun b hle =>
      (Stands.unrecognised hb (commentAt_bound hle hk) hc hr hpu).pieceAt_eq⟩

end Lexer

/-! ## Alphabets of this sort -/

namespace Alphabet

/-- The characters that can have a role inside a group. -/
def marks (a : Alphabet) : List Char :=
  a.escapes ++ (a.brackets.flatMap fun b => b.opener ++ b.closer) ++ a.quotes

theorem mem_of_mem_inForce {b : Bracket} : ∀ {bs : List Bracket}, b ∈ inForce bs → b ∈ bs
  | [], h => h
  | d :: bs, h => by
    unfold inForce at h
    split at h
    · exact List.mem_cons_of_mem _ (mem_of_mem_inForce h)
    · obtain rfl | h := List.mem_cons.mp h
      · exact List.mem_cons_self
      · exact List.mem_cons_of_mem _ (mem_of_mem_inForce h)

theorem role_of_not_mem_marks {a : Alphabet} {c : Char} (h : c ∉ a.marks) : a.role c = .other := by
  simp only [marks, List.mem_append, List.mem_flatMap, not_or, not_exists, not_and] at h
  obtain ⟨⟨he, hb⟩, hq⟩ := h
  have ho : a.closerOf? c = none := by
    rw [closerOf?, Option.map_eq_none_iff, List.find?_eq_none]
    intro b hb' hc
    have hop : b.opener = [c] := by simpa using hc
    exact (hb b (mem_of_mem_inForce hb')).1 (by rw [hop]; exact List.mem_singleton_self c)
  have hcl : ¬ a.isCloser c = true := by
    intro hc
    obtain ⟨b, hb', hc⟩ := List.any_eq_true.mp hc
    have hcc : b.closer = [c] := by simpa using hc
    exact (hb b (mem_of_mem_inForce hb')).2 (by rw [hcc]; exact List.mem_singleton_self c)
  rw [role, if_neg (by simpa using he), ho]
  simp only
  rw [if_neg hcl, if_neg (by simpa using hq)]

/-- The character is no blank and no part of a symbol. -/
def isApart (a : Alphabet) (c : Char) : Bool := !a.blanks.contains c && !a.isSymbolChar c

theorem isApart_iff {a : Alphabet} {c : Char} :
    a.isApart c = true ↔ a.blanks.contains c = false ∧ a.isSymbolChar c = false := by
  simp [isApart]

/-- That an alphabet is separated can be seen from its marks. -/
theorem separated_of_marks {a : Alphabet} (h1 : ∀ k ∈ a.comments, k.opener ≠ [])
    (h2 : a.marks.all a.isApart = true)
    (h3 : (a.comments.all fun k => k.opener.head?.all fun c => a.isApart c && !a.marks.contains c) =
      true) : a.Separated where
  marked := h1
  role_blank c hc := role_of_not_mem_marks fun hm => by
    have hapart := List.all_eq_true.mp h2 c hm
    rw [(isApart_iff.mp hapart).1] at hc
    cases hc
  role_symbol c hc := role_of_not_mem_marks fun hm => by
    have hapart := List.all_eq_true.mp h2 c hm
    rw [(isApart_iff.mp hapart).2] at hc
    cases hc
  comment k hk c hc := by
    have hhead := List.all_eq_true.mp h3 k hk
    rw [hc, Option.all_some, Bool.and_eq_true] at hhead
    obtain ⟨hapart, hm⟩ := hhead
    obtain ⟨hb, hs⟩ := isApart_iff.mp hapart
    exact ⟨hb, hs, role_of_not_mem_marks (by simpa using hm)⟩

theorem separated_cLike : cLike.Separated :=
  separated_of_marks (by decide) (by rfl) (by rfl)

theorem separated_lispLike : lispLike.Separated :=
  separated_of_marks (by decide) (by rfl) (by rfl)

end Alphabet

end Outline
