import Outline.Definition.Unquote
import Outline.Proofs.Definition.Forms
import Outline.Proofs.Lexer.Extent

/-!
# Putting in quotes

A pattern is put between two quotes of either sort, with a backslash before every backslash and every quote of
that sort. All other characters stand for themselves, line ends and the other quote among them.

* `Unquote.escape`, `Unquote.quote`, **`Unquote.unquote_quote`**: taking off the quotes gives the text back;
* `Piece.Quotes`, `Piece.unquotes_of_quotes`: this way of quoting is one that is read;
* `Piece.stringEnd_quote`: a text in quotes is one string, whatever is in it and behind it.
-/

namespace Outline

namespace Unquote

/-- A character inside of quotes. -/
def escape (q c : Char) : List Char := if c = '\\' ∨ c = q then ['\\', c] else [c]

/-- A text between quotes. -/
def quote (q : Char) (cs : List Char) : List Char := q :: (cs.flatMap (escape q) ++ [q])

variable {q c : Char}

theorem unescape_cons (h : c ≠ '\\') (cs : List Char) : unescape (c :: cs) = c :: unescape cs := by
  rw [unescape.eq_def]
  split
  · next heq => exact absurd (List.cons.inj heq).1 h
  · next heq =>
    obtain ⟨rfl, rfl⟩ := List.cons.inj heq
    rfl
  · next heq => cases heq

theorem pair_of_escaped (hq : q = '\'' ∨ q = '"') (h : c = '\\' ∨ c = q) : pair c = [c] := by
  obtain rfl | rfl := h
  · rfl
  · obtain rfl | rfl := hq <;> rfl

theorem unescape_escape (hq : q = '\'' ∨ q = '"') (cs : List Char) :
    unescape (cs.flatMap (escape q)) = cs := by
  induction cs with
  | nil => rfl
  | cons c cs ih =>
    rw [List.flatMap_cons, escape]
    split
    · next h =>
      rw [List.cons_append, List.cons_append, unescape, pair_of_escaped hq h, List.nil_append, ih]
      rfl
    · next h =>
      rw [List.singleton_append, unescape_cons (fun hc => h (.inl hc)), ih]

/-- **Taking off the quotes undoes putting them on.** -/
theorem unquote_quote (hq : q = '\'' ∨ q = '"') (cs : List Char) : unquote (quote q cs) = cs := by
  rw [unquote, quote, List.drop_one, List.tail_cons, List.dropLast_concat, unescape_escape hq]

end Unquote

namespace Piece

open Unquote

/-- Patterns are put between quotes of either sort. -/
def Quotes : Quoting := fun quoted pattern =>
  ∃ q, (q = '\'' ∨ q = '"') ∧ quoted = String.ofList (quote q pattern.toList)

theorem unquotes_of_quotes {quoted pattern : String} (h : Quotes quoted pattern) :
    Unquotes quoted pattern := by
  obtain ⟨q, hq, rfl⟩ := h
  rw [Unquotes, String.toList_ofList, unquote_quote hq, String.ofList_toList]

variable {q : Char} {stop opening : Nat}

theorem stringEnd_quote (hq : q ≠ '\\') (cs rest : List Char) : ∀ i : Nat,
    stringEnd alphabet stop opening q i (cs.flatMap (escape q) ++ q :: rest) =
      .ok (i + (cs.flatMap (escape q)).length + 1) := by
  have hplain : ∀ {c : Char}, c ≠ '\\' → ¬ alphabet.escapes.contains c = true := by
    intro c hc
    simpa [alphabet] using hc
  induction cs with
  | nil => exact fun i => by rw [List.flatMap_nil, List.nil_append, stringEnd_cons (hplain hq), if_pos rfl]; rfl
  | cons c cs ih =>
    intro i
    rw [List.flatMap_cons, List.append_assoc, List.length_append, escape]
    split
    · next h =>
      rw [List.cons_append, List.cons_append, List.nil_append, stringEnd, if_pos (by decide), ih]
      exact congrArg Except.ok (by simp only [List.length_cons, List.length_nil]; omega)
    · next h =>
      rw [List.singleton_append, stringEnd_cons (hplain fun hc => h (.inl hc)),
        if_neg fun hc => h (.inr hc), ih]
      exact congrArg Except.ok (by simp only [List.length_cons, List.length_nil]; omega)

end Piece

end Outline
