import Outline.Proofs.Lexer.Cuts
import Outline.Proofs.Lexer.Separated

/-!
# Groups that are not looked into

A text whose brackets nest can be lexed with all of them looked into or with none. The two agree outside
of the groups, and on where the groups end if the reader that passes over a group finds the end that the
lexer finds.

* `Lexer.Silent`, `Lexer.Cuts.first`, `Lexer.Cuts.behind`: the first of some lexemes, and those behind one;
* `Alphabet.Nested`: lexemes with their brackets in pairs, and the outermost pairs as groups;
* `Alphabet.Spans`: a group ends where the reader that passes over it says;
* `Lexer.Cuts.fold`, `Lexer.Cuts.spans`: the groups make the lexemes, and they end there if the alphabet is
  separated;
* **`Lexer.lex_opaque_iff`**: when lexing without looking into brackets gives the outermost groups;
* `Lexer.starred`: a lexer with comments that start like a group, where it does not.
-/

namespace Outline

open Alphabet

/-! ## First lexemes -/

namespace Lexer

variable {x : Lexer} {t : Text} {stop i j e depth : Nat} {limit : Option Int}

/-- From one offset to another there is nothing but what makes no lexeme. -/
inductive Silent (x : Lexer) (t : Text) (stop : Nat) : Nat → Nat → Prop where
  | refl {i : Nat} : Silent x t stop i i
  | step {i j k : Nat} (hi : i < stop) (h : x.pieceAt t stop i = .ok (.passed none j))
      (hr : Silent x t stop j k) : Silent x t stop i k

namespace Silent

theorem cuts {ls : List Lexeme} (h : x.Silent t stop i j) (hc : x.Cuts t stop limit depth j ls) :
    x.Cuts t stop limit depth i ls := by
  induction h with
  | refl => exact hc
  | step hi h _ ih => exact .passed hi h (ih hc)

theorem closes {closer : List Char} (ha : x.alphabet.Separated) (ht : stop ≤ t.length)
    (h : x.Silent t stop i j) (hc : x.alphabet.Closes t stop closer j e) :
    x.alphabet.Closes t stop closer i e := by
  induction h with
  | refl => exact hc
  | step hi h _ ih => exact (closes_iff_of_passed ha hi ht h).mpr (ih hc)

end Silent

/-- What the first of some lexemes comes from, all brackets being looked into. -/
inductive First (x : Lexer) (t : Text) (stop i : Nat) (ls : List Lexeme) : Lexeme → Prop where
  | passed {l : Lexeme} {j : Nat} (h : x.pieceAt t stop i = .ok (.passed (some l) j))
      (hr : ∃ depth, x.Cuts t stop none depth j ls) : First x t stop i ls l
  | opens {closer : List Char} (h : x.pieceAt t stop i = .ok (.opener closer))
      (hr : ∃ depth, x.Cuts t stop none depth (i + 1) ls) :
      First x t stop i ls (.between .openParen i (i + 1))
  | closes (h : x.pieceAt t stop i = .ok .closer) (hr : ∃ depth, x.Cuts t stop none depth (i + 1) ls) :
      First x t stop i ls (.between .closeParen i (i + 1))

namespace Cuts

theorem silent (h : x.Cuts t stop none depth i []) : ∃ k, x.Silent t stop i k ∧ stop ≤ k := by
  generalize hls : ([] : List Lexeme) = ls at h
  induction h with
  | done hi => exact ⟨_, .refl, hi⟩
  | @passed depth i j p ls' hi h hr ih =>
    cases p with
    | none =>
      obtain ⟨k, hs, hk⟩ := ih hls
      exact ⟨k, .step hi h hs, hk⟩
    | some p => cases hls
  | opens => cases hls
  | group => cases hls
  | closes => cases hls

theorem first {l : Lexeme} {ls : List Lexeme} (h : x.Cuts t stop none depth i (l :: ls)) :
    ∃ k, x.Silent t stop i k ∧ k < stop ∧ x.First t stop k ls l := by
  generalize hls : l :: ls = ls' at h
  induction h with
  | done => cases hls
  | @passed depth i j p ls' hi h hr ih =>
    cases p with
    | none =>
      obtain ⟨k, hs, hk, hf⟩ := ih hls
      exact ⟨k, .step hi h hs, hk, hf⟩
    | some p =>
      obtain ⟨rfl, rfl⟩ := List.cons.inj hls
      exact ⟨i, .refl, hi, .passed h ⟨_, hr⟩⟩
  | @opens depth i closer ls' hi h _ hr =>
    obtain ⟨rfl, rfl⟩ := List.cons.inj hls
    exact ⟨i, .refl, hi, .opens h ⟨_, hr⟩⟩
  | group _ _ hl => exact absurd rfl hl
  | @closes depth i ls' hi h hr =>
    obtain ⟨rfl, rfl⟩ := List.cons.inj hls
    exact ⟨i, .refl, hi, .closes h ⟨_, hr⟩⟩

end Cuts

namespace First

/-- Behind the first lexeme there are the others. -/
theorem behind {l : Lexeme} {ls : List Lexeme} (h : x.First t stop i ls l) :
    ∃ j : Nat, l.stop = j ∧ ∃ depth, x.Cuts t stop none depth j ls := by
  cases h with
  | @passed l j h hr =>
    obtain ⟨kind, rfl, -⟩ := lexeme_of_passed h
    exact ⟨j, rfl, hr⟩
  | opens h hr => exact ⟨_, rfl, hr⟩
  | closes h hr => exact ⟨_, rfl, hr⟩

end First

/-- Behind a lexeme there are those behind it. -/
theorem Cuts.behind {l : Lexeme} {ls : List Lexeme} : ∀ {before : List Lexeme} {depth i : Nat},
    x.Cuts t stop none depth i (before ++ l :: ls) →
      ∃ j : Nat, l.stop = j ∧ ∃ depth, x.Cuts t stop none depth j ls
  | [], _, _, h => by
    obtain ⟨k, _, _, hf⟩ := h.first
    exact hf.behind
  | _ :: before, _, _, h => by
    obtain ⟨k, _, _, hf⟩ := h.first
    obtain ⟨j, -, depth, hr⟩ := hf.behind
    exact hr.behind

end Lexer

/-! ## Pairs of brackets -/

namespace Alphabet

/-- Lexemes whose brackets come in pairs, each closer being the one that its opener asks for, and the
lexemes with the outermost pairs as groups. -/
inductive Nested (a : Alphabet) (t : Text) : List Lexeme → List Lexeme → Prop where
  | nil : Nested a t [] []
  | other {l : Lexeme} {ls folded : List Lexeme} (ho : l.kind ≠ .openParen) (hc : l.kind ≠ .closeParen)
      (hr : Nested a t ls folded) : Nested a t (l :: ls) (l :: folded)
  | group {o c : Lexeme} {inner within ls folded : List Lexeme} (ho : o.kind = .openParen)
      (hc : c.kind = .closeParen)
      (hp : a.closerOf? (t.charAt o.start.toNat) = some [t.charAt c.start.toNat])
      (hi : Nested a t inner within) (hr : Nested a t ls folded) :
      Nested a t (o :: (inner ++ c :: ls)) (⟨.semanticList, o.start, c.stop⟩ :: folded)

/-- Passing over a group from behind its opener ends where the group does. -/
def Spans (a : Alphabet) (t : Text) (stop : Nat) (l : Lexeme) : Prop :=
  ∃ closer, a.closerOf? (t.charAt l.start.toNat) = some closer ∧
    a.Closes t stop closer (l.start.toNat + 1) l.stop.toNat

end Alphabet

namespace Lexer

variable {x : Lexer} {t : Text} {stop i depth : Nat} {ls folded : List Lexeme}

section Fold

variable (hk : ∀ p ∈ x.keywords, p.2 ∉ Kind.ofBrackets)
include hk

theorem kind_ne_of_passed {l : Lexeme} {j : Nat} (h : x.pieceAt t stop i = .ok (.passed (some l) j))
    {k : Kind} (hb : k ∈ Kind.ofBrackets) : l.kind ≠ k :=
  kind_of_passed h hb fun p hp heq => hk p hp (heq ▸ hb)

/-- An opener among the first lexemes is an opener of the text. -/
theorem First.opener {l : Lexeme} (h : x.First t stop i ls l) (hl : l.kind = .openParen) :
    ∃ closer, x.pieceAt t stop i = .ok (.opener closer) ∧ l = .between .openParen i (i + 1) ∧
      ∃ depth, x.Cuts t stop none depth (i + 1) ls := by
  cases h with
  | passed h _ => exact absurd hl (kind_ne_of_passed hk h (by decide))
  | opens h hr => exact ⟨_, h, rfl, hr⟩
  | closes =>
    have hne : Kind.closeParen ≠ Kind.openParen := by decide
    exact absurd hl hne

/-- **Where the groups end as passing over them says, they are the lexemes.** -/
theorem Cuts.fold (hn : x.alphabet.Nested t ls folded)
    (hs : ∀ l ∈ folded, l.kind = .semanticList → x.alphabet.Spans t stop l) :
    ∀ {depth i d : Nat}, x.Cuts t stop none depth i ls → x.Cuts t stop (some 0) d i folded := by
  induction hn with
  | nil =>
    intro depth i d h
    obtain ⟨k, hsil, hk⟩ := h.silent
    exact hsil.cuts (.done hk)
  | @other l ls folded ho hc _ ih =>
    intro depth i d h
    obtain ⟨k, hsil, hk', hf⟩ := h.first
    cases hf with
    | passed h hr =>
      obtain ⟨depth, hr⟩ := hr
      exact hsil.cuts (.passed hk' h (ih (fun l hl => hs l (List.mem_cons_of_mem _ hl)) hr))
    | opens => exact absurd rfl ho
    | closes => exact absurd rfl hc
  | @group o c inner within ls folded ho _ _ _ _ _ ih =>
    intro depth i d h
    obtain ⟨k, hsil, hk', hf⟩ := h.first
    obtain ⟨closer, hp, rfl, _, hr⟩ := hf.opener hk ho
    obtain ⟨j, hj, _, hr⟩ := hr.behind
    -- The cut goes on behind the closer of the pair, which is where the group ends.
    obtain ⟨closer', hc', hcl⟩ := hs _ List.mem_cons_self rfl
    rw [hj] at hcl ⊢
    obtain rfl : closer = closer' := Option.some.inj ((closerOf?_of_opener hp).symm.trans hc')
    exact hsil.cuts (.group hk' hp (by simp) hcl
      (ih (fun l hl => hs l (List.mem_cons_of_mem _ hl)) hr))

/-- A closer among the first lexemes is a closer of the text. -/
theorem First.closer {l : Lexeme} (h : x.First t stop i ls l) (hl : l.kind = .closeParen) :
    x.pieceAt t stop i = .ok .closer ∧ l = .between .closeParen i (i + 1) := by
  cases h with
  | passed h _ => exact absurd hl (kind_ne_of_passed hk h (by decide))
  | opens =>
    have hne : Kind.openParen ≠ Kind.closeParen := by decide
    exact absurd hl hne
  | closes h _ => exact ⟨h, rfl⟩

variable (ha : x.alphabet.Separated) (ht : stop ≤ t.length)
include ha ht

/-- From the inside of a pair of brackets on, passing over it ends at its closer. -/
theorem closes_of_nested (hn : x.alphabet.Nested t ls folded) :
    ∀ {c : Lexeme} {rest : List Lexeme} {depth i : Nat}, c.kind = .closeParen →
      x.Cuts t stop none depth i (ls ++ c :: rest) →
      x.alphabet.Closes t stop [t.charAt c.start.toNat] i c.stop.toNat := by
  induction hn with
  | nil =>
    intro c rest depth i hc h
    obtain ⟨k, hsil, hk', hf⟩ := h.first
    obtain ⟨hp, rfl⟩ := hf.closer hk hc
    exact hsil.closes ha ht (.close hk' (partAt_of_closer hp) rfl)
  | @other l ls folded ho hc' _ ih =>
    intro c rest depth i hc h
    obtain ⟨k, hsil, hk', hf⟩ := h.first
    cases hf with
    | passed h hr =>
      obtain ⟨_, hr⟩ := hr
      exact hsil.closes ha ht ((closes_iff_of_passed ha hk' ht h).mpr (ih hc hr))
    | opens => exact absurd rfl ho
    | closes => exact absurd rfl hc'
  | @group o c' inner within ls folded ho hc' hpair _ _ ihi ihr =>
    intro c rest depth i hc h
    rw [List.cons_append, List.append_assoc, List.cons_append] at h
    obtain ⟨k, hsil, hk', hf⟩ := h.first
    obtain ⟨closer, hp, rfl, _, hr⟩ := hf.opener hk ho
    -- What is between the pair closes at `c'`, and what is behind it at `c`.
    have hin := ihi hc' hr
    obtain ⟨j, hj, _, hr⟩ := hr.behind
    rw [hj] at hin
    obtain rfl : closer = _ := Option.some.inj ((closerOf?_of_opener hp).symm.trans hpair)
    exact hsil.closes ha ht (.group hk' (partAt_of_opener hp) hin (ihr hc hr))

/-- **In a separated alphabet passing over a group ends where its pair of brackets does.** -/
theorem Cuts.spans (hn : x.alphabet.Nested t ls folded) :
    ∀ {depth i : Nat}, x.Cuts t stop none depth i ls →
      ∀ l ∈ folded, l.kind = .semanticList → x.alphabet.Spans t stop l := by
  induction hn with
  | nil => exact fun _ l hl => absurd hl List.not_mem_nil
  | @other l ls folded ho hc _ ih =>
    intro depth i h l' hl' hkind
    obtain ⟨k, _, _, hf⟩ := h.first
    obtain rfl | hl' := List.mem_cons.mp hl'
    · cases hf with
      | passed h _ => exact absurd hkind (kind_ne_of_passed hk h (by decide))
      | opens => exact absurd rfl ho
      | closes => exact absurd rfl hc
    · obtain ⟨_, _, _, hr⟩ := hf.behind
      exact ih hr l' hl' hkind
  | @group o c inner within ls folded ho hc hpair hi _ _ ih =>
    intro depth i h l' hl' hkind
    obtain ⟨k, _, _, hf⟩ := h.first
    obtain ⟨closer, _, rfl, _, hr⟩ := hf.opener hk ho
    obtain rfl | hl' := List.mem_cons.mp hl'
    · exact ⟨_, hpair, closes_of_nested hk ha ht hi hc hr⟩
    · obtain ⟨_, _, _, hr⟩ := hr.behind
      exact ih hr l' hl' hkind

end Fold

/-! ## All groups at once -/

/-- **Lexing without looking into brackets gives the outermost pairs as groups, and the lexemes outside
of them, just if passing over each of these groups ends at its closer.** In a separated alphabet it does. -/
theorem lex_opaque_iff {x : Lexer} {t : Text} {start : Int} {stop : Option Int} {c : Cursor}
    {folded : List Lexeme} (hx : x.extensions = []) (hk : ∀ p ∈ x.keywords, p.2 ∉ Kind.ofBrackets)
    (hm : x.alphabet.Marked) (h : x.lex t start stop none = .ok c)
    (hn : x.alphabet.Nested t c.lexemes.toList folded) :
    (x.lex t start stop (some 0) = .ok { c with lexemes := folded.toArray } ↔
      ∀ l ∈ folded, l.kind = .semanticList → x.alphabet.Spans t c.stop l) ∧
    (x.alphabet.Separated → x.lex t start stop (some 0) = .ok { c with lexemes := folded.toArray }) := by
  obtain ⟨s, e, rfl, he, hse, ht, ls, hc, rfl⟩ := (lex_eq_ok_iff hx hm).mp h
  have hfold : (∀ l ∈ folded, l.kind = .semanticList → x.alphabet.Spans t e l) →
      x.lex t s stop (some 0) = .ok ⟨t, folded.toArray, s, e, 0⟩ := fun hs =>
    (lex_eq_ok_iff hx hm).mpr ⟨s, e, rfl, he, hse, ht, folded, hc.fold hk hn hs, rfl⟩
  refine ⟨⟨?_, hfold⟩, fun ha => hfold (hc.spans hk ha ht hn)⟩
  intro h0 l hl hkind
  obtain ⟨s', e', hs', he', -, -, ls', hc', heq⟩ := (lex_eq_ok_iff hx hm).mp h0
  obtain rfl : e = e' := Int.ofNat.inj (he.symm.trans he')
  obtain rfl : folded = ls' := by simpa using congrArg Cursor.lexemes heq
  obtain ⟨a, b, closer, rfl, hp, hg⟩ := hc'.group_of_mem
    (fun p hp heq => hk p hp (heq ▸ by decide)) l hl hkind
  exact ⟨closer, closerOf?_of_opener hp, hg⟩

/-- A group with another in it is one lexeme. -/
theorem lex_group_in_group : ({} : Lexer).lex (.ofString "(a [b]) c") 0 none (some 0) =
    .ok ⟨.ofString "(a [b]) c", #[⟨.semanticList, 0, 7⟩, ⟨.symbol, 8, 9⟩], 0, 9, 0⟩ := by
  have h : ({} : Lexer).lex (.ofString "(a [b]) c") 0 none none =
      .ok ⟨.ofString "(a [b]) c", #[⟨.openParen, 0, 1⟩, ⟨.symbol, 1, 2⟩, ⟨.openParen, 3, 4⟩,
        ⟨.symbol, 4, 5⟩, ⟨.closeParen, 5, 6⟩, ⟨.closeParen, 6, 7⟩, ⟨.symbol, 8, 9⟩], 0, 9, 0⟩ := by rfl
  have hin : cLike.Nested (.ofString "(a [b]) c")
      [⟨.symbol, 1, 2⟩, ⟨.openParen, 3, 4⟩, ⟨.symbol, 4, 5⟩, ⟨.closeParen, 5, 6⟩]
      [⟨.symbol, 1, 2⟩, ⟨.semanticList, 3, 6⟩] :=
    .other (by decide) (by decide) (@Nested.group _ _ ⟨.openParen, 3, 4⟩ ⟨.closeParen, 5, 6⟩
      [⟨.symbol, 4, 5⟩] _ [] _ rfl rfl rfl (.other (by decide) (by decide) .nil) .nil)
  have hn : cLike.Nested (.ofString "(a [b]) c")
      [⟨.openParen, 0, 1⟩, ⟨.symbol, 1, 2⟩, ⟨.openParen, 3, 4⟩, ⟨.symbol, 4, 5⟩, ⟨.closeParen, 5, 6⟩,
        ⟨.closeParen, 6, 7⟩, ⟨.symbol, 8, 9⟩] [⟨.semanticList, 0, 7⟩, ⟨.symbol, 8, 9⟩] :=
    @Nested.group _ _ ⟨.openParen, 0, 1⟩ ⟨.closeParen, 6, 7⟩
      [⟨.symbol, 1, 2⟩, ⟨.openParen, 3, 4⟩, ⟨.symbol, 4, 5⟩, ⟨.closeParen, 5, 6⟩] _ [⟨.symbol, 8, 9⟩] _
      rfl rfl rfl hin (.other (by decide) (by decide) .nil)
  have hk : ∀ p ∈ ({} : Lexer).keywords, p.2 ∉ Kind.ofBrackets := fun p hp => absurd hp List.not_mem_nil
  exact (lex_opaque_iff rfl hk separated_cLike.marked h hn).2 separated_cLike

end Lexer

/-! ## Comments that start like a group -/

namespace Lexer

/-- A lexer with comments that start like a group. -/
def starred : Lexer := { alphabet := { comments := [⟨['(', '*'], ['*', ')']⟩] } }

/-- **Lexing takes the comment as one and has the brackets around it in a pair, but passing over the group
takes the comment for brackets.** So the group ends too early. -/
theorem lex_starred : starred.alphabet.Marked ∧
    starred.lex (.ofString "(a (* ) *) b)") 0 none none =
      .ok ⟨.ofString "(a (* ) *) b)", #[⟨.openParen, 0, 1⟩, ⟨.symbol, 1, 2⟩, ⟨.comment, 3, 10⟩,
        ⟨.symbol, 11, 12⟩, ⟨.closeParen, 12, 13⟩], 0, 13, 0⟩ ∧
    starred.alphabet.Nested (.ofString "(a (* ) *) b)") [⟨.openParen, 0, 1⟩, ⟨.symbol, 1, 2⟩,
      ⟨.comment, 3, 10⟩, ⟨.symbol, 11, 12⟩, ⟨.closeParen, 12, 13⟩] [⟨.semanticList, 0, 13⟩] ∧
    starred.lex (.ofString "(a (* ) *) b)") 0 none (some 0) =
      .ok ⟨.ofString "(a (* ) *) b)", #[⟨.semanticList, 0, 10⟩, ⟨.symbol, 11, 12⟩,
        ⟨.closeParen, 12, 13⟩], 0, 13, 0⟩ ∧
    starred.lex (.ofString "(a (* ) *) b)") 0 none (some 0) ≠
      .ok ⟨.ofString "(a (* ) *) b)", #[⟨.semanticList, 0, 13⟩], 0, 13, 0⟩ := by
  have hm : ∀ k ∈ starred.alphabet.comments, k.opener ≠ [] := by decide
  have h0 : starred.lex (.ofString "(a (* ) *) b)") 0 none (some 0) =
      .ok ⟨.ofString "(a (* ) *) b)", #[⟨.semanticList, 0, 10⟩, ⟨.symbol, 11, 12⟩,
        ⟨.closeParen, 12, 13⟩], 0, 13, 0⟩ := by rfl
  have hin : starred.alphabet.Nested (.ofString "(a (* ) *) b)")
      [⟨.symbol, 1, 2⟩, ⟨.comment, 3, 10⟩, ⟨.symbol, 11, 12⟩]
      [⟨.symbol, 1, 2⟩, ⟨.comment, 3, 10⟩, ⟨.symbol, 11, 12⟩] :=
    .other (by decide) (by decide) (.other (by decide) (by decide) (.other (by decide) (by decide) .nil))
  refine ⟨hm, by rfl, ?_, h0, ?_⟩
  · exact @Nested.group _ _ ⟨.openParen, 0, 1⟩ ⟨.closeParen, 12, 13⟩ _ _ [] _ rfl rfl rfl hin .nil
  · rw [h0]
    intro h
    simp at h

end Lexer

end Outline
