import Outline.Engine.Run
import Outline.Proofs.Lexer.Cuts
import Outline.Proofs.Lexer.Separated

/-!
# Looking one bracket deeper

Lexing one bracket deeper is lexing what is inside the groups that were not looked into: what is read
inside a group does not depend on what surrounds it.

* `Scan.andThen`: lexemes behind others;
* `Lexer.scanAt_inside`: from inside a group on there are the lexemes of its interior, then its closer,
  then those behind it;
* `Lexer.look`, **`Lexer.Cuts.deeper`**: the groups looked into;
* `Lexer.lexSpan`, `Lexer.opened`: the lexemes of a span, and a group with those of its interior;
* **`Lexer.lex_succ_depth`**: lexing at the next depth opens the groups.
-/

namespace Outline

open Alphabet

/-! ## Lexemes behind others -/

namespace Scan

/-- The lexemes of a scan, and those of another behind them unless cutting has halted. -/
def andThen (s rest : Scan) : Scan :=
  match s.halt with
  | none => ⟨s.lexemes ++ rest.lexemes, rest.halt⟩
  | some _ => s

theorem cons_andThen (l : Option Lexeme) (s rest : Scan) :
    (s.cons l).andThen rest = (s.andThen rest).cons l := by
  obtain ⟨ls, _ | h⟩ := s <;> cases l <;> rfl

theorem nil_andThen (rest : Scan) : (⟨[], none⟩ : Scan).andThen rest = rest := rfl

theorem andThen_assoc (s r q : Scan) : (s.andThen r).andThen q = s.andThen (r.andThen q) := by
  obtain ⟨ls, _ | h⟩ := s
  · obtain ⟨rs, _ | h⟩ := r
    · simp [andThen]
    · rfl
  · rfl

theorem result_andThen (t : Text) (s rest : Scan) :
    (s.andThen rest).result t = (s.result t).bind fun ls => (rest.result t).map (ls ++ ·) := by
  obtain ⟨ls, _ | h⟩ := s
  · obtain ⟨rs, _ | h⟩ := rest <;> rfl
  · rfl

theorem halt_andThen (s rest : Scan) : (s.andThen rest).halt = s.halt.or rest.halt := by
  obtain ⟨ls, _ | h⟩ := s <;> rfl

end Scan

namespace Lexer

variable {x : Lexer} {t : Text} {stop i e : Nat} {closer : List Char}

/-! ## Inside of a group -/

/-- Inside a group that ends at `e` the lexer comes upon pieces, closed groups and at last the closer,
or upon a character that it does not recognise, and upon the same if the closer is out of reach. -/
inductive Inside (x : Lexer) (t : Text) (stop e : Nat) : Nat → Prop where
  | closer {i : Nat} (hi : i + 1 = e) (h : x.pieceAt t stop i = .ok .closer) : Inside x t stop e i
  | passed {i j : Nat} {l : Option Lexeme} (hi : i < e - 1)
      (h : x.pieceAt t stop i = .ok (.passed l j)) (hb : x.pieceAt t (e - 1) i = .ok (.passed l j))
      (hr : Inside x t stop e j) : Inside x t stop e i
  | group {i j : Nat} {inner : List Char} (hi : i < e - 1)
      (h : x.pieceAt t stop i = .ok (.opener inner)) (hb : x.pieceAt t (e - 1) i = .ok (.opener inner))
      (hg : x.alphabet.Closes t stop inner (i + 1) j)
      (hgb : x.alphabet.Closes t (e - 1) inner (i + 1) j) (hr : Inside x t stop e j) :
      Inside x t stop e i
  | unrecognised {i : Nat} {h : Halt} (hi : i < e - 1) (hh : h = .fault i (.unrecognised (t.charAt i)))
      (hp : x.pieceAt t stop i = .error h) (hb : x.pieceAt t (e - 1) i = .error h) :
      Inside x t stop e i

theorem inside_of_closes (ha : x.alphabet.Separated) (ht : stop ≤ t.length) :
    ∀ (n : Nat) {i : Nat}, e - i ≤ n → x.alphabet.Closes t stop closer i e → x.Inside t stop e i
  | n, i, hn, hcl => by
    obtain ⟨hie, hes⟩ := hcl.lt ha.marked
    obtain ⟨n, rfl⟩ : ∃ m, n = m + 1 := ⟨n - 1, by omega⟩
    have hi : i < stop := by omega
    cases hp : x.pieceAt t stop i with
    | error h =>
      obtain ⟨hh, hlt, hsame⟩ := unrecognised_of_closes ha hi ht hcl hp
      exact .unrecognised (by omega) hh hp (hsame (e - 1) (by omega))
    | ok p =>
      cases p with
      | passed l j =>
        have hclj := (closes_iff_of_passed ha hi ht hp).mp hcl
        have hj := hclj.lt ha.marked
        have hij := resume_of_pieceAt ha.marked hi ht hp
        have hpb := pieceAt_bound (b := e - 1) (by omega) (by omega) ht hp (by
          intro l' j' h
          cases h
          omega)
        exact .passed (by omega) hp hpb (inside_of_closes ha ht n (by omega) hclj)
      | opener inner =>
        have hpart := partAt_of_opener hp
        cases hcl with
        | close _ h => rw [hpart] at h; cases h
        | pass _ h => rw [hpart] at h; cases h
        | @group _ inner' _ j _ _ h hg hr =>
          rw [hpart] at h
          cases h
          have hgj := hg.lt ha.marked
          have hj := hr.lt ha.marked
          have hpb := pieceAt_bound (b := e - 1) (by omega) (by omega) ht hp (by simp)
          have hgb := hg.bound (b := e - 1) ha.marked ht (by omega) (by omega)
          exact .group (by omega) hp hpb hg hgb (inside_of_closes ha ht n (by omega) hr)
      | closer =>
        have hpart := partAt_of_closer hp
        cases hcl with
        | close _ h => exact .closer rfl hp
        | pass _ h => rw [hpart] at h; cases h
        | group _ h => rw [hpart] at h; cases h

/-- The lexemes of the interior of a group, which is not looked into any deeper. -/
def interior (x : Lexer) (t : Text) (i e : Nat) : Scan := x.scanAt t (e - 1) (some 0) 0 i

/-- A group that closes is one lexeme where it is not looked into. -/
theorem stepOf_group (hm : x.alphabet.Marked) (ht : stop ≤ t.length) {limit : Int} {depth : Nat}
    (hd : limit ≤ depth) (hg : x.alphabet.Closes t stop closer (i + 1) e) :
    x.stepOf t stop (some limit) depth i (.opener closer) =
      .ok ⟨some (.between .semanticList i e), e, depth⟩ := by
  have hall : ¬ (some limit).all ((depth : Int) < ·) = true := by simpa using hd
  rw [stepOf, if_neg hall, (groupFrom_eq_ok_iff hm ht).mpr hg]
  rfl

section Interior

variable (hx : x.extensions = []) (hm : x.alphabet.Marked)
include hx hm

theorem interior_passed {l : Option Lexeme} {j : Nat} (hi : i < e - 1) (hb : e - 1 ≤ t.length)
    (h : x.pieceAt t (e - 1) i = .ok (.passed l j)) :
    x.interior t i e = (x.interior t j e).cons l := by
  rw [interior, scanAt_step hx hm hi hb, h]
  rfl

theorem interior_group {inner : List Char} {j : Nat} (hi : i < e - 1) (hb : e - 1 ≤ t.length)
    (h : x.pieceAt t (e - 1) i = .ok (.opener inner))
    (hg : x.alphabet.Closes t (e - 1) inner (i + 1) j) :
    x.interior t i e = (x.interior t j e).cons (some (.between .semanticList i j)) := by
  rw [interior, scanAt_step hx hm hi hb, h]
  simp only [Except.bind, stepOf_group hm hb (Int.le_refl 0) hg]
  rfl

theorem interior_error {h : Halt} (hi : i < e - 1) (hb : e - 1 ≤ t.length)
    (hp : x.pieceAt t (e - 1) i = .error h) : x.interior t i e = ⟨[], some h⟩ := by
  rw [interior, scanAt_step hx hm hi hb, hp]
  rfl

variable (ht : stop ≤ t.length) (he : e ≤ stop)
include ht he

/-- **From inside a group on there are the lexemes of its interior, then its closer and those behind
it.** -/
theorem scanAt_inside {limit : Int} {depth : Nat} (hd : limit ≤ depth) (h : x.Inside t stop e i) :
    x.scanAt t stop (some limit) depth i = (x.interior t i e).andThen
      ((x.scanAt t stop (some limit) (depth - 1) e).cons (some (.between .closeParen (e - 1) e))) := by
  have hb : e - 1 ≤ t.length := by omega
  induction h with
  | @closer i hi hp =>
    rw [scanAt_step hx hm (by omega) ht, hp, interior, scanAt_end (by omega), Scan.nil_andThen, ← hi]
    rfl
  | @passed i j l hi hp hpb _ ih =>
    rw [scanAt_step hx hm (by omega) ht, hp, interior_passed hx hm hi hb hpb, Scan.cons_andThen, ← ih]
    rfl
  | @group i j inner hi hp hpb hg hgb _ ih =>
    rw [scanAt_step hx hm (by omega) ht, hp, interior_group hx hm hi hb hpb hgb, Scan.cons_andThen, ← ih]
    simp only [Except.bind, stepOf_group hm ht hd hg]
  | @unrecognised i h hi _ hp hpb =>
    rw [scanAt_step hx hm (by omega) ht, hp, interior_error hx hm hi hb hpb]
    rfl

/-- Only a character that is not recognised keeps the interior of a group from being lexed. -/
theorem interior_halt {halt : Halt} (h : x.Inside t stop e i) (hh : (x.interior t i e).halt = some halt) :
    ∃ offset c, halt = .fault offset (.unrecognised c) := by
  have hb : e - 1 ≤ t.length := by omega
  induction h with
  | closer hi =>
    rw [interior, scanAt_end (by omega)] at hh
    cases hh
  | passed hi _ hpb _ ih =>
    rw [interior_passed hx hm hi hb hpb, Scan.halt_cons] at hh
    exact ih hh
  | group hi _ hpb _ hgb _ ih =>
    rw [interior_group hx hm hi hb hpb hgb, Scan.halt_cons] at hh
    exact ih hh
  | unrecognised hi he' _ hpb =>
    rw [interior_error hx hm hi hb hpb] at hh
    cases hh
    exact ⟨_, _, he'⟩

end Interior

/-! ## The groups looked into -/

/-- A group with the lexemes of its interior. -/
def openGroup (x : Lexer) (t : Text) (s e : Nat) : Scan :=
  ((x.interior t (s + 1) e).andThen ⟨[.between .closeParen (e - 1) e], none⟩).cons
    (some (.between .openParen s (s + 1)))

/-- A lexeme, looked into if it is a group. -/
def look (x : Lexer) (t : Text) (l : Lexeme) : Scan :=
  if l.kind = .semanticList then x.openGroup t l.start.toNat l.stop.toNat else ⟨[l], none⟩

theorem look_group (s e : Nat) : x.look t (.between .semanticList s e) = x.openGroup t s e := if_pos rfl

/-- Lexemes, looked into in order. -/
def lookAll (x : Lexer) (t : Text) : List Lexeme → Scan
  | [] => ⟨[], none⟩
  | l :: ls => (x.look t l).andThen (x.lookAll t ls)

theorem lookAll_cons_of_ne {l : Lexeme} (hl : l.kind ≠ .semanticList) (ls : List Lexeme) :
    x.lookAll t (l :: ls) = (x.lookAll t ls).cons (some l) := by
  rw [lookAll, look, if_neg hl]
  rfl

theorem lookAll_group (s e : Nat) (ls : List Lexeme) :
    x.lookAll t (.between .semanticList s e :: ls) =
      ((x.interior t (s + 1) e).andThen
        ((x.lookAll t ls).cons (some (.between .closeParen (e - 1) e)))).cons
          (some (.between .openParen s (s + 1))) := by
  rw [lookAll, look_group, openGroup, Scan.cons_andThen, Scan.andThen_assoc]
  rfl

/-! ## Spans -/

/-- The lexemes of a span, without the brackets around it if only the interior is wanted. -/
def lexSpan (x : Lexer) (t : Text) (start stop : Int) (limit : Option Int := some 0)
    (interior : Bool := true) : Except LexError Cursor :=
  if interior ∧ 2 ≤ stop - start then x.lex t (start + 1) (some (stop - 1)) limit
  else x.lex t start (some stop) limit

/-- A lexeme, with the lexemes of its interior if it is a group. -/
def opened (x : Lexer) (t : Text) (l : Lexeme) : Except LexError (List Lexeme) :=
  if l.kind = .semanticList then
    (x.lexSpan t l.start l.stop).map fun c =>
      ⟨.openParen, l.start, l.start + 1⟩ :: c.lexemes.toList ++ [⟨.closeParen, l.stop - 1, l.stop⟩]
  else .ok [l]

theorem opened_group {s : Nat} (hse : s + 2 ≤ e) (ht : e ≤ t.length) :
    x.opened t (.between .semanticList s e) = (x.openGroup t s e).result t := by
  have hspan : x.lexSpan t s e = ((x.interior t (s + 1) e).result t).map fun ls =>
      ⟨t, ls.toArray, s + 1, e - 1, 0⟩ := by
    have h1 : (s : Int) + 1 = ((s + 1 : Nat) : Int) := by omega
    have h2 : (e : Int) - 1 = ((e - 1 : Nat) : Int) := by omega
    rw [lexSpan, if_pos ⟨rfl, by omega⟩, h1, h2]
    exact lex_eq rfl (by omega) (by omega)
  have hclose : Lexeme.between .closeParen (e - 1) e = ⟨.closeParen, (e : Int) - 1, e⟩ := by
    rw [Lexeme.between, Int.natCast_sub (by omega)]
    rfl
  have hkind : (Lexeme.between .semanticList s e).kind = .semanticList := rfl
  rw [opened, if_pos hkind, openGroup, hclose]
  change (x.lexSpan t s e).map _ = _
  rw [hspan]
  obtain ⟨ls, _ | h⟩ := x.interior t (s + 1) e <;> rfl

theorem look_result {l : Lexeme} (hl : l.kind = .semanticList → ∃ s e, l = .between .semanticList s e ∧
    s + 2 ≤ e ∧ e ≤ t.length) : (x.look t l).result t = x.opened t l := by
  by_cases hk : l.kind = .semanticList
  · obtain ⟨s, e, rfl, hse, ht⟩ := hl hk
    rw [opened_group hse ht, look_group]
  · rw [opened, if_neg hk, look, if_neg hk]
    rfl

/-- Looking into lexemes is opening one after the other, up to the first that cannot be lexed. -/
theorem lookAll_result {ls : List Lexeme} (hls : ∀ l ∈ ls, l.kind = .semanticList →
    ∃ s e, l = .between .semanticList s e ∧ s + 2 ≤ e ∧ e ≤ t.length) :
    (x.lookAll t ls).result t = (ls.mapM (x.opened t)).map List.flatten := by
  induction ls with
  | nil => rfl
  | cons l ls ih =>
    rw [lookAll, Scan.result_andThen, look_result (hls l List.mem_cons_self),
      ih fun l' hl' => hls l' (List.mem_cons_of_mem l hl'), List.mapM_cons]
    cases x.opened t l with
    | error e => rfl
    | ok part => cases ls.mapM (x.opened t) <;> rfl

/-- Only a character that is not recognised keeps lexemes from being looked into. -/
theorem lookAll_halt (hx : x.extensions = []) (hm : x.alphabet.Marked) (ht : stop ≤ t.length)
    {ls : List Lexeme} (hls : ∀ l ∈ ls, l.kind = .semanticList → ∃ s e, l = .between .semanticList s e ∧
      s + 2 ≤ e ∧ e ≤ stop ∧ x.Inside t stop e (s + 1)) {halt : Halt}
    (hh : (x.lookAll t ls).halt = some halt) : ∃ offset c, halt = .fault offset (.unrecognised c) := by
  induction ls with
  | nil => cases hh
  | cons l ls ih =>
    rw [lookAll, Scan.halt_andThen] at hh
    obtain hl | ⟨-, hr⟩ := Option.or_eq_some_iff.mp hh
    · by_cases hk : l.kind = .semanticList
      · obtain ⟨s, e, rfl, -, he, hin⟩ := hls l List.mem_cons_self hk
        rw [look_group, openGroup, Scan.halt_cons, Scan.halt_andThen, Option.or_none] at hl
        exact interior_halt hx hm ht he hin hl
      · rw [look, if_neg hk] at hl
        cases hl
    · exact ih (fun l' hl' => hls l' (List.mem_cons_of_mem l hl')) hr

section Deeper

variable (hx : x.extensions = []) (ha : x.alphabet.Separated) (ht : stop ≤ t.length)
  (hk : ∀ p ∈ x.keywords, p.2 ≠ .semanticList)
include hx ha ht hk

/-- **At the next depth there are the lexemes of this one, looked into.** -/
theorem Cuts.deeper {d depth : Nat} {ls : List Lexeme} (h : x.Cuts t stop (some d) depth i ls)
    (hd : depth ≤ d) : x.scanAt t stop (some (d + 1)) depth i = x.lookAll t ls := by
  have hm := ha.marked
  induction h with
  | done hi => exact scanAt_end hi
  | @passed depth i j l ls hi h _ ih =>
    rw [scanAt_step hx hm hi ht, h]
    simp only [Except.bind, stepOf]
    rw [ih hd]
    cases l with
    | none => rfl
    | some l =>
      have hne := kind_of_passed h (by decide) hk
      exact (lookAll_cons_of_ne hne ls).symm
  | @opens depth i closer ls hi h hl _ ih =>
    have hlt : (depth : Int) < d := by simpa using hl
    have hall : (some ((d : Int) + 1)).all ((depth : Int) < ·) = true := by
      simp only [Option.all_some, decide_eq_true_eq]
      omega
    rw [scanAt_step hx hm hi ht, h]
    simp only [Except.bind, stepOf, if_pos hall]
    rw [ih (by omega)]
    have hne : Kind.openParen ≠ Kind.semanticList := by decide
    exact (lookAll_cons_of_ne (l := .between .openParen i (i + 1)) hne ls).symm
  | @group depth i e closer ls hi h hl hg _ ih =>
    have hge : ¬ (depth : Int) < d := by simpa using hl
    have hall : (some ((d : Int) + 1)).all ((depth : Int) < ·) = true := by
      simp only [Option.all_some, decide_eq_true_eq]
      omega
    -- The one place where the depths differ: the group is a lexeme here and opened at the next depth.
    have hin := inside_of_closes ha ht _ (Nat.le_refl _) hg
    have hlt := hg.lt hm
    rw [scanAt_step hx hm hi ht, h]
    simp only [Except.bind, stepOf, if_pos hall]
    rw [scanAt_inside hx hm ht hlt.2 (by omega) hin, Nat.add_sub_cancel, ih hd, lookAll_group]
  | @closes depth i ls hi h _ ih =>
    rw [scanAt_step hx hm hi ht, h]
    simp only [Except.bind, stepOf]
    rw [ih (by omega)]
    have hne : Kind.closeParen ≠ Kind.semanticList := by decide
    exact (lookAll_cons_of_ne (l := .between .closeParen i (i + 1)) hne ls).symm

omit hx in
/-- The lexemes that are groups close. -/
theorem Cuts.inside {depth : Nat} {limit : Option Int} {ls : List Lexeme}
    (h : x.Cuts t stop limit depth i ls) :
    ∀ l ∈ ls, l.kind = .semanticList → ∃ s e, l = .between .semanticList s e ∧ s + 2 ≤ e ∧
      e ≤ stop ∧ x.Inside t stop e (s + 1) := by
  intro l hl hkind
  obtain ⟨s, e, closer, rfl, -, hg⟩ := h.group_of_mem hk l hl hkind
  have hlt := hg.lt ha.marked
  exact ⟨s, e, rfl, by omega, hlt.2, inside_of_closes ha ht _ (Nat.le_refl _) hg⟩

end Deeper

/-- **Lexing at the next depth opens the groups.** What is lexed is the same, but each group is replaced
by its brackets and the lexemes between them. If some interior cannot be lexed there is no result, and the
error is that of the first such interior. -/
theorem lex_succ_depth {x : Lexer} {t : Text} {start : Int} {stop : Option Int} {d : Nat} {c : Cursor}
    (hx : x.extensions = []) (ha : x.alphabet.Separated) (hk : ∀ p ∈ x.keywords, p.2 ≠ .semanticList)
    (h : x.lex t start stop (some d) = .ok c) :
    x.lex t start stop (some (d + 1)) = (c.lexemes.toList.mapM (x.opened t)).map (fun parts =>
      { c with lexemes := parts.flatten.toArray }) ∧
    ∀ e, x.lex t start stop (some (d + 1)) = .error e →
      ∃ offset ch, e = .fault t offset (.unrecognised ch) := by
  obtain ⟨s, e, rfl, he, hse, ht, ls, hc, rfl⟩ := (lex_eq_ok_iff hx ha.marked).mp h
  have hin := hc.inside ha ht hk
  have hlook := lookAll_result (x := x) (t := t) fun l hl hkind => by
    obtain ⟨s', e', hl', hse', he', -⟩ := hin l hl hkind
    exact ⟨s', e', hl', hse', by omega⟩
  rw [lex_eq he hse ht, hc.deeper hx ha ht hk (Nat.zero_le d)]
  refine ⟨?_, ?_⟩
  · rw [hlook]
    cases ls.mapM (x.opened t) <;> rfl
  · intro err herr
    cases hr : x.lookAll t ls with
    | mk rs halt =>
      rw [hr] at herr
      cases halt with
      | none => cases herr
      | some halt =>
        obtain ⟨offset, ch, rfl⟩ := lookAll_halt hx ha.marked ht hin (congrArg Scan.halt hr)
        cases herr
        exact ⟨offset, ch, rfl⟩

/-- What is inside a group is lexed in its place, and where that cannot be done there is its error. -/
theorem lex_nested_group :
    ({} : Lexer).lex (.ofString "(a (b)) c") 0 none (some 1) =
        .ok ⟨.ofString "(a (b)) c", #[⟨.openParen, 0, 1⟩, ⟨.symbol, 1, 2⟩, ⟨.semanticList, 3, 6⟩,
          ⟨.closeParen, 6, 7⟩, ⟨.symbol, 8, 9⟩], 0, 9, 0⟩ ∧
      ({} : Lexer).lex (.ofString "(a (b) §) c") 0 none (some 1) =
        .error (.fault (.ofString "(a (b) §) c") 7 (.unrecognised '§')) := by
  have h₁ : ({} : Lexer).lex (.ofString "(a (b)) c") 0 none (some (0 : Nat)) =
      .ok ⟨.ofString "(a (b)) c", #[⟨.semanticList, 0, 7⟩, ⟨.symbol, 8, 9⟩], 0, 9, 0⟩ := by rfl
  have h₂ : ({} : Lexer).lex (.ofString "(a (b) §) c") 0 none (some (0 : Nat)) =
      .ok ⟨.ofString "(a (b) §) c", #[⟨.semanticList, 0, 9⟩, ⟨.symbol, 10, 11⟩], 0, 11, 0⟩ := by rfl
  have hk : ∀ p ∈ ({} : Lexer).keywords, p.2 ≠ .semanticList := fun p hp => absurd hp List.not_mem_nil
  exact ⟨(lex_succ_depth rfl separated_cLike hk h₁).1.trans rfl,
    (lex_succ_depth rfl separated_cLike hk h₂).1.trans rfl⟩

end Lexer

/-! ## The lexer at work -/

namespace Engine

theorem lex_run (t : Text) (start : Int) (stop limit : Option Int) (c : Settings) (s : State) :
    (lex t start stop limit c s).1 = (c.lexer.lex t start stop limit).mapError .lex := by
  change ((ofExcept ((c.lexer.lex t start stop limit).mapError .lex) >>= _) c _).1 = _
  rw [bind_run_ofExcept]
  cases c.lexer.lex t start stop limit <;> rfl

/-- The parser lexes a span in the same way. -/
theorem lexSpan_run (t : Text) (start stop : Int) (limit : Option Int) (interior : Bool)
    (c : Settings) (s : State) : (lexSpan t (.span start stop) limit interior c s).1 =
      (c.lexer.lexSpan t start stop limit interior).mapError .lex := by
  cases interior with
  | false =>
    rw [Lexer.lexSpan, if_neg (by simp)]
    exact lex_run t start (some stop) limit c s
  | true =>
    have hparts : (Span.parts (.span start stop)).mapError Failure.span =
        .ok (.int start, .int stop) := rfl
    have hin : (Span.interior (.int start) (.int stop)).mapError Failure.span =
        .ok (if 2 ≤ stop - start then (.int (start + 1), .int (stop - 1))
          else (.int start, .int stop)) := rfl
    rw [lexSpan, hparts, bind_run_ofExcept]
    simp only [if_true, hin]
    rw [bind_run_ofExcept]
    by_cases h : 2 ≤ stop - start
    · rw [Lexer.lexSpan, if_pos h, if_pos ⟨rfl, h⟩]
      exact lex_run t (start + 1) (some (stop - 1)) limit c s
    · rw [Lexer.lexSpan, if_neg h, if_neg (by simp [h])]
      exact lex_run t start (some stop) limit c s

end Engine

end Outline
