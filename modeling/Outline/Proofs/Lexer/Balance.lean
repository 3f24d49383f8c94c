import Outline.Proofs.Lexer.Inert

/-!
# Balanced groups

What the end of a group is, as a grammar of nested groups, and what there is instead of an end. Neither
knows a stack: the openers that wait for their closers are told apart by what stands between them.

* `Alphabet.OpensAt`, `Alphabet.ClosesAt`: brackets;
* `Alphabet.Row`, `Alphabet.Balanced`: parts and nested groups in a row, and a whole group;
* `Alphabet.Pending`: the openers that are pending at a place;
* `Alphabet.GroupEnds`: what a group comes to;
* `groupLoop`, `groupLoop_eq`: the stack of closers, from which none is taken when it is empty;
* **`Alphabet.groupEnd_eq_iff`**: a group comes to just that.
-/

namespace Outline

namespace Alphabet

variable {a : Alphabet} {t : Text} {stop opening start i j k e : Nat} {opener : Char}
  {closer inner expected : List Char} {outer : List (List Char)} {r : Except Halt Nat}

/-! ## Rows -/

/-- A bracket that asks for the closer `inner`. -/
structure OpensAt (a : Alphabet) (t : Text) (stop i : Nat) (inner : List Char) : Prop where
  readable : t.Readable stop i
  role : a.role (t.charAt i) = .opener inner

/-- A closing bracket. -/
structure ClosesAt (a : Alphabet) (t : Text) (stop i : Nat) : Prop where
  readable : t.Readable stop i
  role : a.role (t.charAt i) = .closer

/-- What is no bracket and whole groups, one behind the other. -/
inductive Row (a : Alphabet) (t : Text) (stop : Nat) : Nat → Nat → Prop where
  | nil (i : Nat) : Row a t stop i i
  | pass {i j k : Nat} (hi : t.Readable stop i) (h : a.Passes t stop i (.ok j)) (hr : Row a t stop j k) :
      Row a t stop i k
  | group {inner : List Char} {i j k : Nat} (ho : a.OpensAt t stop i inner)
      (hr : Row a t stop (i + 1) j) (hc : a.ClosesAt t stop j) (hm : [t.charAt j] = inner)
      (hr' : Row a t stop (j + 1) k) : Row a t stop i k

theorem Row.trans (h : a.Row t stop i j) (h' : a.Row t stop j k) : a.Row t stop i k := by
  induction h with
  | nil => exact h'
  | pass hi h _ ih => exact .pass hi h (ih h')
  | group ho hr hc hm _ _ ih => exact .group ho hr hc hm (ih h')

/-- From the opener at `i` up to `e` there is a group: behind the opener a row, and behind that the closer of the
opener. -/
def Balanced (a : Alphabet) (t : Text) (stop : Nat) (closer : List Char) (i e : Nat) : Prop :=
  ∃ j, a.Row t stop (i + 1) j ∧ a.ClosesAt t stop j ∧ [t.charAt j] = closer ∧ e = j + 1

/-- The closers that are waited for at a place, the innermost first: in front of the place there is a row behind
each opener that has none. -/
inductive Pending (a : Alphabet) (t : Text) (stop : Nat) (closer : List Char) (start : Nat) :
    (expected : List Char) → (outer : List (List Char)) → Nat → Prop where
  | first {i : Nat} (hr : a.Row t stop start i) : Pending a t stop closer start closer [] i
  | opened {expected inner : List Char} {outer : List (List Char)} {p i : Nat}
      (h : Pending a t stop closer start expected outer p) (ho : a.OpensAt t stop p inner)
      (hr : a.Row t stop (p + 1) i) : Pending a t stop closer start inner (expected :: outer) i

theorem Pending.trans (h : a.Pending t stop closer start expected outer i) (hr : a.Row t stop i j) :
    a.Pending t stop closer start expected outer j := by
  cases h with
  | first h => exact .first (h.trans hr)
  | opened h ho h' => exact .opened h ho (h'.trans hr)

/-- A closer that is waited for takes its opener from those that are pending. -/
theorem Pending.close (h : a.Pending t stop closer start inner (expected :: outer) i)
    (hc : a.ClosesAt t stop i) (hm : [t.charAt i] = inner) :
    a.Pending t stop closer start expected outer (i + 1) := by
  cases h with
  | opened h ho hr => exact h.trans (.group ho hr hc hm (.nil _))

/-- What a group comes to. -/
inductive GroupEnds (a : Alphabet) (t : Text) (stop opening : Nat) (closer : List Char) :
    Except Halt Nat → Prop where
  | closed {e : Nat} (h : a.Balanced t stop closer opening e) : GroupEnds a t stop opening closer (.ok e)
  /-- A closer comes up that is not the one the innermost pending opener asks for. -/
  | mismatched {expected : List Char} {outer : List (List Char)} {i : Nat}
      (h : a.Pending t stop closer (opening + 1) expected outer i) (hc : a.ClosesAt t stop i)
      (hne : [t.charAt i] ≠ expected) :
      GroupEnds a t stop opening closer (.error (.fault i (.mismatched (t.charAt i) expected)))
  /-- A string or a comment does not end. -/
  | stuck {expected : List Char} {outer : List (List Char)} {i : Nat} {halt : Halt}
      (h : a.Pending t stop closer (opening + 1) expected outer i) (hi : t.Readable stop i)
      (hp : a.Passes t stop i (.error halt)) : GroupEnds a t stop opening closer (.error halt)
  /-- The bound is reached or stepped over. -/
  | unbalanced {expected : List Char} {outer : List (List Char)} {i : Nat}
      (h : a.Pending t stop closer (opening + 1) expected outer i) (hi : stop ≤ i) :
      GroupEnds a t stop opening closer (.error (.fault opening (.unbalanced (t.charAt opening))))
  /-- The text ends before the bound. -/
  | beyond {expected : List Char} {outer : List (List Char)} {i : Nat}
      (h : a.Pending t stop closer (opening + 1) expected outer i) (hi : i < stop) (hl : t.length ≤ i) :
      GroupEnds a t stop opening closer (.error .beyondText)

theorem exists_passes (ho : ∀ inner, a.role (t.charAt i) ≠ .opener inner)
    (hc : a.role (t.charAt i) ≠ .closer) : ∃ r, a.Passes t stop i r := by
  cases hr : a.role (t.charAt i) with
  | escape => exact ⟨_, .escape hr⟩
  | opener inner => exact absurd hr (ho inner)
  | closer => exact absurd hr hc
  | quote => exact ⟨_, .string hr (stringEnd_eq_iff.mp rfl)⟩
  | other =>
    cases hk : a.commentAt (t.range i stop) with
    | some k => exact ⟨_, .comment hr (commentAt_eq_some_iff.mp hk) (commentEnd_eq_iff.mp rfl)⟩
    | none => exact ⟨_, .other hr (not_starts_iff.mp hk)⟩

/-! ## The stack along a row -/

section Stack

variable (ha : a.Marked)
include ha

theorem groupFrom_passes (hi : t.Readable stop i) (h : a.Passes t stop i r) :
    a.groupFrom t stop opening opener expected outer i = match r with
      | .error halt => .error halt
      | .ok j => a.groupFrom t stop opening opener expected outer j := by
  rw [groupFrom_step ha hi.lt_stop hi.lt_length, passes_iff.mp h]
  cases r <;> rfl

theorem groupFrom_opensAt (h : a.OpensAt t stop i inner) :
    a.groupFrom t stop opening opener expected outer i =
      a.groupFrom t stop opening opener inner (expected :: outer) (i + 1) := by
  rw [groupFrom_step ha h.readable.lt_stop h.readable.lt_length, (HasPart.opener h.role).partAt_eq]

theorem groupFrom_closesAt (h : a.ClosesAt t stop i) :
    a.groupFrom t stop opening opener expected outer i =
      if [t.charAt i] = expected then
        match outer with
        | [] => .ok (i + 1)
        | next :: rest => a.groupFrom t stop opening opener next rest (i + 1)
      else .error (.fault i (.mismatched (t.charAt i) expected)) := by
  have hp : a.partAt t stop i = .ok .closer := (HasPart.closer h.role).partAt_eq
  have hs : a.groupFrom t stop opening opener expected outer i = _ :=
    groupFrom_step ha h.readable.lt_stop h.readable.lt_length
  rw [hp] at hs
  exact hs

theorem Row.groupFrom_eq (h : a.Row t stop i j) : ∀ expected outer,
    a.groupFrom t stop opening opener expected outer i =
      a.groupFrom t stop opening opener expected outer j := by
  induction h with
  | nil => exact fun _ _ => rfl
  | pass hi h _ ih =>
    intro expected outer
    rw [groupFrom_passes ha hi h]
    exact ih expected outer
  | group ho _ hc hm _ ih ih' =>
    intro expected outer
    rw [groupFrom_opensAt ha ho, ih, groupFrom_closesAt ha hc, if_pos hm]
    exact ih' expected outer

/-- The stack at a place has the closers that are waited for there. -/
theorem Pending.groupFrom_eq (h : a.Pending t stop closer start expected outer i) :
    a.groupFrom t stop opening opener closer [] start =
      a.groupFrom t stop opening opener expected outer i := by
  induction h with
  | first hr => exact hr.groupFrom_eq ha _ _
  | opened _ ho hr ih => rw [ih, groupFrom_opensAt ha ho, hr.groupFrom_eq ha]

/-- From every place that is reached the run goes on to one of the ends. -/
theorem Pending.groupEnds {expected : List Char} {outer : List (List Char)} {i : Nat}
    (h : a.Pending t stop closer (opening + 1) expected outer i) : a.GroupEnds t stop opening closer
      (a.groupFrom t stop opening (t.charAt opening) expected outer i) := by
  by_cases hi : t.Readable stop i
  · cases hr : a.role (t.charAt i) with
    | opener inner =>
      rw [groupFrom_opensAt ha ⟨hi, hr⟩]
      exact groupEnds (.opened h ⟨hi, hr⟩ (.nil _))
    | closer =>
      have hc : a.ClosesAt t stop i := ⟨hi, hr⟩
      rw [groupFrom_closesAt ha hc]
      by_cases hm : [t.charAt i] = expected
      · rw [if_pos hm]
        cases outer with
        | nil =>
          cases h with
          | first h => exact .closed ⟨i, h, hc, hm, rfl⟩
        | cons next rest => exact groupEnds (h.close hc hm)
      · rw [if_neg hm]
        exact .mismatched h hc hm
    | _ =>
      have hpasses : ∃ r, a.Passes t stop i r := exists_passes (by simp [hr]) (by simp [hr])
      obtain ⟨r, hp⟩ := hpasses
      rw [groupFrom_passes ha hi hp]
      cases r with
      | error halt => exact .stuck h hi hp
      | ok j =>
        have hlt := resume_of_partAt ha hi.lt_stop (passes_iff.mp hp)
        exact groupEnds (h.trans (.pass hi hp (.nil _)))
  · obtain hs | hs := Nat.lt_or_ge i stop
    · have hl : t.length ≤ i := Nat.not_lt.mp fun hl => hi ⟨hs, hl⟩
      rw [groupFrom_beyond hs hl]
      exact .beyond h hs hl
    · rw [groupFrom_end hs]
      exact .unbalanced h hs
termination_by stop - i
decreasing_by
  all_goals
    have := hi.lt_stop
    omega

theorem GroupEnds.groupFrom_eq (h : a.GroupEnds t stop opening closer r) :
    a.groupFrom t stop opening (t.charAt opening) closer [] (opening + 1) = r := by
  cases h with
  | closed h =>
    obtain ⟨j, hr, hc, hm, rfl⟩ := h
    rw [hr.groupFrom_eq ha, groupFrom_closesAt ha hc, if_pos hm]
  | mismatched h hc hne => rw [h.groupFrom_eq ha, groupFrom_closesAt ha hc, if_neg hne]
  | stuck h hi hp => rw [h.groupFrom_eq ha, groupFrom_passes ha hi hp]
  | unbalanced h hi => rw [h.groupFrom_eq ha, groupFrom_end hi]
  | beyond h hi hl => rw [h.groupFrom_eq ha, groupFrom_beyond hi hl]

theorem groupFrom_eq_iff : a.groupFrom t stop opening (t.charAt opening) closer [] (opening + 1) = r ↔
    a.GroupEnds t stop opening closer r := by
  constructor
  · rintro rfl
    exact (Pending.first (.nil _)).groupEnds ha
  · exact fun h => h.groupFrom_eq ha

end Stack

end Alphabet

/-! ## The stack of closers -/

/-- The end of a group with a stack of closers that may be empty; there is no result if a closer is to be taken
from it then. -/
def groupLoop (a : Alphabet) (stop opening : Nat) (opener : Char) :
    (skip : Nat) → (expected : List (List Char)) → (i : Nat) → List Char → Option (Except Halt Nat)
  | skip, _, i, [] => some (ranOut stop (i + skip) opening (.unbalanced opener))
  | skip + 1, expected, i, _ :: cs => groupLoop a stop opening opener skip expected (i + 1) cs
  | 0, expected, i, c :: cs =>
    if a.escapes.contains c then groupLoop a stop opening opener 1 expected (i + 1) cs
    else match a.closerOf? c with
      | some inner => groupLoop a stop opening opener 0 (inner :: expected) (i + 1) cs
      | none =>
        if a.isCloser c then
          match expected with
          | [] => none
          | closer :: rest =>
            if [c] = closer then
              if rest.isEmpty then some (.ok (i + 1))
              else groupLoop a stop opening opener 0 rest (i + 1) cs
            else some (.error (.fault i (.mismatched c closer)))
        else if a.quotes.contains c then
          match stringEnd a stop i c (i + 1) cs with
          | .error h => some (.error h)
          | .ok j => groupLoop a stop opening opener (j - i - 1) expected (i + 1) cs
        else match a.commentAt (c :: cs) with
          | some comment =>
            match commentEnd comment stop i (c :: cs) with
            | .error h => some (.error h)
            | .ok j => groupLoop a stop opening opener (j - i - 1) expected (i + 1) cs
          | none => groupLoop a stop opening opener 0 expected (i + 1) cs

/-- **No closer is ever taken from an empty stack.** -/
theorem groupLoop_eq (a : Alphabet) (stop opening : Nat) (opener : Char) (skip : Nat) (closer : List Char)
    (outer : List (List Char)) (i : Nat) (cs : List Char) :
    groupLoop a stop opening opener skip (closer :: outer) i cs =
      some (groupEnd a stop opening opener skip closer outer i cs) := by
  -- each turn leaves a stack with a closer on top, or there is none after it
  fun_induction groupEnd a stop opening opener skip closer outer i cs <;> simp_all [groupLoop]

/-! ## Groups -/

/-- **The end of a group**, whatever the closer that its opener asks for and wherever the bound is. A group ends
where the first balanced one does, it is at fault at the first closer that the innermost pending opener does
not ask for, at a string or comment that does not end, or as a whole where the bound is reached, and its
stack of closers is never empty when a closer is taken from it. -/
theorem Alphabet.groupEnd_eq_iff {a : Alphabet} (ha : a.Marked) (t : Text) (stop opening : Nat)
    (closer : List Char) :
    let found := groupEnd a stop opening (t.charAt opening) 0 closer [] (opening + 1)
      (t.range (opening + 1) stop)
    (∀ r, found = r ↔ a.GroupEnds t stop opening closer r) ∧
      (∀ e, found = .ok e ↔
        a.Balanced t stop closer opening e ∧ ∀ e', a.Balanced t stop closer opening e' → e ≤ e') ∧
      groupLoop a stop opening (t.charAt opening) 0 [closer] (opening + 1)
        (t.range (opening + 1) stop) = some found := by
  intro found
  have hends : ∀ r, found = r ↔ a.GroupEnds t stop opening closer r := fun r => groupFrom_eq_iff ha
  refine ⟨hends, fun e => ⟨fun h => ?_, fun h => (hends _).mpr (.closed h.1)⟩,
    groupLoop_eq a stop opening _ 0 closer [] _ _⟩
  cases (hends _).mp h with
  | closed hb =>
    refine ⟨hb, fun e' hb' => ?_⟩
    obtain rfl : e = e' := by
      have h' := (hends (.ok e')).mpr (.closed hb')
      exact Except.ok.inj (h.symm.trans h')
    exact Nat.le_refl e

/-- A group with a string and a comment that hold closers, a group that is closed by the wrong bracket, and
one in which an escape steps over the bound. -/
theorem Alphabet.groupEnd_cLike :
    Alphabet.cLike.Balanced (.ofString "(a[')']/*)*/)b") 14 [')'] 0 13 ∧
      Alphabet.cLike.GroupEnds (.ofString "([a)") 4 0 [')'] (.error (.fault 3 (.mismatched ')' [']']))) ∧
      Alphabet.cLike.GroupEnds (.ofString "(a\\)") 3 0 [')'] (.error (.fault 0 (.unbalanced '('))) := by
  have ha : Alphabet.cLike.Marked := by unfold Alphabet.Marked; decide
  exact ⟨(((Alphabet.groupEnd_eq_iff ha (.ofString "(a[')']/*)*/)b") 14 0 [')']).2.1 13).mp (by decide)).1,
    ((Alphabet.groupEnd_eq_iff ha (.ofString "([a)") 4 0 [')']).1 _).mp (by decide),
    ((Alphabet.groupEnd_eq_iff ha (.ofString "(a\\)") 3 0 [')']).1 _).mp (by decide)⟩

end Outline
