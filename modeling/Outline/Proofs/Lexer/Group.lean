import Outline.Proofs.Lexer.Extent

/-!
# Groups

A group is passed over part by part: escapes, strings, comments and single characters, and brackets,
which a stack keeps account of. That the stack gets empty means that the parts are nested.

* `Alphabet.Role`, `Alphabet.role`: what a character is for inside a group;
* `Alphabet.Part`, `Alphabet.partAt`, `Alphabet.HasPart`: the part that starts at an offset, and why;
* `Alphabet.groupFrom`, `Alphabet.groupFrom_step`: passing over a group from an offset on;
* `Alphabet.Closes`: parts and nested groups up to a closer, without any stack;
* **`Alphabet.groupFrom_eq_ok_iff`**: the stack gets empty just where they close;
* `Alphabet.Closes.bound`: what closes in a part of a stretch also does so if that is all there is.
-/

namespace Outline

namespace Alphabet

/-! ## Parts -/

/-- What a character is for, of those that are not all the same inside a group. -/
inductive Role where
  | escape
  | opener (closer : List Char)
  | closer
  | quote
  | other
deriving DecidableEq

/-- The first of its roles that counts. -/
def role (a : Alphabet) (c : Char) : Role :=
  if a.escapes.contains c then .escape
  else match a.closerOf? c with
    | some inner => .opener inner
    | none => if a.isCloser c then .closer else if a.quotes.contains c then .quote else .other

/-- A part of a group: something to pass over, a bracket that asks for a closer, or a closer. -/
inductive Part where
  | passed (resume : Nat)
  | opener (closer : List Char)
  | closer

/-- The part that starts at an offset. -/
def partAt (a : Alphabet) (t : Text) (stop i : Nat) : Except Halt Part :=
  match a.role (t.charAt i) with
  | .escape => .ok (.passed (i + 2))
  | .opener inner => .ok (.opener inner)
  | .closer => .ok .closer
  | .quote =>
    (stringEnd a stop i (t.charAt i) (i + 1) (t.range (i + 1) stop)).map .passed
  | .other =>
    match a.commentAt (t.range i stop) with
    | some k => (commentEnd k stop i (t.range i stop)).map .passed
    | none => .ok (.passed (i + 1))

variable {a : Alphabet} {t : Text} {stop i j : Nat}

/-- Where a comment that starts at an offset ends. -/
theorem comment_bounds {k : Comment} (hi : i < stop) (hk : a.commentAt (t.range i stop) = some k)
    (h : commentEnd k stop i (t.range i stop) = .ok j) : i + k.opener.length ≤ j ∧ j ≤ stop :=
  commentEnd_bounds h (Text.length_range_le (Nat.le_of_lt hi)) (commentAt_mem hk).2

theorem Marked.comment_bounds {k : Comment} (ha : a.Marked) (hi : i < stop)
    (hk : a.commentAt (t.range i stop) = some k) (h : commentEnd k stop i (t.range i stop) = .ok j) :
    i < j ∧ j ≤ stop := by
  have hb := Alphabet.comment_bounds hi hk h
  have hl := List.length_pos_iff.mpr (ha k (commentAt_mem hk).1)
  omega

/-- Where a string that starts at an offset ends. -/
theorem string_bounds {q : Char} (hi : i < stop)
    (h : stringEnd a stop i q (i + 1) (t.range (i + 1) stop) = .ok j) : i < j ∧ j ≤ stop := by
  have hb := stringEnd_bounds h
  have hl : i + 1 + (t.range (i + 1) stop).length ≤ stop := Text.length_range_le hi
  omega

/-- The part at an offset, and what the text has there that makes it so. -/
inductive HasPart (a : Alphabet) (t : Text) (stop i : Nat) : Except Halt Part → Prop where
  | escape (hr : a.role (t.charAt i) = .escape) : HasPart a t stop i (.ok (.passed (i + 2)))
  | opener {inner : List Char} (hr : a.role (t.charAt i) = .opener inner) :
      HasPart a t stop i (.ok (.opener inner))
  | closer (hr : a.role (t.charAt i) = .closer) : HasPart a t stop i (.ok .closer)
  | string {e : Nat} (hr : a.role (t.charAt i) = .quote)
      (he : stringEnd a stop i (t.charAt i) (i + 1) (t.range (i + 1) stop) = .ok e) :
      HasPart a t stop i (.ok (.passed e))
  | openString {h : Halt} (hr : a.role (t.charAt i) = .quote)
      (he : stringEnd a stop i (t.charAt i) (i + 1) (t.range (i + 1) stop) = .error h) :
      HasPart a t stop i (.error h)
  | comment {k : Comment} {e : Nat} (hr : a.role (t.charAt i) = .other)
      (hk : a.commentAt (t.range i stop) = some k)
      (he : commentEnd k stop i (t.range i stop) = .ok e) : HasPart a t stop i (.ok (.passed e))
  | openComment {k : Comment} {h : Halt} (hr : a.role (t.charAt i) = .other)
      (hk : a.commentAt (t.range i stop) = some k)
      (he : commentEnd k stop i (t.range i stop) = .error h) : HasPart a t stop i (.error h)
  | other (hr : a.role (t.charAt i) = .other) (hk : a.commentAt (t.range i stop) = none) :
      HasPart a t stop i (.ok (.passed (i + 1)))

theorem hasPart (a : Alphabet) (t : Text) (stop i : Nat) : a.HasPart t stop i (a.partAt t stop i) := by
  unfold partAt
  cases hr : a.role (t.charAt i) with
  | escape => exact .escape hr
  | opener inner => exact .opener hr
  | closer => exact .closer hr
  | quote =>
    simp only
    cases he : stringEnd a stop i (t.charAt i) (i + 1) (t.range (i + 1) stop) with
    | error h => exact .openString hr he
    | ok e => exact .string hr he
  | other =>
    simp only
    cases hk : a.commentAt (t.range i stop) with
    | none => exact .other hr hk
    | some k =>
      simp only
      cases he : commentEnd k stop i (t.range i stop) with
      | error h => exact .openComment hr hk he
      | ok e => exact .comment hr hk he

theorem HasPart.partAt_eq {r : Except Halt Part} (h : a.HasPart t stop i r) :
    a.partAt t stop i = r := by
  cases h with
  | escape hr | opener hr | closer hr => rw [partAt, hr]
  | string hr he | openString hr he => rw [partAt, hr]; simp only [he]; rfl
  | comment hr hk he | openComment hr hk he => rw [partAt, hr]; simp only [hk, he]; rfl
  | other hr hk => rw [partAt, hr]; simp only [hk]

theorem resume_of_partAt (ha : a.Marked) (hi : i < stop) (h : a.partAt t stop i = .ok (.passed j)) : i < j := by
  have hs := a.hasPart t stop i
  rw [h] at hs
  cases hs with
  | escape => omega
  | string _ he => exact (string_bounds hi he).1
  | comment _ hk he => exact (ha.comment_bounds hi hk he).1
  | other => omega

/-! ## Parts of shorter stretches -/

section Bound

variable {b : Nat}

theorem stringEnd_bound {q : Char} (hi : i < b) (hb : b ≤ stop)
    (h : stringEnd a stop i q (i + 1) (t.range (i + 1) stop) = .ok j) (hj : j ≤ b) :
    stringEnd a b i q (i + 1) (t.range (i + 1) b) = .ok j := by
  rw [← Text.take_range hb]
  exact stringEnd_take h (by omega)

theorem comment_bound {k : Comment} (hi : i < b) (hb : b ≤ stop) (ht : stop ≤ t.length)
    (hk : a.commentAt (t.range i stop) = some k) (h : commentEnd k stop i (t.range i stop) = .ok j)
    (hj : j ≤ b) : a.commentAt (t.range i b) = some k ∧ commentEnd k b i (t.range i b) = .ok j := by
  have hbounds := comment_bounds (by omega) hk h
  have hlen := Text.length_range_of_le (i := i) ht
  rw [← Text.take_range hb]
  exact ⟨commentAt_take hk (by omega),
    commentEnd_take h (by omega) (commentAt_mem hk).2 hj hb⟩

theorem commentAt_bound (hb : b ≤ stop) (h : a.commentAt (t.range i stop) = none) :
    a.commentAt (t.range i b) = none := by
  rw [← Text.take_range hb]
  exact commentAt_take_none h

/-- A part is the same in a shorter stretch, if it ends there. -/
theorem partAt_bound (hi : i < b) (hb : b ≤ stop) (ht : stop ≤ t.length) {p : Part}
    (h : a.partAt t stop i = .ok p) (hp : ∀ j, p = .passed j → j ≤ b) :
    a.partAt t b i = .ok p := by
  have hs := a.hasPart t stop i
  rw [h] at hs
  cases hs with
  | escape hr => exact (HasPart.escape hr).partAt_eq
  | opener hr => exact (HasPart.opener hr).partAt_eq
  | closer hr => exact (HasPart.closer hr).partAt_eq
  | string hr he => exact (HasPart.string hr (stringEnd_bound hi hb he (hp _ rfl))).partAt_eq
  | comment hr hk he =>
    obtain ⟨hk', he'⟩ := comment_bound hi hb ht hk he (hp _ rfl)
    exact (HasPart.comment hr hk' he').partAt_eq
  | other hr hk => exact (HasPart.other hr (commentAt_bound hb hk)).partAt_eq

end Bound

/-! ## The stack -/

/-- The end of a group, read from the offset `i` on. -/
def groupFrom (a : Alphabet) (t : Text) (stop opening : Nat) (opener : Char) (closer : List Char)
    (outer : List (List Char)) (i : Nat) : Except Halt Nat :=
  groupEnd a stop opening opener 0 closer outer i (t.range i stop)

section Stack

variable {opening : Nat} {opener : Char} {closer : List Char} {outer : List (List Char)}

theorem groupEnd_skip : ∀ (skip i : Nat),
    groupEnd a stop opening opener skip closer outer i (t.range i stop) =
      a.groupFrom t stop opening opener closer outer (i + skip)
  | 0, i => rfl
  | skip + 1, i => by
    by_cases hi : i < stop ∧ i < t.length
    · rw [Text.range_cons hi.1 hi.2, groupEnd, groupEnd_skip skip (i + 1)]
      congr 1
      omega
    · have hnil : ∀ j, i ≤ j → t.range j stop = [] := fun j hj => by
        obtain hs | hs := Nat.lt_or_ge j stop
        · exact Text.range_eq_nil_of_length_le (by omega)
        · exact Text.range_eq_nil hs
      rw [groupFrom, hnil i (Nat.le_refl i), hnil (i + (skip + 1)) (by omega), groupEnd, groupEnd]
      congr 1

theorem groupFrom_end (hi : stop ≤ i) :
    a.groupFrom t stop opening opener closer outer i =
      .error (.fault opening (.unbalanced opener)) := by
  rw [groupFrom, Text.range_eq_nil hi, groupEnd, ranOut, if_neg (by omega)]

theorem groupFrom_beyond (hi : i < stop) (hl : t.length ≤ i) :
    a.groupFrom t stop opening opener closer outer i = .error .beyondText := by
  rw [groupFrom, Text.range_eq_nil_of_length_le hl, groupEnd, ranOut, if_pos (by omega)]

/-- One step: a part is passed over, or the stack gets higher or lower. -/
theorem groupFrom_step (ha : a.Marked) (hi : i < stop) (hl : i < t.length) :
    a.groupFrom t stop opening opener closer outer i = match a.partAt t stop i with
      | .error h => .error h
      | .ok (.passed j) => a.groupFrom t stop opening opener closer outer j
      | .ok (.opener inner) => a.groupFrom t stop opening opener inner (closer :: outer) (i + 1)
      | .ok .closer =>
        if [t.charAt i] = closer then
          match outer with
          | [] => .ok (i + 1)
          | next :: rest => a.groupFrom t stop opening opener next rest (i + 1)
        else .error (.fault i (.mismatched (t.charAt i) closer)) := by
  have hskip : ∀ skip j, i + 1 + skip = j →
      groupEnd a stop opening opener skip closer outer (i + 1) (t.range (i + 1) stop) =
        a.groupFrom t stop opening opener closer outer j := fun skip j hj => by
    rw [groupEnd_skip, hj]
  have hrange := Text.range_cons hi hl
  rw [groupFrom, hrange, groupEnd.eq_def]
  unfold partAt role
  by_cases he : a.escapes.contains (t.charAt i) = true
  · simp only [he, if_true]
    exact hskip 1 (i + 2) (by omega)
  · simp only [he, Bool.false_eq_true, if_false]
    cases ho : a.closerOf? (t.charAt i) with
    | some inner => rfl
    | none =>
      by_cases hc : a.isCloser (t.charAt i) = true
      · simp only [hc, if_true]
        rfl
      · simp only [hc, Bool.false_eq_true, if_false]
        by_cases hq : a.quotes.contains (t.charAt i) = true
        · simp only [hq, if_true]
          cases hs : stringEnd a stop i (t.charAt i) (i + 1) (t.range (i + 1) stop) with
          | error e => rfl
          | ok m =>
            have hb := string_bounds hi hs
            exact hskip (m - i - 1) m (by omega)
        · simp only [hq, Bool.false_eq_true, if_false, ← hrange]
          cases hk : a.commentAt (t.range i stop) with
          | none => exact hskip 0 (i + 1) (by omega)
          | some k =>
            simp only
            cases hs : commentEnd k stop i (t.range i stop) with
            | error e => rfl
            | ok m =>
              have hb := ha.comment_bounds hi hk hs
              exact hskip (m - i - 1) m (by omega)

end Stack

/-! ## Nesting -/

/-- From `i` on there are parts and nested groups, and a closer in front of `e`. -/
inductive Closes (a : Alphabet) (t : Text) (stop : Nat) : (closer : List Char) → (i e : Nat) → Prop
    where
  | close {closer : List Char} {i : Nat} (hi : i < stop) (h : a.partAt t stop i = .ok .closer)
      (hc : [t.charAt i] = closer) : Closes a t stop closer i (i + 1)
  | pass {closer : List Char} {i j e : Nat} (hi : i < stop)
      (h : a.partAt t stop i = .ok (.passed j)) (hr : Closes a t stop closer j e) :
      Closes a t stop closer i e
  | group {closer inner : List Char} {i j e : Nat} (hi : i < stop)
      (h : a.partAt t stop i = .ok (.opener inner)) (hg : Closes a t stop inner (i + 1) j)
      (hr : Closes a t stop closer j e) : Closes a t stop closer i e

namespace Closes

variable {closer : List Char} {e : Nat}

theorem lt (ha : a.Marked) (h : a.Closes t stop closer i e) : i < e ∧ e ≤ stop := by
  induction h with
  | close hi => omega
  | pass hi h _ ih =>
    have := resume_of_partAt ha hi h
    omega
  | group hi _ _ _ ihg ihr => omega

/-- **A group closes in a shorter stretch too, if it ends there.** -/
theorem bound {b : Nat} (ha : a.Marked) (ht : stop ≤ t.length) (hb : b ≤ stop)
    (h : a.Closes t stop closer i e) (he : e ≤ b) : a.Closes t b closer i e := by
  induction h with
  | close hi h hc => exact .close (by omega) (partAt_bound (by omega) hb ht h (by simp)) hc
  | pass hi h hr ih =>
    have hlt := hr.lt ha
    have hij := resume_of_partAt ha hi h
    refine .pass (by omega) (partAt_bound (by omega) hb ht h fun j hj => ?_) (ih he)
    cases hj
    omega
  | group hi h hg hr ihg ihr =>
    have hg' := hg.lt ha
    have hr' := hr.lt ha
    exact .group (by omega) (partAt_bound (by omega) hb ht h (by simp)) (ihg (by omega)) (ihr he)

/-- What has closed is taken from the stack. -/
theorem groupFrom_eq {opening : Nat} {opener : Char} (ha : a.Marked) (ht : stop ≤ t.length)
    (h : a.Closes t stop closer i e) : ∀ outer,
    a.groupFrom t stop opening opener closer outer i = match outer with
      | [] => .ok e
      | next :: rest => a.groupFrom t stop opening opener next rest e := by
  induction h with
  | close hi h hc =>
    intro outer
    rw [groupFrom_step ha hi (by omega), h]
    simp only [hc, if_true]
  | pass hi h _ ih =>
    intro outer
    rw [groupFrom_step ha hi (by omega), h]
    exact ih outer
  | group hi h _ _ ihg ihr =>
    intro outer
    rw [groupFrom_step ha hi (by omega), h]
    simp only
    rw [ihg]
    exact ihr outer

end Closes

/-- Where the stack gets empty, it does so closer by closer. -/
theorem closes_of_groupFrom {opening : Nat} {opener : Char} (ha : a.Marked) (ht : stop ≤ t.length) :
    ∀ (n : Nat) {i e : Nat} {closer : List Char} {outer : List (List Char)}, stop - i ≤ n →
      a.groupFrom t stop opening opener closer outer i = .ok e →
      ∃ j, a.Closes t stop closer i j ∧ match outer with
        | [] => e = j
        | next :: rest => a.groupFrom t stop opening opener next rest j = .ok e
  | n, i, e, closer, outer, hn, h => by
    by_cases hi : i < stop
    · obtain ⟨n, rfl⟩ : ∃ m, n = m + 1 := ⟨n - 1, by omega⟩
      rw [groupFrom_step ha hi (by omega)] at h
      cases hp : a.partAt t stop i with
      | error e => rw [hp] at h; cases h
      | ok p =>
        rw [hp] at h
        cases p with
        | passed j =>
          have hj := resume_of_partAt ha hi hp
          obtain ⟨m, hm, ho⟩ := closes_of_groupFrom ha ht n (by omega) h
          exact ⟨m, .pass hi hp hm, ho⟩
        | opener inner =>
          obtain ⟨m, hm, ho⟩ := closes_of_groupFrom ha ht n (by omega) h
          have hlt := hm.lt ha
          obtain ⟨m', hm', ho'⟩ := closes_of_groupFrom ha ht n (by omega) ho
          exact ⟨m', .group hi hp hm hm', ho'⟩
        | closer =>
          simp only at h
          split at h
          · rename_i hc
            refine ⟨i + 1, .close hi hp hc, ?_⟩
            cases outer with
            | nil => cases h; rfl
            | cons next rest => exact h
          · cases h
    · rw [groupFrom_end (by omega)] at h
      cases h

/-- **A group ends just where its parts close.** -/
theorem groupFrom_eq_ok_iff {opening e : Nat} {opener : Char} {closer : List Char} (ha : a.Marked)
    (ht : stop ≤ t.length) : a.groupFrom t stop opening opener closer [] i = .ok e ↔
      a.Closes t stop closer i e := by
  constructor
  · intro h
    obtain ⟨j, hj, rfl⟩ := closes_of_groupFrom ha ht (stop - i) (Nat.le_refl _) h
    exact hj
  · intro h
    exact h.groupFrom_eq ha ht []

end Alphabet

end Outline
