import Mathlib.Tactic.Common
import Outline.Proofs.Lexer.Group

/-!
# What has no say in the nesting

The escapes, strings, comments and other characters of a group, said character by character and without
the functions that look for their ends. The bound may lie behind the end of the text.

* `Text.Readable`, `Text.FirstMark`: a place that can be read, and the first place at which marks stand;
* `Alphabet.Starts`, `Comment.Ends`, `commentEnd_eq_iff`: the comment that starts at a place, and what it
  comes to;
* `Alphabet.Quoted`, `Alphabet.StringEnds`, `stringEnd_eq_iff`: the characters of a string, and what it comes
  to;
* `Alphabet.Passes`, **`Alphabet.passes_iff`**: what comes of all that is no bracket.
-/

namespace Outline

/-! ## Marks -/

namespace Text

variable {t : Text} {stop i m : Nat} {mark : List Char}

/-- There is a character to be read: the bound is not reached, and the text goes on. -/
structure Readable (t : Text) (stop i : Nat) : Prop where
  lt_stop : i < stop
  lt_length : i < t.length

theorem range_of_not_readable (h : ¬ t.Readable stop i) : t.range i stop = [] := by
  obtain hs | hs := Nat.lt_or_ge i stop
  · exact range_eq_nil_of_length_le (Nat.not_lt.mp fun hl => h ⟨hs, hl⟩)
  · exact range_eq_nil hs

theorem drop_range (t : Text) (i stop n : Nat) : (t.range i stop).drop n = t.range (i + n) stop := by
  rw [range_eq_drop_take, range_eq_drop_take, List.drop_drop]

/-- The marks stand at `m`, and at no place from `i` on that comes before. -/
structure FirstMark (t : Text) (stop : Nat) (mark : List Char) (i m : Nat) : Prop where
  le : i ≤ m
  stands : mark <+: t.range m stop
  first : ∀ j, i ≤ j → j < m → ¬ mark <+: t.range j stop

/-- The marks stand nowhere from `i` on. -/
def Unmarked (t : Text) (stop : Nat) (mark : List Char) (i : Nat) : Prop :=
  ∀ m, i ≤ m → ¬ mark <+: t.range m stop

theorem FirstMark.unique {m' : Nat} (h : t.FirstMark stop mark i m) (h' : t.FirstMark stop mark i m') :
    m = m' := by
  obtain hlt | rfl | hlt := Nat.lt_trichotomy m m'
  · exact absurd h.stands (h'.first m h.le hlt)
  · rfl
  · exact absurd h'.stands (h.first m' h'.le hlt)

theorem FirstMark.of_succ (hi : ¬ mark <+: t.range i stop) (h : t.FirstMark stop mark (i + 1) m) :
    t.FirstMark stop mark i m := by
  refine ⟨Nat.le_of_succ_le h.le, h.stands, fun j hj hm => ?_⟩
  obtain rfl | hlt := Nat.eq_or_lt_of_le hj
  · exact hi
  · exact h.first j hlt hm

theorem Unmarked.of_succ (hi : ¬ mark <+: t.range i stop) (h : t.Unmarked stop mark (i + 1)) :
    t.Unmarked stop mark i := fun m hm => by
  obtain rfl | hlt := Nat.eq_or_lt_of_le hm
  · exact hi
  · exact h m hlt

end Text

/-- What looking for marks finds. -/
theorem findMark_spec (t : Text) (stop : Nat) (mark : List Char) (i : Nat) :
    (∀ m, findMark mark i (t.range i stop) = some m → t.FirstMark stop mark i m) ∧
      (findMark mark i (t.range i stop) = none → t.Unmarked stop mark i) := by
  have hhere : mark <+: t.range i stop → t.FirstMark stop mark i i := fun h =>
    ⟨Nat.le_refl i, h, fun j hj hi => absurd hi (Nat.not_lt.mpr hj)⟩
  by_cases hr : t.Readable stop i
  · obtain ⟨hsome, hnone⟩ := findMark_spec t stop mark (i + 1)
    by_cases hm : mark <+: t.range i stop
    · have hf : findMark mark i (t.range i stop) = some i := by
        rw [Text.range_cons hr.lt_stop hr.lt_length] at hm ⊢
        rw [findMark, if_pos (List.isPrefixOf_iff_prefix.mpr hm)]
      rw [hf]
      refine ⟨fun m h => ?_, by simp⟩
      cases h
      exact hhere hm
    · have hf : findMark mark i (t.range i stop) = findMark mark (i + 1) (t.range (i + 1) stop) := by
        rw [Text.range_cons hr.lt_stop hr.lt_length] at hm ⊢
        rw [findMark, if_neg (mt List.isPrefixOf_iff_prefix.mp hm)]
      rw [hf]
      exact ⟨fun m h => (hsome m h).of_succ hm, fun h => (hnone h).of_succ hm⟩
  · have hnil := Text.range_of_not_readable hr
    rw [hnil, findMark]
    by_cases hm : mark = []
    · subst hm
      refine ⟨fun m h => ?_, by simp⟩
      cases h
      exact hhere List.nil_prefix
    · rw [if_neg (by simpa using hm)]
      refine ⟨by simp, fun _ m hle hp => hm ?_⟩
      have hmr : t.range m stop = [] :=
        Text.range_of_not_readable fun h => hr ⟨by have := h.lt_stop; omega, by have := h.lt_length; omega⟩
      rwa [hmr, List.prefix_nil] at hp
termination_by stop - i
decreasing_by
  have := hr.lt_stop
  omega

theorem findMark_eq_some_iff {t : Text} {stop i m : Nat} {mark : List Char} :
    findMark mark i (t.range i stop) = some m ↔ t.FirstMark stop mark i m := by
  obtain ⟨hsome, hnone⟩ := findMark_spec t stop mark i
  refine ⟨hsome m, fun h => ?_⟩
  cases hf : findMark mark i (t.range i stop) with
  | none => exact absurd h.stands (hnone hf m h.le)
  | some m' => rw [(hsome m' hf).unique h]

theorem findMark_eq_none_iff {t : Text} {stop i : Nat} {mark : List Char} :
    findMark mark i (t.range i stop) = none ↔ t.Unmarked stop mark i := by
  obtain ⟨hsome, hnone⟩ := findMark_spec t stop mark i
  refine ⟨hnone, fun h => ?_⟩
  cases hf : findMark mark i (t.range i stop) with
  | none => rfl
  | some m => exact absurd (hsome m hf).stands (h m (hsome m hf).le)

/-! ## Comments -/

/-- The comment starts where the characters do: its opener stands there, of the comments with a longer one none
does, and of those with one as long none that comes before it. -/
def Alphabet.Starts (a : Alphabet) (cs : List Char) (k : Comment) : Prop :=
  k.opener <+: cs ∧ ∃ before behind, a.comments = before ++ k :: behind ∧
    (∀ d ∈ before, d.opener <+: cs → d.opener.length < k.opener.length) ∧
    ∀ d ∈ behind, d.opener <+: cs → d.opener.length ≤ k.opener.length

theorem Alphabet.commentAt_eq_some_iff {a : Alphabet} {cs : List Char} {k : Comment} :
    a.commentAt cs = some k ↔ a.Starts cs k := by
  constructor
  · intro h
    obtain ⟨before, behind, hs, hb, ha⟩ := longestOpener_eq_some h
    obtain ⟨before', rest, hcs, rfl, hr⟩ := List.filter_eq_append_iff.mp hs
    obtain ⟨skipped, behind', rfl, hskip, hk, rfl⟩ := List.filter_eq_cons_iff.mp hr
    refine ⟨List.isPrefixOf_iff_prefix.mp hk, before' ++ skipped, behind', by simp [hcs],
      fun d hd hp => ?_, fun d hd hp => ?_⟩
    · have hp' := List.isPrefixOf_iff_prefix.mpr hp
      obtain hd | hd := List.mem_append.mp hd
      · exact hb d (List.mem_filter.mpr ⟨hd, hp'⟩)
      · exact absurd hp' (hskip d hd)
    · exact ha d (List.mem_filter.mpr ⟨hd, List.isPrefixOf_iff_prefix.mpr hp⟩)
  · rintro ⟨hk, before, behind, hcs, hb, ha⟩
    have hcons : (k :: behind).filter (·.opener.isPrefixOf cs) =
        k :: behind.filter (·.opener.isPrefixOf cs) :=
      List.filter_cons_of_pos (List.isPrefixOf_iff_prefix.mpr hk)
    rw [commentAt, hcs, List.filter_append, hcons]
    refine longestOpener_append (fun d hd => ?_) fun d hd => ?_
    · obtain ⟨hd, hp⟩ := List.mem_filter.mp hd
      exact hb d hd (List.isPrefixOf_iff_prefix.mp hp)
    · obtain ⟨hd, hp⟩ := List.mem_filter.mp hd
      exact ha d hd (List.isPrefixOf_iff_prefix.mp hp)

theorem Alphabet.not_starts_iff {a : Alphabet} {cs : List Char} :
    a.commentAt cs = none ↔ ∀ k ∈ a.comments, ¬ k.opener <+: cs := by
  simp only [commentAt_eq_none_iff, ← List.isPrefixOf_iff_prefix, Bool.not_eq_true]

/-- What a comment that starts at `i` comes to: it ends behind its closer, or before it if that is a newline,
and where there is none the bound is its end or it has none. -/
inductive Comment.Ends (k : Comment) (t : Text) (stop i : Nat) : Except Halt Nat → Prop where
  | closed {m : Nat} (hk : k.closer ≠ ['\n']) (hm : t.FirstMark stop k.closer (i + k.opener.length) m) :
      Ends k t stop i (.ok (m + k.closer.length))
  | line {m : Nat} (hk : k.closer = ['\n']) (hm : t.FirstMark stop k.closer (i + k.opener.length) m) :
      Ends k t stop i (.ok m)
  | rest (hk : k.closer = ['\n']) (hm : t.Unmarked stop k.closer (i + k.opener.length)) :
      Ends k t stop i (.ok stop)
  | unterminated (hk : k.closer ≠ ['\n']) (hm : t.Unmarked stop k.closer (i + k.opener.length)) :
      Ends k t stop i (.error (.fault i (.unterminatedComment k.closer)))

theorem Comment.isLine_iff {k : Comment} : k.isLine = true ↔ k.closer = ['\n'] := by simp [isLine]

theorem commentEnd_eq_iff {k : Comment} {t : Text} {stop i : Nat} {r : Except Halt Nat} :
    commentEnd k stop i (t.range i stop) = r ↔ k.Ends t stop i r := by
  unfold commentEnd
  simp only [Text.drop_range]
  constructor
  · rintro rfl
    cases hf : findMark k.closer (i + k.opener.length) (t.range (i + k.opener.length) stop) with
    | some m =>
      have hm := findMark_eq_some_iff.mp hf
      by_cases hk : k.isLine = true
      · simp only [if_pos hk]
        exact .line (Comment.isLine_iff.mp hk) hm
      · simp only [if_neg hk]
        exact .closed (mt Comment.isLine_iff.mpr hk) hm
    | none =>
      have hm := findMark_eq_none_iff.mp hf
      by_cases hk : k.isLine = true
      · simp only [if_pos hk]
        exact .rest (Comment.isLine_iff.mp hk) hm
      · simp only [if_neg hk]
        exact .unterminated (mt Comment.isLine_iff.mpr hk) hm
  · intro h
    cases h with
    | closed hk hm => simp only [findMark_eq_some_iff.mpr hm, if_neg (mt Comment.isLine_iff.mp hk)]
    | line hk hm => simp only [findMark_eq_some_iff.mpr hm, if_pos (Comment.isLine_iff.mpr hk)]
    | rest hk hm => simp only [findMark_eq_none_iff.mpr hm, if_pos (Comment.isLine_iff.mpr hk)]
    | unterminated hk hm =>
      simp only [findMark_eq_none_iff.mpr hm, if_neg (mt Comment.isLine_iff.mp hk)]

/-! ## Strings -/

namespace Alphabet

variable {a : Alphabet} {t : Text} {stop opening i j : Nat} {q : Char} {r : Except Halt Nat}

/-- The characters of a string from one place to another: escapes, each with the character behind it, and
others than the quote. -/
inductive Quoted (a : Alphabet) (t : Text) (stop : Nat) (q : Char) : Nat → Nat → Prop where
  | nil (i : Nat) : Quoted a t stop q i i
  | escape {i j : Nat} (hi : t.Readable stop i) (he : t.charAt i ∈ a.escapes)
      (hr : Quoted a t stop q (i + 2) j) : Quoted a t stop q i j
  | other {i j : Nat} (hi : t.Readable stop i) (he : t.charAt i ∉ a.escapes) (hq : t.charAt i ≠ q)
      (hr : Quoted a t stop q (i + 1) j) : Quoted a t stop q i j

/-- What a string comes to, read from `i` on: it ends behind the first quote, or the bound is reached before
there is one, or the text ends before the bound. -/
inductive StringEnds (a : Alphabet) (t : Text) (stop opening : Nat) (q : Char) (i : Nat) :
    Except Halt Nat → Prop where
  | closed {j : Nat} (h : a.Quoted t stop q i j) (hj : t.Readable stop j) (he : t.charAt j ∉ a.escapes)
      (hq : t.charAt j = q) : StringEnds a t stop opening q i (.ok (j + 1))
  | unterminated {j : Nat} (h : a.Quoted t stop q i j) (hj : stop ≤ j) :
      StringEnds a t stop opening q i (.error (.fault opening (.unterminatedString q)))
  | beyond {j : Nat} (h : a.Quoted t stop q i j) (hj : j < stop) (hl : t.length ≤ j) :
      StringEnds a t stop opening q i (.error .beyondText)

theorem stringEnd_escape (hi : t.Readable stop i) (he : t.charAt i ∈ a.escapes) :
    stringEnd a stop opening q i (t.range i stop) =
      stringEnd a stop opening q (i + 2) (t.range (i + 2) stop) := by
  rw [Text.range_cons hi.lt_stop hi.lt_length, stringEnd.eq_def]
  simp only [if_pos (List.contains_iff_mem.mpr he)]
  by_cases hi' : t.Readable stop (i + 1)
  · rw [Text.range_cons hi'.lt_stop hi'.lt_length]
  · have hi'' : ¬ t.Readable stop (i + 2) := fun h =>
      hi' ⟨by have := h.lt_stop; omega, by have := h.lt_length; omega⟩
    rw [Text.range_of_not_readable hi', Text.range_of_not_readable hi'', stringEnd]

theorem stringEnd_other (hi : t.Readable stop i) (he : t.charAt i ∉ a.escapes) :
    stringEnd a stop opening q i (t.range i stop) =
      if t.charAt i = q then .ok (i + 1) else stringEnd a stop opening q (i + 1) (t.range (i + 1) stop) := by
  rw [Text.range_cons hi.lt_stop hi.lt_length, stringEnd_cons (mt List.contains_iff_mem.mp he)]

theorem stringEnd_not_readable (hi : ¬ t.Readable stop i) : stringEnd a stop opening q i (t.range i stop) =
    ranOut stop i opening (.unterminatedString q) := by
  rw [Text.range_of_not_readable hi, stringEnd]

theorem Quoted.stringEnd_eq (h : a.Quoted t stop q i j) : stringEnd a stop opening q i (t.range i stop) =
    stringEnd a stop opening q j (t.range j stop) := by
  induction h with
  | nil => rfl
  | escape hi he _ ih => rw [stringEnd_escape hi he, ih]
  | other hi he hq _ ih => rw [stringEnd_other hi he, if_neg hq, ih]

theorem StringEnds.of_quoted (h : a.StringEnds t stop opening q j r)
    (hq : ∀ e, a.Quoted t stop q j e → a.Quoted t stop q i e) : a.StringEnds t stop opening q i r := by
  cases h with
  | closed h hj he hc => exact .closed (hq _ h) hj he hc
  | unterminated h hj => exact .unterminated (hq _ h) hj
  | beyond h hj hl => exact .beyond (hq _ h) hj hl

theorem stringEnds_stringEnd (i : Nat) :
    a.StringEnds t stop opening q i (stringEnd a stop opening q i (t.range i stop)) := by
  by_cases hi : t.Readable stop i
  · by_cases he : t.charAt i ∈ a.escapes
    · rw [stringEnd_escape hi he]
      exact (stringEnds_stringEnd (i + 2)).of_quoted fun _ => .escape hi he
    · rw [stringEnd_other hi he]
      by_cases hq : t.charAt i = q
      · rw [if_pos hq]
        exact .closed (.nil i) hi he hq
      · rw [if_neg hq]
        exact (stringEnds_stringEnd (i + 1)).of_quoted fun _ => .other hi he hq
  · rw [stringEnd_not_readable hi, ranOut]
    by_cases hs : i < stop
    · rw [if_pos hs]
      exact .beyond (.nil i) hs (Nat.not_lt.mp fun hl => hi ⟨hs, hl⟩)
    · rw [if_neg hs]
      exact .unterminated (.nil i) (Nat.not_lt.mp hs)
termination_by stop - i
decreasing_by
  all_goals
    have := hi.lt_stop
    omega

theorem stringEnd_eq_iff : stringEnd a stop opening q i (t.range i stop) = r ↔
    a.StringEnds t stop opening q i r := by
  constructor
  · rintro rfl
    exact stringEnds_stringEnd i
  · intro h
    cases h with
    | closed h hj he hq => rw [h.stringEnd_eq, stringEnd_other hj he, if_pos hq]
    | unterminated h hj =>
      rw [h.stringEnd_eq, stringEnd_not_readable fun hr => absurd hr.lt_stop (Nat.not_lt.mpr hj), ranOut,
        if_neg (Nat.not_lt.mpr hj)]
    | beyond h hj hl =>
      rw [h.stringEnd_eq, stringEnd_not_readable fun hr => absurd hr.lt_length (Nat.not_lt.mpr hl), ranOut,
        if_pos hj]

/-! ## All that is no bracket -/

/-- What comes of an escape, a string, a comment or another character that stands at `i`: where it ends, or why it
does not. -/
inductive Passes (a : Alphabet) (t : Text) (stop i : Nat) : Except Halt Nat → Prop where
  | escape (h : a.role (t.charAt i) = .escape) : Passes a t stop i (.ok (i + 2))
  | string {r : Except Halt Nat} (h : a.role (t.charAt i) = .quote)
      (hr : a.StringEnds t stop i (t.charAt i) (i + 1) r) : Passes a t stop i r
  | comment {k : Comment} {r : Except Halt Nat} (h : a.role (t.charAt i) = .other)
      (hk : a.Starts (t.range i stop) k) (hr : k.Ends t stop i r) : Passes a t stop i r
  | other (h : a.role (t.charAt i) = .other) (hk : ∀ k ∈ a.comments, ¬ k.opener <+: t.range i stop) :
      Passes a t stop i (.ok (i + 1))

theorem Part.map_passed_inj {r r' : Except Halt Nat} (h : r.map Part.passed = r'.map .passed) : r = r' := by
  cases r <;> cases r' <;> cases h <;> rfl

/-- **What is passed over**, and what keeps it from being passed over. -/
theorem passes_iff : a.Passes t stop i r ↔ a.partAt t stop i = r.map .passed := by
  constructor
  · intro h
    cases h with
    | escape h => rw [partAt, h]; rfl
    | string h hr => rw [partAt, h, ← stringEnd_eq_iff.mpr hr]
    | comment h hk hr => rw [partAt, h, commentAt_eq_some_iff.mpr hk, ← commentEnd_eq_iff.mpr hr]
    | other h hk => rw [partAt, h, not_starts_iff.mpr hk]; rfl
  · intro h
    unfold partAt at h
    cases hr : a.role (t.charAt i) with
    | escape =>
      rw [hr] at h
      exact Part.map_passed_inj (r := .ok (i + 2)) h ▸ .escape hr
    | opener inner => rw [hr] at h; cases r <;> cases h
    | closer => rw [hr] at h; cases r <;> cases h
    | quote =>
      rw [hr] at h
      exact .string hr (stringEnd_eq_iff.mp (Part.map_passed_inj h))
    | other =>
      rw [hr] at h
      cases hk : a.commentAt (t.range i stop) with
      | some k =>
        rw [hk] at h
        exact .comment hr (commentAt_eq_some_iff.mp hk) (commentEnd_eq_iff.mp (Part.map_passed_inj h))
      | none =>
        rw [hk] at h
        exact Part.map_passed_inj (r := .ok (i + 1)) h ▸ .other hr (not_starts_iff.mp hk)

end Alphabet

end Outline
