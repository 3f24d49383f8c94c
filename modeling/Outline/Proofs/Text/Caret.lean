import Outline.Proofs.Text.Lines

/-!
# The caret of a message

A message about an offset quotes the line of the offset and has a caret in the line below. The two are moved
to the right together, but what is moved is every stretch of the line that ends like a line when text is
laid out, and the caret only once. So the caret stands below the character at the offset if no such stretch
ends before it, blank ones apart, and too far to the left by one move for each of them.

* `Text.laid`: the stretches of a line that end among its first characters, and what is behind them;
* `Text.cutLines_append`, `Text.indent_append`: laying out what begins with some characters;
* `Text.strays`, `Text.Unbroken`, `Text.strays_eq_zero_iff`: how many stretches are moved before a place;
* **`Text.splitLines_pointOut`**: the lines of a message, and where in them the character at the offset is;
* `Text.pointOut_blank_formFeed`, `Text.pointOut_formFeed`: lines with a form feed in them.
-/

namespace Outline

namespace Text

/-! ## Layout -/

/-- A character that ends a line is blank. -/
theorem isBlank_of_isLineBreak {c : Char} (h : isLineBreak c = true) : Unicode.isBlank c = true := by
  simp only [isLineBreak, Bool.or_eq_true, Bool.and_eq_true, decide_eq_true_eq, beq_iff_eq] at h
  simp only [Unicode.isBlank, Unicode.blankRanges, Unicode.Range.within]
  grind

theorem isLineBreak_of_not_isBlank {c : Char} (h : Unicode.isBlank c = false) :
    isLineBreak c = false := by
  cases hb : isLineBreak c with
  | false => rfl
  | true =>
    rw [isBlank_of_isLineBreak hb] at h
    cases h

/-- The stretches that end like lines among some characters, and what is behind the last of them. -/
def laid (cs : List Char) : List (List Char) × List Char :=
  cs.foldl (fun s c => if isLineBreak c then (s.1 ++ [s.2 ++ [c]], []) else (s.1, s.2 ++ [c]))
    ([], [])

theorem laid_concat (cs : List Char) (c : Char) : laid (cs ++ [c]) =
    if isLineBreak c then ((laid cs).1 ++ [(laid cs).2 ++ [c]], [])
    else ((laid cs).1, (laid cs).2 ++ [c]) := by
  rw [laid, List.foldl_append, List.foldl_cons, List.foldl_nil]
  rfl

/-- The stretches and what is behind them are all of the characters. -/
theorem flatten_laid (cs : List Char) : (laid cs).1.flatten ++ (laid cs).2 = cs := by
  induction cs using List.reverseRecOn with
  | nil => rfl
  | append_singleton cs c ih =>
    rw [laid_concat]
    split
    · rw [List.flatten_append, List.flatten_singleton, List.append_nil, ← List.append_assoc, ih]
    · rw [← List.append_assoc, ih]

/-- Each stretch ends like a line. -/
theorem end_of_mem_laid {cs l : List Char} (h : l ∈ (laid cs).1) :
    ∃ m b, l = m ++ [b] ∧ isLineBreak b = true := by
  induction cs using List.reverseRecOn with
  | nil => cases h
  | append_singleton cs c ih =>
    rw [laid_concat] at h
    split at h
    · next hb =>
      obtain h | h := List.mem_append.mp h
      · exact ih h
      · exact ⟨_, c, List.mem_singleton.mp h, hb⟩
    · exact ih h

/-- Nothing that ends a line is behind the last stretch. -/
theorem not_isLineBreak_of_mem_laid {cs : List Char} {b : Char} (h : b ∈ (laid cs).2) :
    isLineBreak b = false := by
  induction cs using List.reverseRecOn with
  | nil => cases h
  | append_singleton cs c ih =>
    rw [laid_concat] at h
    split at h
    · cases h
    · next hb =>
      obtain h | h := List.mem_append.mp h
      · exact ih h
      · exact List.mem_singleton.mp h ▸ Bool.eq_false_iff.mpr hb

theorem cutLines_cons {c : Char} {cs : List Char} (h : cs.head? ≠ some '\n') :
    cutLines (c :: cs) = if isLineBreak c then [c] :: cutLines cs else consLine c (cutLines cs) := by
  rw [cutLines.eq_def]
  split
  · next heq => cases heq
  · next heq =>
    cases heq
    exact absurd rfl h
  · next heq =>
    cases heq
    rfl

/-- A carriage return apart, nothing is one with a newline behind it. -/
theorem cutLines_cons_newline {c : Char} (h : isLineBreak c = false) (cs : List Char) :
    cutLines (c :: '\n' :: cs) = [c, '\n'] :: cutLines cs := by
  rw [cutLines.eq_def]
  split
  · next heq => cases heq
  · next heq =>
    cases heq
    cases h
  · next heq =>
    cases heq
    rw [if_neg (by simp [h]), cutLines.eq_def]
    rfl

/-- What does not end a line is in the stretch of what follows. -/
theorem exists_cutLines_cons {c : Char} (h : isLineBreak c = false) (cs : List Char) :
    ∃ first behind, cutLines (c :: cs) = (c :: first) :: behind := by
  by_cases hn : cs.head? = some '\n'
  · obtain ⟨cs, rfl⟩ := List.head?_eq_some_iff.mp hn
    exact ⟨_, _, cutLines_cons_newline h cs⟩
  · rw [cutLines_cons hn, if_neg (by simp [h])]
    cases cutLines cs with
    | nil => exact ⟨[], [], rfl⟩
    | cons first behind => exact ⟨first, behind, rfl⟩

theorem flatten_consLine (c : Char) (ls : List (List Char)) :
    (consLine c ls).flatten = c :: ls.flatten := by
  cases ls <;> rfl

/-- Nothing is lost between the stretches. -/
theorem flatten_cutLines (cs : List Char) : (cutLines cs).flatten = cs := by
  fun_induction cutLines cs with
  | case1 => rfl
  | case2 cs ih => rw [List.flatten_cons, ih]; rfl
  | case3 c cs _ _ ih => rw [List.flatten_cons, ih]; rfl
  | case4 c cs _ _ ih => rw [flatten_consLine, ih]

theorem foldr_consLine (m l : List Char) (ls : List (List Char)) :
    m.foldr consLine (l :: ls) = (m ++ l) :: ls := by
  induction m with
  | nil => rfl
  | cons c m ih => rw [List.foldr_cons, ih, consLine, List.cons_append]

/-- Characters within a line are cut into the stretches that end among them; what is behind the last of
them belongs to the first stretch of what follows. -/
theorem cutLines_append {as bs : List Char} (ha : '\n' ∉ as) (hb : bs.head? ≠ some '\n') :
    cutLines (as ++ bs) = (laid as).1 ++ (laid as).2.foldr consLine (cutLines bs) := by
  induction as using List.reverseRecOn generalizing bs with
  | nil => rfl
  | append_singleton as c ih =>
    obtain ⟨has, hc⟩ := not_or.mp fun h => ha (List.mem_append.mpr h)
    have hhead : (c :: bs).head? ≠ some '\n' := fun h => hc (by cases h; exact List.mem_singleton_self _)
    rw [List.append_assoc, List.singleton_append, ih has hhead, cutLines_cons hb, laid_concat]
    split
    · rw [foldr_consLine, List.append_assoc, List.singleton_append]
      rfl
    · rw [List.foldr_append, List.foldr_cons, List.foldr_nil]

/-! ## Moving to the right -/

/-- A stretch that is not blank is moved four columns to the right. -/
def moved (l : List Char) : List Char :=
  if l.all Unicode.isBlank then l else List.replicate 4 ' ' ++ l

theorem indent_eq (cs : List Char) : indent cs = (cutLines cs).flatMap moved := rfl

theorem moved_of_mem {l : List Char} {c : Char} (hc : Unicode.isBlank c = false) (h : c ∈ l) :
    moved l = List.replicate 4 ' ' ++ l := by
  rw [moved, if_neg]
  intro hall
  rw [List.all_eq_true.mp hall c h] at hc
  cases hc

/-- How many of the stretches that end among some characters are moved. -/
def strays (cs : List Char) : Nat := (laid cs).1.countP fun l => !l.all Unicode.isBlank

theorem length_flatMap_moved (ls : List (List Char)) : (ls.flatMap moved).length =
    ls.flatten.length + 4 * ls.countP fun l => !l.all Unicode.isBlank := by
  induction ls with
  | nil => rfl
  | cons l ls ih =>
    rw [List.flatMap_cons, List.length_append, ih, List.flatten_cons, List.length_append,
      List.countP_cons, moved]
    by_cases hl : l.all Unicode.isBlank = true
    · simp only [hl, if_true, Bool.not_true, Bool.false_eq_true, if_false]
      omega
    · simp only [hl, Bool.false_eq_true, if_false, Bool.not_false, if_true, List.length_append,
        List.length_replicate]
      omega

/-- Where a character that is not blank comes to stand: each stretch that ends before it has moved it, and so
has its own. -/
theorem indent_append {as : List Char} {c : Char} (ha : '\n' ∉ as) (hc : Unicode.isBlank c = false)
    (bs : List Char) : ∃ before behind, indent (as ++ c :: bs) = before ++ c :: behind ∧
      before.length = as.length + 4 + 4 * strays as := by
  have hbreak := isLineBreak_of_not_isBlank hc
  have hhead : (c :: bs).head? ≠ some '\n' := by
    rintro ⟨⟩
    cases hbreak
  -- the stretch with the character in it
  obtain ⟨first, behind, hcut⟩ := exists_cutLines_cons hbreak bs
  have hlen := congrArg List.length (flatten_laid as)
  refine ⟨(laid as).1.flatMap moved ++ List.replicate 4 ' ' ++ (laid as).2,
    first ++ behind.flatMap moved, ?_, ?_⟩
  · rw [indent_eq, cutLines_append ha hhead, hcut, foldr_consLine, List.flatMap_append,
      List.flatMap_cons, moved_of_mem hc (List.mem_append_right _ List.mem_cons_self)]
    simp
  · rw [List.length_append] at hlen
    rw [List.length_append, List.length_append, List.length_replicate, length_flatMap_moved, strays]
    omega

/-- A line that does not end in a blank is moved apart from what is behind its newline. -/
theorem indent_line {as : List Char} {z : Char} (ha : '\n' ∉ as) (hz : Unicode.isBlank z = false)
    (bs : List Char) :
    indent (as ++ [z] ++ '\n' :: bs) = indent (as ++ [z]) ++ '\n' :: indent bs := by
  have hbreak := isLineBreak_of_not_isBlank hz
  have hhead : ∀ ds : List Char, (z :: ds).head? ≠ some '\n' := by
    rintro ds ⟨⟩
    cases hbreak
  have hone : cutLines [z] = [[z]] := by
    rw [cutLines_cons (by simp), if_neg (by simp [hbreak])]
    rfl
  rw [List.append_assoc, List.singleton_append, indent_eq, indent_eq, indent_eq,
    cutLines_append ha (hhead _), cutLines_append ha (hhead _), cutLines_cons_newline hbreak, hone,
    foldr_consLine, foldr_consLine, List.flatMap_append, List.flatMap_append, List.flatMap_cons,
    List.flatMap_cons, List.flatMap_nil, moved_of_mem hz (by simp), moved_of_mem hz (by simp)]
  simp

theorem mem_indent {cs : List Char} {x : Char} (h : x ∈ indent cs) : x = ' ' ∨ x ∈ cs := by
  obtain ⟨l, hl, hx⟩ := List.mem_flatMap.mp h
  have hmem : x ∈ l → x ∈ cs := fun hx => by
    rw [← flatten_cutLines cs]
    exact List.mem_flatten_of_mem hl hx
  split at hx
  · exact Or.inr (hmem hx)
  · obtain hx | hx := List.mem_append.mp hx
    · exact Or.inl (List.eq_of_mem_replicate hx)
    · exact Or.inr (hmem hx)

/-- The caret is moved as a whole. -/
theorem indent_caret (column : Nat) :
    indent (caret column) = List.replicate (column - 1 + 4) ' ' ++ ['^'] := by
  have hspace : ∀ n, '\n' ∉ List.replicate n ' ' := fun n h => by cases List.eq_of_mem_replicate h
  have hlaid : ∀ n, laid (List.replicate n ' ') = ([], List.replicate n ' ') := fun n => by
    induction n with
    | zero => rfl
    | succ n ih =>
      rw [List.replicate_succ', laid_concat, ih]
      rfl
  rw [caret, indent_eq, cutLines_append (hspace _) (by simp), hlaid, List.nil_append,
    cutLines_cons (by simp), if_neg (by decide), cutLines, consLine, foldr_consLine,
    List.flatMap_singleton, moved_of_mem (c := '^') (by decide) (by simp)]
  rw [← List.append_assoc, List.replicate_append_replicate, Nat.add_comm]

/-! ## Stretches before a place -/

/-- No stretch ends like a line behind a character that is not blank. -/
def Unbroken (cs : List Char) : Prop :=
  cs.Pairwise fun a b => isLineBreak b = true → Unicode.isBlank a = true

instance (cs : List Char) : Decidable (Unbroken cs) := by unfold Unbroken; infer_instance

/-- No stretch is moved if each is blank. -/
theorem strays_eq_zero_iff (cs : List Char) : strays cs = 0 ↔ Unbroken cs := by
  have hblank : strays cs = 0 ↔ ∀ l ∈ (laid cs).1, ∀ c ∈ l, Unicode.isBlank c = true := by
    rw [strays, List.countP_eq_zero]
    simp
  rw [hblank]
  constructor
  · intro h
    have hflat : ∀ c ∈ (laid cs).1.flatten, Unicode.isBlank c = true := fun c hc => by
      obtain ⟨l, hl, hc⟩ := List.mem_flatten.mp hc
      exact h l hl c hc
    have hlast : ∀ b ∈ (laid cs).2, ¬ isLineBreak b = true := fun b hb => by
      rw [not_isLineBreak_of_mem_laid hb]
      exact Bool.false_ne_true
    rw [Unbroken, ← flatten_laid cs, List.pairwise_append]
    refine ⟨List.pairwise_of_forall_mem_list fun a ha b _ _ => hflat a ha,
      List.pairwise_of_forall_mem_list fun a _ b hb hbreak => absurd hbreak (hlast b hb),
      fun a ha b _ _ => hflat a ha⟩
  · intro h l hl c hc
    obtain ⟨m, b, rfl, hb⟩ := end_of_mem_laid hl
    have hsub : (m ++ [b]).Sublist cs := by
      have hs := (List.sublist_flatten_of_mem hl).trans (List.sublist_append_left _ (laid cs).2)
      rwa [flatten_laid] at hs
    obtain ⟨-, -, hm⟩ := List.pairwise_append.mp (h.sublist hsub)
    obtain hc | hc := List.mem_append.mp hc
    · exact hm c hc b (List.mem_singleton_self b) hb
    · rw [List.mem_singleton.mp hc]
      exact isBlank_of_isLineBreak hb

/-! ## Messages -/

/-- What is said about a position. -/
def heading (p : Position) : String := s!"At line {p.line} column {p.column}:"

theorem not_mem_heading (p : Position) : '\n' ∉ (heading p).toList := by
  have hdigits : ∀ n : Nat, '\n' ∉ Nat.toDigits 10 n := fun n h => by
    cases Nat.isDigit_of_mem_toDigits (by decide) (by decide) h
  simp only [heading, String.toList_append, List.mem_append, not_or, Nat.toString_eq_ofList_toDigits,
    String.toList_ofList]
  exact ⟨⟨⟨⟨by decide, hdigits _⟩, by decide⟩, hdigits _⟩, by decide⟩

theorem toList_pointOut (t : Text) (offset : Int) (message : String) :
    (t.pointOut offset message).toList =
      (heading (t.position offset)).toList ++ '\n' ::
        (indent (trimEnd Unicode.isBlank (t.line (t.position offset).line) ++
          '\n' :: caret (t.position offset).column) ++ '\n' :: message.toList) := by
  generalize hp : t.position offset = p
  have hcolon : (toString ":\n").toList = (toString ":").toList ++ ['\n'] := by decide
  have hbreak : "\n".toList = ['\n'] := by decide
  have hparts : (t.pointOut offset message).toList =
      s!"At line {p.line} column {p.column}:\n".toList ++ (String.ofList (indent
        (trimEnd Unicode.isBlank (t.line p.line) ++ '\n' :: caret p.column))).toList ++
          "\n".toList ++ message.toList := by
    rw [← hp, ← String.toList_append, ← String.toList_append, ← String.toList_append]
    rfl
  rw [hparts, String.toList_ofList, heading]
  simp only [String.toList_append, hcolon, hbreak, List.append_assoc, List.cons_append,
    List.nil_append]

/-- The lines of a message, if the line to be shown is not blank. -/
theorem splitLines_pointOut_of_shown {t : Text} {offset : Int} {p : Position} {as : List Char} {z : Char}
    (hp : t.position offset = p)
    (hs : trimEnd Unicode.isBlank (t.line p.line) = as ++ [z]) (hn : '\n' ∉ as ++ [z])
    (hz : Unicode.isBlank z = false) (message : String) :
    splitLines (t.pointOut offset message).toList = (heading p).toList :: indent (as ++ [z]) ::
      (List.replicate (p.column - 1 + 4) ' ' ++ ['^']) :: splitLines message.toList := by
  have hshown : '\n' ∉ indent (as ++ [z]) := fun h => by
    obtain h | h := mem_indent h
    · cases h
    · exact hn h
  have hcaret : '\n' ∉ List.replicate (p.column - 1 + 4) ' ' ++ ['^'] := by simp
  rw [toList_pointOut, hp, hs, indent_line (fun h => hn (List.mem_append_left _ h)) hz, indent_caret,
    splitLines_line (not_mem_heading p), List.append_assoc, List.cons_append, splitLines_line hshown,
    splitLines_line hcaret]

/-- **The lines of a message about a character that is not blank.** The first states its line and column, and
the third has a caret below its column, both moved four columns to the right. The second is the line of the
character, which stands above the caret if the line is unbroken before it, and otherwise further to the right
by four columns for each stretch that strays. -/
theorem splitLines_pointOut {t : Text} {o : Nat} {c : Char} (hc : t.toList[o]? = some c)
    (hb : Unicode.isBlank c = false) (message : String) :
    ∃ above before behind below shown,
      t.lines = above ++ (before ++ c :: behind) :: below ∧
      (above.map (·.length + 1)).sum + before.length = o ∧
      splitLines (t.pointOut o message).toList =
        (heading ⟨above.length + 1, before.length + 1⟩).toList :: shown ::
          (List.replicate (before.length + 4) ' ' ++ ['^']) :: splitLines message.toList ∧
      shown[before.length + 4 + 4 * strays before]? = some c ∧
      (strays before = 0 ↔ Unbroken before) := by
  have hne : ∀ d, Unicode.isBlank d = true → c ≠ d := by
    rintro d hd rfl
    rw [hb] at hd
    cases hd
  obtain ⟨above, before, behind, below, hlines, hsum, hpos⟩ :=
    exists_line_of_getElem? hc (hne '\n' (by decide))
  have hline : '\n' ∉ before ++ c :: behind := by
    have hmem : before ++ c :: behind ∈ t.lines := hlines ▸ List.mem_append_right _ List.mem_cons_self
    exact not_mem_of_mem_splitLines hmem
  -- what is shown of the line goes beyond the character
  have htrim : trimEnd Unicode.isBlank (t.line (above.length + 1 : Nat)) =
      before ++ c :: trimEnd Unicode.isBlank (trimEnd (· == '\r') behind) := by
    have hcr := trimEnd_append_cons (p := (· == '\r')) (beq_eq_false_iff_ne.mpr (hne '\r' (by decide)))
      before behind
    rw [t.line_natCast hlines, hcr, trimEnd_append_cons hb]
  obtain ⟨as, z, hshown, hz⟩ := (trimEnd_eq_nil_or (p := Unicode.isBlank)
    (t.line (above.length + 1 : Nat))).resolve_left fun h => by
      rw [h] at htrim
      simp at htrim
  have hmem : '\n' ∉ as ++ [z] := fun h => by
    rw [← hshown, t.line_natCast hlines] at h
    exact hline ((prefix_trimEnd _).subset ((prefix_trimEnd _).subset h))
  obtain ⟨left, right, hindent, hleft⟩ := indent_append
    (fun h => hline (List.mem_append_left _ h)) hb
    (trimEnd Unicode.isBlank (trimEnd (· == '\r') behind))
  refine ⟨above, before, behind, below, indent (as ++ [z]), hlines, hsum,
    splitLines_pointOut_of_shown hpos hshown hmem hz message, ?_, strays_eq_zero_iff before⟩
  rw [← hshown, htrim, hindent, ← hleft, List.getElem?_append_right (Nat.le_refl _), Nat.sub_self]
  rfl

/-- A form feed with nothing but a blank before it leaves the caret where it belongs. -/
theorem pointOut_blank_formFeed : (ofString "a\n \x0cb").toList[4]? = some 'b' ∧
    Unicode.isBlank 'b' = false ∧ ∃ above before behind below shown,
      (ofString "a\n \x0cb").lines = above ++ (before ++ 'b' :: behind) :: below ∧
      (above.map (·.length + 1)).sum + before.length = 4 ∧
      splitLines ((ofString "a\n \x0cb").pointOut 4 "m").toList =
        (heading ⟨above.length + 1, before.length + 1⟩).toList :: shown ::
          (List.replicate (before.length + 4) ' ' ++ ['^']) :: splitLines "m".toList ∧
      shown[before.length + 4 + 4 * strays before]? = some 'b' ∧
      (strays before = 0 ↔ Unbroken before) :=
  ⟨by decide, by decide, splitLines_pointOut (by decide) (by decide) "m"⟩

/-- Behind a form feed that stands behind a letter the caret is four columns too far to the left. -/
theorem pointOut_formFeed : (ofString "a\x0cb").toList[2]? = some 'b' ∧ Unicode.isBlank 'b' = false ∧
    splitLines ((ofString "a\x0cb").pointOut 2 "m").toList =
      ["At line 1 column 3:".toList, "    a\x0c    b".toList, "      ^".toList, ['m']] ∧
    "    a\x0c    b".toList[6]? ≠ some 'b' := by
  decide +kernel

end Text

end Outline
