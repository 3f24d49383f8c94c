import Outline.Proofs.Lexeme.Reading

/-!
# Rows that differ in comments alone

Two rows of lexemes may differ in comments. A reader who passes comments over reads the same from both,
though it stands at other places, and it comes back to a place in one just where it does in the other.

* `Lexeme.spoken`, `Cursor.content`: the lexemes that are no comments;
* `Cursor.Alike`: two cursors with the same left to read but for comments;
* `Cursor.Alike.reads`, `Cursor.Alike.offset`: what is read from them;
* `Cursor.Abreast`, **`Cursor.Abreast.index_eq_iff`**: two readers that have read the same lexemes.
-/

namespace Outline

/-- The lexemes that are no comments. -/
def Lexeme.spoken (ls : List Lexeme) : List Lexeme := ls.filter (·.kind != .comment)

@[simp] theorem Lexeme.spoken_nil : spoken [] = [] := rfl

theorem Lexeme.spoken_cons (l : Lexeme) (ls : List Lexeme) :
    spoken (l :: ls) = if l.kind = .comment then spoken ls else l :: spoken ls := by
  by_cases h : l.kind = .comment <;> simp [spoken, h]

namespace Cursor

open Lexeme

variable {a b c d c' d' : Cursor}

/-- What is left to read, without comments. -/
def content (c : Cursor) : List Lexeme := spoken (c.lexemes.toList.drop c.index.toNat)

theorem content_eq_nil (h : (c.size : Int) ≤ c.index) : c.content = [] := by
  have hlen : c.lexemes.toList.length ≤ c.index.toNat := by
    rw [Array.length_toList]
    unfold size at h
    omega
  rw [content, List.drop_eq_nil_of_le hlen, spoken_nil]

theorem nextFrom_spoken (c : Cursor) : ∀ fuel p : Nat, fuel + p = c.size →
    (spoken (c.lexemes.toList.drop p) = [] ∧ ∃ q, c.nextFrom true fuel p = .ok (none, q)) ∨
      ∃ l, ∃ q : Nat, c.nextFrom true fuel p = .ok (some l, (q : Int)) ∧
        spoken (c.lexemes.toList.drop p) = l :: spoken (c.lexemes.toList.drop q) := by
  intro fuel
  induction fuel with
  | zero =>
    intro p hp
    have hdrop : c.lexemes.toList.drop p = [] := List.drop_eq_nil_of_le (by
      rw [Array.length_toList]
      unfold size at hp
      omega)
    exact Or.inl ⟨by rw [hdrop, spoken_nil], p, rfl⟩
  | succ fuel ih =>
    intro p hp
    have hlen : p < c.lexemes.toList.length := by
      rw [Array.length_toList]
      unfold size at hp
      omega
    have hnext : (p : Int) + 1 = (p + 1 : Nat) := rfl
    rw [nextFrom, lexemeAt_natCast hlen, List.drop_eq_getElem_cons hlen, spoken_cons]
    simp only [Bool.true_and, beq_iff_eq]
    by_cases hk : c.lexemes.toList[p].kind = .comment
    · rw [if_pos hk, if_pos hk, hnext]
      exact ih (p + 1) (by omega)
    · rw [if_neg hk, if_neg hk, hnext]
      exact Or.inr ⟨_, p + 1, rfl, rfl⟩

/-- The first lexeme that is no comment is read, if there is one. -/
theorem next_content (h : 0 ≤ c.index) :
    (c.content = [] ∧ ∃ d, c.next = .ok (none, d)) ∨
      ∃ l d, c.next = .ok (some l, d) ∧ 0 ≤ d.index ∧ c.content = l :: d.content := by
  by_cases hle : c.index ≤ c.size
  · have hplace : ((c.index.toNat : Nat) : Int) = c.index := Int.toNat_of_nonneg h
    have hf : c.unread + c.index.toNat = c.size := by
      unfold unread
      omega
    rcases c.nextFrom_spoken c.unread c.index.toNat hf with ⟨hs, q, hq⟩ | ⟨l, q, hq, hs⟩
    · rw [hplace] at hq
      exact Or.inl ⟨hs, { c with index := q }, by rw [next, hq]; rfl⟩
    · rw [hplace] at hq
      refine Or.inr ⟨l, { c with index := q }, by rw [next, hq]; rfl, ?_, hs⟩
      exact Int.natCast_nonneg q
  · have hu : c.unread = 0 := by
      unfold unread
      omega
    refine Or.inl ⟨content_eq_nil (by omega), c, ?_⟩
    rw [next, hu]
    rfl

/-- Two cursors in the same stretch of text, with the same left to read but for comments. -/
structure Alike (c d : Cursor) : Prop where
  text : d.text = c.text
  start : d.start = c.start
  stop : d.stop = c.stop
  left : 0 ≤ c.index
  right : 0 ≤ d.index
  content : d.content = c.content

namespace Alike

theorem reads (h : c.Alike d) :
    (c.content = [] ∧ (∃ e, c.next = .ok (none, e)) ∧ ∃ e, d.next = .ok (none, e)) ∨
      ∃ l c' d', c.Reads true l c' ∧ d.Reads true l d' ∧ c'.Alike d' := by
  rcases next_content h.left with ⟨hc, hn⟩ | ⟨l, c', hn, hi, hc⟩
  · rcases next_content h.right with ⟨-, hn'⟩ | ⟨l', d', -, -, hd⟩
    · exact Or.inl ⟨hc, hn, hn'⟩
    · rw [h.content, hc] at hd
      cases hd
  · rcases next_content h.right with ⟨hd, -⟩ | ⟨l', d', hn', hi', hd⟩
    · rw [h.content, hc] at hd
      cases hd
    · rw [h.content, hc] at hd
      obtain ⟨rfl, hcontent⟩ := List.cons_eq_cons.mp hd
      have hr := next_eq_some_iff.mp hn
      have hr' := next_eq_some_iff.mp hn'
      refine Or.inr ⟨l, c', d', hr, hr', ?_, ?_, ?_, hi, hi', hcontent.symm⟩
      · rw [hr'.row.1, hr.row.1, h.text]
      · rw [hr'.row.2.2.1, hr.row.2.2.1, h.start]
      · rw [hr'.row.2.2.2, hr.row.2.2.2, h.stop]

/-- What comes next starts at the same offset. -/
theorem offset (h : c.Alike d) : ∃ o, c.offset = .ok o ∧ d.offset = .ok o := by
  rcases h.reads with ⟨-, ⟨e, he⟩, e', he'⟩ | ⟨l, c', d', hc, hd, -⟩
  · refine ⟨c.stop, ?_, ?_⟩
    · rw [Cursor.offset, he]
      rfl
    · rw [Cursor.offset, he', ← h.stop]
      rfl
  · refine ⟨l.start, ?_, ?_⟩
    · rw [Cursor.offset, next_eq_some_iff.mpr hc]
      rfl
    · rw [Cursor.offset, next_eq_some_iff.mpr hd]
      rfl

end Alike

/-- Two readers that pass comments over have read the same lexemes since they left `a` and `b`. -/
inductive Abreast (a b : Cursor) : Nat → Cursor → Cursor → Prop where
  | start : Abreast a b 0 a b
  | read {n : Nat} {c d c' d' : Cursor} {l : Lexeme} (h : Abreast a b n c d) (hc : c.Reads true l c')
      (hd : d.Reads true l d') : Abreast a b (n + 1) c' d'

namespace Abreast

variable {m n : Nat}

theorem alike (hab : a.Alike b) (h : Abreast a b n c d) : c.Alike d := by
  induction h with
  | start => exact hab
  | read _ hc hd ih =>
    rcases ih.reads with ⟨-, ⟨e, he⟩, -⟩ | ⟨l, c', d', hc', hd', halike⟩
    · rw [next_eq_some_iff.mpr hc] at he
      cases he
    · rw [(hc.unique hc').2, (hd.unique hd').2]
      exact halike

theorem row (h : Abreast a b n c d) : a.SameRow c ∧ b.SameRow d := by
  induction h with
  | start => exact ⟨.refl a, .refl b⟩
  | read _ hc hd ih => exact ⟨ih.1.trans hc.row, ih.2.trans hd.row⟩

theorem unique (h : Abreast a b n c d) : ∀ {c' d'}, Abreast a b n c' d' → c = c' ∧ d = d' := by
  induction h with
  | start =>
    intro c' d' h'
    cases h'
    exact ⟨rfl, rfl⟩
  | read _ hc hd ih =>
    intro c' d' h'
    cases h' with
    | read h' hc' hd' =>
      obtain ⟨rfl, rfl⟩ := ih h'
      exact ⟨(hc.unique hc').2, (hd.unique hd').2⟩

theorem index_lt (h : Abreast a b m c d) (h' : Abreast a b n c' d') (hmn : m < n) :
    c.index < c'.index ∧ d.index < d'.index := by
  induction h' with
  | start => omega
  | @read n c₁ d₁ c' d' l h₁ hc hd ih =>
    have hlt := hc.ahead
    have hlt' := hd.ahead
    rcases Nat.lt_succ_iff_lt_or_eq.mp hmn with hlt₁ | rfl
    · have := ih hlt₁
      omega
    · obtain ⟨rfl, rfl⟩ := h.unique h₁
      exact ⟨hlt, hlt'⟩

/-- **One of the readers stands at a place again just where the other does.** -/
theorem index_eq_iff (h : Abreast a b m c d) (h' : Abreast a b n c' d') :
    c.index = c'.index ↔ d.index = d'.index := by
  rcases lt_trichotomy m n with hlt | rfl | hlt
  · have := h.index_lt h' hlt
    omega
  · obtain ⟨rfl, rfl⟩ := h.unique h'
    exact ⟨fun _ => rfl, fun _ => rfl⟩
  · have := h'.index_lt h hlt
    omega

end Abreast

end Cursor

end Outline
