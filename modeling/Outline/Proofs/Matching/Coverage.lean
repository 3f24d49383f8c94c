import Outline.Proofs.Matching.Advance
import Outline.Proofs.Matching.Derivation

/-!
# The bounds of a match

The bounds that an action is handed are those of what the terminals of its match have read. What matches
without reading adds nothing to them, wherever it stands, and comments that were passed over count
only if they lie between two lexemes that were read.

* `Cursor.Covers`, `Cursor.Bounds`: the stretch of text that was read between two cursors, and the
  bounds of a match that leads from the one to the other;
* `Script.Exact`, `Alternative.Exact`: actions that keep the bounds they are handed, or drop the match;
* `Grammar.Parses.covers`: the stretch of a derivation;
* `Cursor.Ordered`: lexemes that are in order and within the stretch that was cut;
* `Level.Clean`: with such lexemes nothing that is built is malformed;
* `Grammar.Bounded`, **`Level.bounded_match?`**: the bounds of every match are those of what it has read.
-/

namespace Outline

open Engine

/-! ## What was read between two cursors -/

namespace Cursor

variable {c d e : Cursor} {p q : Option (Int × Int)} {ps qs : List Placed}

theorem SameRow.lexemeAt_eq (h : c.SameRow d) (i : Int) : d.lexemeAt i = c.lexemeAt i := by
  unfold lexemeAt
  rw [h.size_eq, h.2.1]

/-- The first lexeme that is read from `c` on: before it there are comments alone. -/
structure First (c : Cursor) (r : Placed) : Prop where
  le : c.index ≤ r.place
  at_place : c.lexemeAt r.place = .ok r.lexeme
  passed : ∀ i, c.index ≤ i → i < r.place → ∃ k, c.lexemeAt i = .ok k ∧ k.kind = .comment

/-- What is read between two cursors covers a stretch of text: none if nothing is read, and otherwise
from the start of the first lexeme that is read to the end of the lexeme before the second cursor. -/
inductive Covers (c : Cursor) : Option (Int × Int) → Cursor → List Placed → Prop where
  | idle : Covers c none c []
  | read {d : Cursor} {r : Placed} {rs : List Placed} {l : Lexeme} (ahead : c.Ahead d)
      (first : c.First r) (lt : r.place < d.index) (last : c.lexemeAt (d.index - 1) = .ok l) :
      Covers c (some (r.lexeme.start, l.stop)) d (r :: rs)

/-- The stretch from the start of one to the end of another, as far as there are any. -/
def span : Option (Int × Int) → Option (Int × Int) → Option (Int × Int)
  | none, q => q
  | some p, none => some p
  | some p, some q => some (p.1, q.2)

theorem Reads.covers {skip : Bool} {l : Lexeme} (h : c.Reads skip l d) :
    c.Covers (some (l.start, l.stop)) d [⟨l, d.index - 1⟩] := by
  have hlt := h.ahead
  have hfirst : c.First ⟨l, d.index - 1⟩ :=
    ⟨Int.le_sub_one_of_lt hlt, h.last, fun i hi hi' => (h.passed i hi hi').2⟩
  exact .read h.toAhead hfirst (Int.sub_one_lt_of_le le_rfl) h.last

theorem Covers.trans (h : c.Covers p d ps) (h' : d.Covers q e qs) :
    c.Covers (span p q) e (ps ++ qs) := by
  cases h with
  | idle => exact h'
  | read ahead first lt last =>
    cases h' with
    | idle =>
      rw [List.append_nil]
      exact .read ahead first lt last
    | read ahead' first' lt' last' =>
      have hle := ahead'.le
      rw [ahead.row.lexemeAt_eq] at last'
      exact .read (ahead.trans ahead') first (by omega) last'

theorem Covers.ahead (h : c.Covers p d ps) : c.Ahead d := by
  cases h with
  | idle => exact .refl c
  | read ahead => exact ahead

/-- The bounds of a match that leads from `c` to `d`. If nothing was read they are both the offset of
`c`; otherwise they are the start of the first lexeme that a terminal has read and the end of the lexeme
before `d`. -/
structure Bounds (c d : Cursor) (rs : List Placed) (start stop : Int) : Prop where
  ahead : c.Ahead d
  idle : d.index = c.index → rs = [] ∧ c.offset = .ok start ∧ c.offset = .ok stop
  first : c.index < d.index → ∃ r ∈ rs.head?, c.First r ∧ r.place < d.index ∧ r.lexeme.start = start
  last : c.index < d.index → ∃ l, c.lexemeAt (d.index - 1) = .ok l ∧ l.stop = stop

theorem Covers.bounds {rs : List Placed} (h : c.Covers p d rs) {offset : Int}
    (ho : c.offset = .ok offset) :
    c.Bounds d rs ((p.map (·.1)).getD offset) ((p.map (·.2)).getD offset) := by
  cases h with
  | idle => exact ⟨.refl c, fun _ => ⟨rfl, ho, ho⟩, fun h => absurd h (lt_irrefl _),
      fun h => absurd h (lt_irrefl _)⟩
  | @read _ r _ l ahead first lt last =>
    refine ⟨ahead, fun hi => ?_, fun _ => ⟨r, rfl, first, lt, rfl⟩, fun _ => ⟨l, last, rfl⟩⟩
    have hle := first.le
    omega

end Cursor

namespace Finding

/-- The stretch that findings cover together. -/
def extent : List Finding → Option (Int × Int)
  | [] => none
  | f :: fs => Cursor.span f.stretch (extent fs)

theorem start_eq (offset : Int) : ∀ fs : List Finding,
    start offset fs = ((extent fs).map (·.1)).getD offset
  | [] => rfl
  | f :: fs => by
    have ih := start_eq offset fs
    unfold start at ih ⊢
    rw [stretches_cons, extent]
    obtain ⟨v, _ | p⟩ := f
    · exact ih
    · cases extent fs <;> rfl

theorem stop_eq : ∀ (offset : Int) (fs : List Finding),
    stop offset fs = ((extent fs).map (·.2)).getD offset
  | _, [] => rfl
  | offset, f :: fs => by
    rw [stop_cons, stop_eq _ fs, extent]
    obtain ⟨v, _ | p⟩ := f
    · rfl
    · cases extent fs <;> rfl

end Finding

/-! ## Actions that keep their bounds -/

/-- The script gives nothing, or a tuple that ends in the two bounds, or it gives up for a reason of its
own. -/
inductive Script.Exact (start stop : Int) : Script Value → Prop where
  | dropped : Exact start stop (.done .none)
  | bounded (items : List Value) : Exact start stop (.done (.tuple (items ++ [.int start, .int stop])))
  | raised {e : Failure} (h : ∀ source value defect, e ≠ .malformed source value defect) :
      Exact start stop (.fail e)

/-- A tuple that ends in two offsets is a construct with those bounds, if they are in order. -/
theorem Construct.ofValue_bounds (items : List Value) (start stop : Int) (bound : Option Int) :
    Construct.ofValue bound (.tuple (items ++ [.int start, .int stop])) =
      Construct.ofBounds items start stop bound := by
  simp [Construct.ofValue]

namespace Alternative

variable {a : Alternative} {values : List Value} {start stop : Int} {v : Value}

/-- The action, if it is a function, drops the match or ends what it makes in the bounds it is
handed. -/
def Exact (a : Alternative) : Prop :=
  ∀ name run, a.action = some ⟨name, .function run⟩ → ∀ values start stop,
    (run values start stop).Exact start stop

theorem Exact.direct (h : a.Exact) : a.Direct := by
  intro name run hn values start stop
  have hx := h name run hn values start stop
  generalize run values start stop = script at hx
  cases hx with
  | dropped => exact .done _
  | bounded items => exact .done _
  | raised => exact .fail _

theorem defaultValue_eq (a : Alternative) (values : List Value) (start stop : Int) :
    ∃ items, a.defaultValue values start stop = .tuple (items ++ [.int start, .int stop]) := by
  unfold defaultValue
  split
  · exact ⟨_, rfl⟩
  · exact ⟨_, rfl⟩

theorem Exact.builds (h : a.Exact) (hv : a.Builds values start stop v) :
    v = .none ∨ ∃ items, v = .tuple (items ++ [.int start, .int stop]) := by
  cases hv with
  | default => exact Or.inr (a.defaultValue_eq values start stop)
  | @action name run _ hn hv =>
    have hx := h name run hn values start stop
    rw [hv] at hx
    cases hx with
    | dropped => exact Or.inl rfl
    | bounded items => exact Or.inr ⟨items, rfl⟩

/-- What an exact action makes has the bounds that it was handed. -/
theorem Exact.bounds_of_verdict (h : a.Exact) (hv : a.Builds values start stop v) {name : String}
    {d : Cursor} {m : Match} (hm : a.verdict name d v = .ok m) :
    ∀ k ∈ m.construct, (k.start : Int) = start ∧ (k.stop : Int) = stop := by
  obtain rfl | ⟨items, rfl⟩ := h.builds hv
  · cases hm
    simp
  · rw [verdict_of_ne (by simp), Construct.ofValue_bounds] at hm
    cases hk : Construct.ofBounds items start stop (some d.text.length) with
    | error defect => rw [hk] at hm; cases hm
    | ok k =>
      rw [hk] at hm
      cases hm
      obtain ⟨-, h1, h2, -⟩ := Construct.ofBounds_eq_ok_iff.mp hk
      rintro k' ⟨⟩
      exact ⟨h1, h2⟩

/-- An exact action is not malformed, if the bounds are in order and within the text. -/
theorem Exact.verdict_ne_error (h : a.Exact) (hv : a.Builds values start stop v)
    (name : String) (d : Cursor) (h0 : 0 ≤ start) (h1 : start ≤ stop) (h2 : stop ≤ d.text.length)
    (e : Failure) : a.verdict name d v ≠ .error e := by
  obtain rfl | ⟨items, rfl⟩ := h.builds hv
  · rintro ⟨⟩
  · rw [verdict_of_ne (by simp), Construct.ofValue_bounds, Construct.ofBounds,
      if_pos ⟨h0, h1, by simpa using h2⟩]
    rintro ⟨⟩

end Alternative

/-! ## The stretch of a derivation -/

namespace Grammar

variable {g : Grammar}

mutual

theorem Parses.covers (hx : ∀ r ∈ g.rules, ∀ a ∈ r.alternatives, a.Exact) {c : Cursor}
    {name : String} {start stop : Int} {m : Match} {rs : List Placed} :
    Parses g c name start stop m rs → ∃ p offset, c.Covers p m.cursor rs ∧
      c.offset = .ok offset ∧ start = (p.map (·.1)).getD offset ∧ stop = (p.map (·.2)).getD offset ∧
      ∀ k ∈ m.construct, (k.start : Int) = start ∧ (k.stop : Int) = stop
  | .rule h ha ho hr hv hm => by
    obtain ⟨rule, hrule, -, rfl⟩ := alternatives?_eq_some h
    have hcovers := hr.covers hx
    rw [Alternative.cursor_of_verdict (congrArg (Except.map some) hm)] at hcovers
    exact ⟨_, _, hcovers, ho, Finding.start_eq _ _, Finding.stop_eq _ _,
      (hx rule hrule _ ha).bounds_of_verdict hv hm⟩

theorem ParsesRow.covers (hx : ∀ r ∈ g.rules, ∀ a ∈ r.alternatives, a.Exact) {c d : Cursor}
    {is : List Item} {fs : List Finding} {rs : List Placed} :
    ParsesRow g c is fs d rs → c.Covers (Finding.extent fs) d rs
  | .nil => .idle
  | .lexeme h _ hr => h.covers.trans (hr.covers hx)
  | .construct h hr => by
    obtain ⟨p, offset, hc, -, hstart, hstop, hk⟩ := h.covers hx
    obtain ⟨hs, he⟩ := hk _ rfl
    refine Cursor.Covers.trans (p := (Finding.ofConstruct _ _ _).stretch) ?_ (hr.covers hx)
    unfold Finding.ofConstruct
    cases hc with
    | idle => simpa using Cursor.Covers.idle
    | read ahead first lt last =>
      have hne := (lt_of_le_of_lt first.le lt).ne'
      rw [if_neg hne, hs, he, hstart, hstop]
      exact .read ahead first lt last

end

end Grammar

/-! ## Lexemes in order -/

namespace Cursor

variable {c d : Cursor}

/-- The lexemes that are left to read are in order, none reaches into another, and all lie within the
stretch that was cut, which the text has. -/
structure Ordered (c : Cursor) : Prop where
  start_le : c.start ≤ c.stop
  stop_le : c.stop ≤ c.text.length
  within : ∀ i l, c.index ≤ i → c.lexemeAt i = .ok l →
    (c.start : Int) ≤ l.start ∧ l.start ≤ l.stop ∧ l.stop ≤ c.stop
  apart : ∀ i j k l, c.index ≤ i → i < j → c.lexemeAt i = .ok k → c.lexemeAt j = .ok l →
    k.stop ≤ l.start

theorem getElem_of_lexemeAt {i : Int} {l : Lexeme} (hi : 0 ≤ i) (h : c.lexemeAt i = .ok l) :
    ∃ hi : i.toNat < c.lexemes.toList.length, c.lexemes.toList[i.toNat] = l := by
  unfold lexemeAt at h
  simp only at h
  rw [if_neg (by omega : ¬ i < 0), if_neg (by omega : ¬ i < 0)] at h
  cases hg : c.lexemes[i.toNat]? with
  | none => rw [hg] at h; cases h
  | some k =>
    rw [hg] at h
    cases h
    exact Array.getElem?_eq_some_iff.mp hg

/-- For a place that is not below zero this is the order of the row. -/
theorem ordered_of_pairwise (hi : 0 ≤ c.index) (h1 : c.start ≤ c.stop) (h2 : c.stop ≤ c.text.length)
    (hw : ∀ l ∈ c.lexemes.toList, (c.start : Int) ≤ l.start ∧ l.start ≤ l.stop ∧ l.stop ≤ c.stop)
    (hp : c.lexemes.toList.Pairwise (·.stop ≤ ·.start)) : c.Ordered := by
  refine ⟨h1, h2, fun i l hle hl => ?_, fun i j k l hle hij hk hl => ?_⟩
  · obtain ⟨h, rfl⟩ := getElem_of_lexemeAt (by omega) hl
    exact hw _ (List.getElem_mem h)
  · obtain ⟨h, rfl⟩ := getElem_of_lexemeAt (by omega) hk
    obtain ⟨h', rfl⟩ := getElem_of_lexemeAt (by omega) hl
    exact List.pairwise_iff_getElem.mp hp _ _ h h' (by omega)

theorem Ordered.ahead (h : c.Ordered) (hd : c.Ahead d) : d.Ordered := by
  obtain ⟨ht, hls, hs, he⟩ := hd.row
  have hle := hd.le
  refine ⟨by rw [hs, he]; exact h.start_le, by rw [he, ht]; exact h.stop_le, fun i l hi hl => ?_,
    fun i j k l hi hij hk hl => ?_⟩
  · rw [hd.row.lexemeAt_eq] at hl
    rw [hs, he]
    exact h.within i l (by omega) hl
  · rw [hd.row.lexemeAt_eq] at hk hl
    exact h.apart i j k l (by omega) hij hk hl

theorem Ordered.offset_within (h : c.Ordered) {o : Int} (ho : c.offset = .ok o) :
    (c.start : Int) ≤ o ∧ o ≤ c.stop := by
  have hle := h.start_le
  unfold offset at ho
  cases hn : c.next with
  | error e => rw [hn] at ho; cases ho
  | ok r =>
    rw [hn] at ho
    obtain ⟨_ | l, d⟩ := r
    · cases ho
      simp only
      omega
    · cases ho
      have hr := next_eq_some_iff.mp hn
      have hlt := hr.ahead
      have hw := h.within _ l (by omega) hr.last
      simp only
      omega

/-- The bounds of a match are in order and lie within the stretch that was cut. -/
theorem Ordered.bounds_within (h : c.Ordered) {rs : List Placed} {start stop : Int}
    (hb : c.Bounds d rs start stop) :
    (c.start : Int) ≤ start ∧ start ≤ stop ∧ stop ≤ c.stop := by
  have hle := hb.ahead.le
  by_cases hi : d.index = c.index
  · obtain ⟨-, h1, h2⟩ := hb.idle hi
    obtain ⟨h3, h4⟩ := h.offset_within h1
    rw [h1] at h2
    cases h2
    omega
  · obtain ⟨r, -, hr, hlt, rfl⟩ := hb.first (by omega)
    obtain ⟨l, hl, rfl⟩ := hb.last (by omega)
    have hrle := hr.le
    have hwr := h.within _ _ hrle hr.at_place
    have hwl := h.within _ l (by omega) hl
    by_cases hp : r.place = d.index - 1
    · rw [← hp, hr.at_place] at hl
      cases hl
      exact hwr
    · have hap := h.apart _ _ _ l hrle (by omega) hr.at_place hl
      omega

end Cursor

/-! ## Nothing is malformed -/

namespace Level

variable {below : Level} {c : Settings}

/-- Where the lexemes are in order, the level does not complain about what an action made. -/
def Clean (below : Level) (c : Settings) : Prop :=
  ∀ (cursor : Cursor) (name : String) (s : State), cursor.Ordered → ∀ source value defect,
    (below.match? cursor name c s).1 ≠ .error (.malformed source value defect)

theorem clean_items (ha : below.Advances c) (hb : below.Clean c) : ∀ (is : List Item)
    {k : Collected} {s s' : State} {e : Failure}, k.cursor.Ordered →
      below.matchItems is k c s = (.error e, s') →
      ∀ source value defect, e ≠ .malformed source value defect
  | [], _, _, _, _, _, h => by cases h
  | i :: is, k, s, s', e, ho, h => by
    obtain ⟨e', he, hr⟩ | ⟨-, hr⟩ | ⟨k', s₁, he, h⟩ := matchItems_cons below c h
    · cases hr
      rintro source value defect rfl
      cases he with
      | @raised name _ _ hm => exact hb k.cursor name s ho source value defect (by rw [hm])
    · cases hr
    · exact clean_items ha hb is (ho.ahead (moves_item ha he).ahead) h

theorem clean_runAction {a : Alternative} (hx : a.Exact) {values : List Value} {start stop : Int}
    {s s' : State} {e : Failure} (h : below.runAction a values start stop c s = (.error e, s')) :
    ∀ source value defect, e ≠ .malformed source value defect := by
  unfold runAction at h
  cases hn : a.action with
  | none => rw [hn] at h; cases h
  | some named =>
    rw [hn] at h
    obtain ⟨label, run | type⟩ := named
    · have hm := hx label run hn values start stop
      simp only at h
      generalize run values start stop = script at h hm
      cases hm with
      | dropped => cases h
      | bounded => cases h
      | raised he => cases h; exact he
    · cases h
      rintro source value defect ⟨⟩

theorem clean_alternative (hx : ∀ r ∈ c.grammar.rules, ∀ a ∈ r.alternatives, a.Exact)
    (ha : below.Advances c) (hp : below.Parsing c) (hb : below.Clean c) {cursor : Cursor}
    (ho : cursor.Ordered) {name : String} {a : Alternative} (hxa : a.Exact) {s s' : State}
    {e : Failure} (h : AlternativeAttempt below c cursor name a s (.error e) s') :
    ∀ source value defect, e ≠ .malformed source value defect := by
  generalize hr : Except.error e = r at h
  cases h with
  | aborted => cases hr; rintro source value defect ⟨⟩
  | lost => cases hr; rintro source value defect ⟨⟩
  | raised _ h =>
    cases hr
    exact clean_items ha hb a.items ho h
  | noMatch => cases hr
  | @built offset k r s₁ _ hoff h hk =>
    obtain ⟨v, hrun, rfl⟩ | ⟨e', he, rfl⟩ := build_cases below c hk
    · -- what is built has the bounds of the row, and these are in order
      obtain ⟨fs, d, rs, hrow, rfl⟩ := parses_items hp a.items h
      obtain ⟨hstart, hstop⟩ := Collected.span_addAll offset cursor d fs
      have hbounds := ho.bounds_within ((hrow.covers hx).bounds hoff)
      rw [← Finding.start_eq, ← Finding.stop_eq] at hbounds
      have hv := builds_of_runAction hxa.direct hrun
      rw [hstart, hstop] at hv
      have hlen := ho.stop_le
      rw [← (hrow.covers hx).ahead.row.1] at hlen
      have hne := hxa.verdict_ne_error hv name d (by omega) hbounds.2.1 (by omega) e
      change _ = Except.map some (a.verdict name d v) at hr
      cases hd : a.verdict name d v with
      | ok m => rw [hd] at hr; cases hr
      | error e' => rw [hd] at hr hne; cases hr; exact absurd rfl hne
    · cases hr
      exact clean_runAction hxa he

theorem clean_alternatives (hx : ∀ r ∈ c.grammar.rules, ∀ a ∈ r.alternatives, a.Exact)
    (ha : below.Advances c) (hp : below.Parsing c) (hb : below.Clean c) {cursor : Cursor}
    (ho : cursor.Ordered) {name : String} : ∀ (as : List Alternative) (number : Nat) {s s' : State}
    {e : Failure}, (∀ a ∈ as, a.Exact) →
      below.tryAlternatives cursor name number as c s = (.error e, s') →
      ∀ source value defect, e ≠ .malformed source value defect
  | [], _, _, _, _, _, h => by cases h
  | a :: as, number, s, s', e, hxa, h => by
    obtain ⟨e', he, hr⟩ | ⟨m, s₁, -, hr, -⟩ | ⟨s₁, -, h⟩ := tryAlternatives_cons below c h
    · cases hr
      exact clean_alternative hx ha hp hb ho (hxa a List.mem_cons_self) he
    · cases hr
    · exact clean_alternatives hx ha hp hb ho as (number + 1)
        (fun a h => hxa a (List.mem_cons_of_mem _ h)) h

theorem clean_above (hx : ∀ r ∈ c.grammar.rules, ∀ a ∈ r.alternatives, a.Exact)
    (ha : below.Advances c) (hp : below.Parsing c) (hb : below.Clean c) : below.above.Clean c := by
  intro cursor name s ho source value defect h
  change (below.matchRule cursor name c s).1 = _ at h
  cases hr : below.matchRule cursor name c s with
  | mk r s' =>
    rw [hr] at h
    change r = _ at h
    subst h
    generalize he : Except.error (Failure.malformed source value defect) = r at hr
    cases ruleAttempt below c cursor name hr with
    | undefined => cases he
    | again => cases he
    | tooDeep _ _ _ hd =>
      obtain ⟨offset, -, rfl⟩ | ⟨f, -, rfl⟩ := hd <;> cases he
    | @entered as _ s₁ has _ _ hrun =>
      obtain ⟨rule, hrule, -, rfl⟩ := Grammar.alternatives?_eq_some has
      subst he
      exact clean_alternatives hx ha hp hb ho rule.alternatives 0 (hx rule hrule) hrun _ _ _ rfl

/-- **With exact actions and lexemes in order nothing that is built is malformed.** -/
theorem clean (hx : ∀ r ∈ c.grammar.rules, ∀ a ∈ r.alternatives, a.Exact) :
    ∀ room, (level room).Clean c
  | 0 => by
    intro cursor name s _ source value defect h
    cases h
  | room + 1 => clean_above hx (advances c room)
      (parsing (fun r hr a ha => (hx r hr a ha).direct) room) (clean hx room)

end Level

/-! ## The bounds of every match -/

/-- What a match of the rule `name` at a cursor says about bounds: a match has a derivation, the action
of every derivation of it was handed the bounds of what its terminals have read, what was built has
those bounds, and nothing is malformed. -/
structure Grammar.Bounded (g : Grammar) (cursor : Cursor) (name : String)
    (r : Except Failure (Option Match)) : Prop where
  parses : ∀ m, r = .ok (some m) → ∃ start stop rs, g.Parses cursor name start stop m rs
  bounds : ∀ m, r = .ok (some m) → ∀ start stop rs, g.Parses cursor name start stop m rs →
    cursor.Bounds m.cursor rs start stop ∧
      ∀ k ∈ m.construct, (k.start : Int) = start ∧ (k.stop : Int) = stop
  clean : ∀ source value defect, r ≠ .error (.malformed source value defect)

/-- **The bounds of every match are those of what it has read**, be it the match of a matcher or one that
a level finds on the way, for a nested rule or for an alternative that is given up later. -/
theorem Level.bounded_match? {g : Grammar} (hx : ∀ r ∈ g.rules, ∀ a ∈ r.alternatives, a.Exact)
    (room : Nat) {cursor : Cursor} (ho : cursor.Ordered) (name : String) :
    (∀ c s, c.grammar = g → g.Bounded cursor name ((level room).match? cursor name c s).1) ∧
      ∀ m : Matcher, m.grammar = g → g.Bounded cursor name (m.match? cursor name room).1 := by
  have hlevel : ∀ c s, c.grammar = g →
      g.Bounded cursor name ((level room).match? cursor name c s).1 := by
    rintro c s rfl
    refine ⟨fun m hm => Level.parsing (fun r hr a ha => (hx r hr a ha).direct) room _ _ _ _ hm,
      fun m _ start stop rs hp => ?_, Level.clean hx room _ _ _ ho⟩
    obtain ⟨p, offset, hc, hoff, rfl, rfl, hk⟩ := hp.covers hx
    exact ⟨hc.bounds hoff, hk⟩
  refine ⟨hlevel, ?_⟩
  rintro m rfl
  have h := hlevel { grammar := m.grammar, limits := m.limits } { run := m.run } rfl
  cases hr : Matching.guarded (level room).match? cursor name
      { grammar := m.grammar, limits := m.limits } { run := m.run } with
  | mk r s' =>
    rw [Matcher.match?, hr]
    obtain ⟨-, heq⟩ | ⟨-, e, rfl, he⟩ := Level.guarded_run _ _ cursor name hr
    · rwa [heq] at h
    · refine ⟨fun m hm => (nomatch hm), fun m hm => (nomatch hm), ?_⟩
      obtain ⟨limit, offset, rfl⟩ | ⟨f, rfl⟩ := he
      · rintro source value defect ⟨⟩
      · rintro source value defect ⟨⟩

/-! ## Rules that read nothing around rules that read -/

/-- Two symbols, with a rule that reads nothing before, between and behind them. -/
def Grammar.gapped : Grammar := .ofRules
  [⟨"toplevel", [{ items := [.rule "gap", .terminal ⟨.symbol, none⟩, .rule "gap",
      .terminal ⟨.symbol, none⟩, .rule "gap"] }]⟩, ⟨"gap", [{}]⟩]

/-- The start of a row of two symbols, with a comment before, between and behind them. -/
def Cursor.commented : Cursor where
  text := .ofString "/**/a/**/b/**/"
  lexemes := #[⟨.comment, 0, 4⟩, ⟨.symbol, 4, 5⟩, ⟨.comment, 5, 9⟩, ⟨.symbol, 9, 10⟩,
    ⟨.comment, 10, 14⟩]
  start := 0
  stop := 14

theorem Grammar.exact_gapped : ∀ r ∈ gapped.rules, ∀ a ∈ r.alternatives, a.Exact := by
  intro r hr a ha name run hn
  have hnone : ∀ r ∈ gapped.rules, ∀ a ∈ r.alternatives, a.action.isNone := by decide
  have := hnone r hr a ha
  rw [hn] at this
  cases this

theorem Cursor.ordered_commented : commented.Ordered :=
  ordered_of_pairwise (by decide) (by decide) (by decide) (by decide) (by decide)

/-- The two symbols bound the match; neither the rules around them nor the comments stretch it. -/
theorem Matcher.bounds_gapped : ∃ m rs,
    (({ grammar := .gapped } : Matcher).match? .commented "toplevel" 3).1 = .ok (some m) ∧
      Grammar.gapped.Parses .commented "toplevel" 4 10 m rs ∧
      Cursor.commented.Bounds m.cursor rs 4 10 ∧ m.cursor.index = 4 := by
  have h := (Level.bounded_match? Grammar.exact_gapped 3 Cursor.ordered_commented "toplevel").2
    { grammar := .gapped } rfl
  have hrun : ((({ grammar := .gapped } : Matcher).match? .commented "toplevel" 3).1.toOption.bind id).map
      (fun m => (m.cursor.index, m.construct.map fun k => (k.start, k.stop))) = some (4, some (4, 10)) := by
    decide +kernel
  cases hr : (({ grammar := .gapped } : Matcher).match? .commented "toplevel" 3).1 with
  | error e => rw [hr] at hrun; cases hrun
  | ok m =>
    rw [hr] at hrun
    obtain _ | ⟨cursor, _ | k⟩ := m
    · cases hrun
    · simp [Except.toOption] at hrun
    · simp only [Except.toOption, Option.bind_some, id_eq, Option.map_some, Option.some.injEq,
        Prod.mk.injEq] at hrun
      obtain ⟨hi, h4, h10⟩ := hrun
      obtain ⟨start, stop, rs, hp⟩ := h.parses _ hr
      obtain ⟨hb, hc⟩ := h.bounds _ hr start stop rs hp
      obtain ⟨rfl, rfl⟩ : start = 4 ∧ stop = 10 := by
        have := hc k rfl
        omega
      exact ⟨_, rs, rfl, hp, hb, hi⟩

end Outline
