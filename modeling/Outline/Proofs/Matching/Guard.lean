import Outline.Proofs.Grammar.WellFormed
import Outline.Proofs.Matching.Attempt
import Outline.Proofs.Matching.OrderedChoice

/-!
# The guards of a matcher are transparent

A matcher finds what the grammar means. It refuses to enter a rule again at the place where the rule
is in progress, and that happens only where the grammar means nothing: the rules in progress are a
chain of calls, and one that comes back has no end.

* `Grammar.Within`, `Grammar.entries`: the rule matches that can come up are
  finitely many;
* `Grammar.Context`: the rules in progress are different, and each leads to the rule that is next;
* `Grammar.Settles`, `Level.settles`: a run finds the meaning, or a loop;
* **`Matcher.match?_eq_iff_matches`**: matching and meaning agree, and left recursion is reported just
  where there is no meaning.
-/

namespace Outline

open Relation

/-! ## The goals that can come up -/

/-- The rule match of a goal. -/
def Goal.entry (p : Goal) : Entry := p.cursor.entry p.rule

namespace Grammar

variable {g : Grammar} {row : Cursor} {p q : Goal}

theorem ItemCalls.ahead {c : Cursor} {is : List Item} (h : ItemCalls g c is q) :
    c.Ahead q.cursor := by
  induction h with
  | here => exact .refl _
  | later h _ ih => exact h.ahead.trans ih

theorem ItemCalls.mem {c : Cursor} {is : List Item} (h : ItemCalls g c is q) :
    .rule q.rule ∈ is := by
  induction h with
  | here => exact List.mem_cons_self
  | later _ _ ih => exact List.mem_cons_of_mem _ ih

theorem ChoiceCalls.exists_mem {c : Cursor} {as : List Alternative} (h : ChoiceCalls g c as q) :
    ∃ a ∈ as, ItemCalls g c a.items q := by
  induction h with
  | here h => exact ⟨_, List.mem_cons_self, h⟩
  | later _ _ ih =>
    obtain ⟨a, ha, h⟩ := ih
    exact ⟨a, List.mem_cons_of_mem _ ha, h⟩

/-- The goal can come up when matching starts at `row`. -/
structure Within (g : Grammar) (row : Cursor) (p : Goal) : Prop where
  ahead : row.Ahead p.cursor
  defined : p.rule ∈ g.names

theorem Within.calls (hg : g.Closed) (h : g.Within row p) (hq : g.Calls p q) : g.Within row q := by
  obtain ⟨-, as, has, hc⟩ := hq
  obtain ⟨r, hr, -, rfl⟩ := alternatives?_eq_some has
  obtain ⟨a, ha, hi⟩ := hc.exists_mem
  exact ⟨h.ahead.trans hi.ahead, hg _ (mem_mentioned hr ha hi.mem)⟩

/-- The rule matches that can come up: one for each rule and each place that is left to read, the end
included. -/
def entries (g : Grammar) (row : Cursor) : List Entry :=
  g.names.flatMap fun name => (List.range (row.unread + 1)).map fun (k : Nat) =>
    ⟨name, row.start, row.stop, row.index + k⟩

theorem length_entries : (g.entries row).length = g.rules.length * (row.unread + 1) := by
  simp [entries, names, List.length_flatMap, Function.comp_def]

theorem Within.entry_mem (h : g.Within row p) : p.entry ∈ g.entries row := by
  have h1 := h.ahead.le
  have h2 := h.ahead.inside
  refine List.mem_flatMap.mpr ⟨p.rule, h.defined, List.mem_map.mpr
    ⟨(p.cursor.index - row.index).toNat, ?_, ?_⟩⟩
  · rw [List.mem_range]
    unfold Cursor.unread
    omega
  · obtain ⟨-, -, h3, h4⟩ := h.ahead.row
    rw [Goal.entry, Cursor.entry, h3, h4, show row.index +
      ((p.cursor.index - row.index).toNat : Int) = p.cursor.index by omega]

theorem Within.eq_of_entry (hp : g.Within row p) (hq : g.Within row q) (h : q.entry = p.entry) :
    q = p := by
  obtain ⟨c, name⟩ := p
  obtain ⟨d, name'⟩ := q
  have hn : name' = name := congrArg Entry.rule h
  have hi : d.index = c.index := congrArg Entry.index h
  have hd : d = c := (hp.ahead.row.symm.trans hq.ahead.row).eq hi
  rw [hn, hd]

/-! ## The rules in progress -/

/-- The state in which a goal comes up: the rules in progress are different and each leads to it. -/
structure Context (g : Grammar) (row : Cursor) (nesting : Nat × List Entry) (p : Goal) : Prop where
  within : g.Within row p
  depth : nesting.1 = nesting.2.length
  nodup : nesting.2.Nodup
  leads : ∀ e ∈ nesting.2, ∃ q, g.Within row q ∧ e = q.entry ∧ TransGen g.Calls q p

namespace Context

variable {n : Nat × List Entry}

theorem subset_entries (h : g.Context row n p) : n.2 ⊆ g.entries row := fun e he => by
  obtain ⟨q, hq, rfl, -⟩ := h.leads e he
  exact hq.entry_mem

theorem depth_le (h : g.Context row n p) : n.1 ≤ g.rules.length * (row.unread + 1) := by
  have hl := (List.subperm_of_subset h.nodup h.subset_entries).length_le
  rwa [length_entries, ← h.depth] at hl

/-- A goal that is not in progress leaves room below the number of all that can come up. -/
theorem depth_lt (h : g.Context row n p) (hp : p.entry ∉ n.2) :
    n.1 < g.rules.length * (row.unread + 1) := by
  have hs : p.entry :: n.2 ⊆ g.entries row :=
    List.cons_subset.mpr ⟨h.within.entry_mem, h.subset_entries⟩
  have hl := (List.subperm_of_subset (List.nodup_cons.mpr ⟨hp, h.nodup⟩) hs).length_le
  rw [List.length_cons, length_entries, ← h.depth] at hl
  omega

theorem cycle (h : g.Context row n p) (hp : p.entry ∈ n.2) : TransGen g.Calls p p := by
  obtain ⟨q, hq, he, hqp⟩ := h.leads _ hp
  rwa [h.within.eq_of_entry hq he.symm] at hqp

theorem calls (hg : g.Closed) (h : g.Context row n p) (hp : p.entry ∉ n.2) (hq : g.Calls p q) :
    g.Context row (n.1 + 1, p.entry :: n.2) q where
  within := h.within.calls hg hq
  depth := congrArg (· + 1) h.depth
  nodup := List.nodup_cons.mpr ⟨hp, h.nodup⟩
  leads e he := by
    obtain rfl | he := List.mem_cons.mp he
    · exact ⟨p, h.within, rfl, .single hq⟩
    · obtain ⟨x, hx, rfl, hxp⟩ := h.leads e he
      exact ⟨x, hx, rfl, hxp.tail hq⟩

end Context

/-! ## Runs -/

/-- The result of a run for a goal: what the goal comes to, or a report of a loop. -/
def Settles (g : Grammar) (p : Goal) (r : Except Failure (Option Match)) : Prop :=
  g.Matches p.cursor p.rule r ∨ ∃ x, r = .error (.leftRecursion x.rule) ∧ g.Loops p x

/-- The result of a run for alternatives of the rule `name`. -/
def ChoiceSettles (g : Grammar) (c : Cursor) (name : String) (as : List Alternative)
    (r : Except Failure (Option Match)) : Prop :=
  g.Chooses c name as r ∨ c.InRow ∧
    ∃ q x, r = .error (.leftRecursion x.rule) ∧ g.ChoiceCalls c as q ∧ g.Loops q x

/-- The result of a run for an item behind `k`. -/
inductive ItemSettles (g : Grammar) (k : Collected) (i : Item) :
    Except Failure (Option Collected) → Prop where
  | takes {f : Finding} {d : Cursor} (h : g.Takes k.cursor i f d) :
      ItemSettles g k i (.ok (some (k.add f d)))
  | refuses (h : g.Refuses k.cursor i none) : ItemSettles g k i (.ok none)
  | raises {e : Failure} (h : g.Refuses k.cursor i (some e)) : ItemSettles g k i (.error e)
  | loops {name : String} {x : Goal} (hi : i = .rule name) (h : g.Loops ⟨k.cursor, name⟩ x) :
      ItemSettles g k i (.error (.leftRecursion x.rule))

/-- The result of a run for items behind `k`. -/
inductive ItemsSettle (g : Grammar) (k : Collected) (is : List Item) :
    Except Failure (Option Collected) → Prop where
  | fits {fs : List Finding} {d : Cursor} (h : g.Fits k.cursor is fs d) :
      ItemsSettle g k is (.ok (some (k.addAll fs d)))
  | breaks (h : g.Breaks k.cursor is none) : ItemsSettle g k is (.ok none)
  | raises {e : Failure} (h : g.Breaks k.cursor is (some e)) : ItemsSettle g k is (.error e)
  | loops {q x : Goal} (hq : g.ItemCalls k.cursor is q) (h : g.Loops q x) :
      ItemsSettle g k is (.error (.leftRecursion x.rule))

theorem ItemsSettle.cons {k : Collected} {i : Item} {is : List Item} {f : Finding} {d : Cursor}
    {r : Except Failure (Option Collected)} (hi : g.Takes k.cursor i f d)
    (h : g.ItemsSettle (k.add f d) is r) : g.ItemsSettle k (i :: is) r := by
  cases h with
  | fits h =>
    rw [Collected.addAll_cons]
    exact .fits (.cons hi h)
  | breaks h => exact .breaks (.later hi h)
  | raises h => exact .raises (.later hi h)
  | loops hq h => exact .loops (.later hi hq) h

end Grammar

namespace Level

variable {c : Settings} {below : Level} {row : Cursor} {room : Nat}

/-- The level settles all goals that come up within the room that is left. -/
def Settling (below : Level) (c : Settings) (row : Cursor) (room : Nat) : Prop :=
  ∀ p s, c.grammar.Context row s.run.nesting p →
    c.grammar.rules.length * (row.unread + 1) < room + s.run.depth →
      c.grammar.Settles p (below.match? p.cursor p.rule c s).1

theorem settles_item (hset : below.Settling c row room) {k : Collected} {i : Item} {s s' : State}
    {r : Except Failure (Option Collected)} (hk : k.cursor.InRow)
    (hctx : ∀ name, i = .rule name → c.grammar.Context row s.run.nesting ⟨k.cursor, name⟩)
    (hroom : c.grammar.rules.length * (row.unread + 1) < room + s.run.depth)
    (h : ItemAttempt below c k s i r s') : c.grammar.ItemSettles k i r := by
  -- what the level below found for the rule `name`
  have hsettle : ∀ name m s', i = .rule name → below.match? k.cursor name c s = (m, s') →
      c.grammar.Settles ⟨k.cursor, name⟩ m := fun name m s' hi hm => by
    have := hset ⟨k.cursor, name⟩ s (hctx name hi) hroom
    rwa [hm] at this
  cases h with
  | raised hm =>
    obtain h | ⟨x, he, h⟩ := hsettle _ _ _ rfl hm
    · exact .raises (.raised h)
    · cases he
      exact .loops rfl h
  | noMatch hm =>
    obtain h | ⟨x, he, -⟩ := hsettle _ _ _ rfl hm
    · exact .refuses (.noMatch h)
    · cases he
  | dropped hm =>
    obtain h | ⟨x, he, -⟩ := hsettle _ _ _ rfl hm
    · exact .refuses (.dropped h)
    · cases he
  | construct hm =>
    obtain h | ⟨x, he, -⟩ := hsettle _ _ _ rfl hm
    · rw [Collected.addConstruct_eq]
      exact .takes (.construct h)
    · cases he
  | lost hn =>
    obtain ⟨r, hr⟩ := Cursor.next_inRow hk _
    rw [hn] at hr
    cases hr
  | atEnd hn =>
    refine .refuses (.mismatch fun l d hl => ?_)
    rw [Cursor.next_eq_some_iff.mpr hl] at hn
    cases hn
  | mismatch hn hl =>
    rw [(Cursor.next_cursor hn).1] at hl
    rw [Cursor.next_eq_some_iff] at hn
    refine .refuses (.mismatch fun l d hd => ?_)
    obtain ⟨rfl, rfl⟩ := hn.unique hd
    exact hl
  | lexeme hn hl =>
    have ht := (Cursor.next_cursor hn).1
    rw [Collected.addLexeme_eq, ht]
    rw [ht] at hl
    exact .takes (.lexeme (Cursor.next_eq_some_iff.mp hn) hl)

theorem settles_items (hb : below.Steady) (hset : below.Settling c row room) :
    ∀ (is : List Item) (k : Collected) {s s' : State} {r : Except Failure (Option Collected)},
      k.cursor.InRow →
      (∀ q, c.grammar.ItemCalls k.cursor is q → c.grammar.Context row s.run.nesting q) →
      c.grammar.rules.length * (row.unread + 1) < room + s.run.depth →
      below.matchItems is k c s = (r, s') → c.grammar.ItemsSettle k is r
  | [], k, s, s', r, _, _, _, h => by
    cases h
    have := Grammar.ItemsSettle.fits (g := c.grammar) (k := k) .nil
    rwa [Collected.addAll_nil] at this
  | i :: is, k, s, s', r, hk, hctx, hroom, h => by
    have hi : ∀ name, i = .rule name → c.grammar.Context row s.run.nesting ⟨k.cursor, name⟩ := by
      rintro name rfl
      exact hctx _ .here
    obtain ⟨e, he, rfl⟩ | ⟨he, rfl⟩ | ⟨k', s₁, he, h⟩ := matchItems_cons below c h
    · cases settles_item hset hk hi hroom he with
      | raises h => exact .raises (.here h)
      | loops hi hl => subst hi; exact .loops .here hl
    · cases settles_item hset hk hi hroom he with
      | refuses h => exact .breaks (.here h)
    · have hn : s₁.run.nesting = s.run.nesting := he.steady hb
      cases settles_item hset hk hi hroom he with
      | @takes f d ht =>
        refine .cons ht (settles_items hb hset is (k.add f d) (ht.ahead.inRow hk)
          (fun q hq => ?_) ?_ h)
        · rw [hn]
          exact hctx q (.later ht hq)
        · rwa [show s₁.run.depth = s.run.depth from congrArg Prod.fst hn]

variable (c below) in
theorem runAction_pure {a : Alternative} (ha : a.Pure) (values : List Value) (start stop : Int)
    (s : State) : ∃ v, a.Builds values start stop v ∧
      below.runAction a values start stop c s = (.ok v, s) := by
  cases hn : a.action with
  | none => exact ⟨_, .default hn, by rw [runAction, hn]; rfl⟩
  | some named =>
    obtain ⟨f, hf⟩ := ha named hn
    obtain ⟨label, action⟩ := named
    cases hf
    exact ⟨_, .action hn rfl, by rw [runAction, hn]; rfl⟩

theorem settles_alternative (hb : below.Steady) (hset : below.Settling c row room)
    (hmax : c.limits.maxSteps = none) {a : Alternative} (ha : a.Pure) {cursor : Cursor}
    {name : String} {s s' : State} {r : Except Failure (Option Match)}
    (hctx : cursor.InRow →
      ∀ q, c.grammar.ItemCalls cursor a.items q → c.grammar.Context row s.run.nesting q)
    (hroom : c.grammar.rules.length * (row.unread + 1) < room + s.run.depth)
    (h : AlternativeAttempt below c cursor name a s r s') :
    (r = .ok none ∧ cursor.InRow ∧ c.grammar.Breaks cursor a.items none) ∨
      (r ≠ .ok none ∧ ∀ as, c.grammar.Chooses cursor name (a :: as) r) ∨
      cursor.InRow ∧ ∃ q x, r = .error (.leftRecursion x.rule) ∧
        c.grammar.ItemCalls cursor a.items q ∧ c.grammar.Loops q x := by
  -- what is behind the items, once the place is known
  have hsettle : ∀ offset m s', cursor.offset = .ok offset →
      below.matchItems a.items { stop := offset, cursor } c s.tally = (m, s') →
      c.grammar.ItemsSettle { stop := offset, cursor } a.items m := fun offset m s' ho hm =>
    settles_items hb hset a.items { stop := offset, cursor } (s := s.tally)
      (Cursor.offset_eq_ok_iff.mp ⟨offset, ho⟩)
      (hctx (Cursor.offset_eq_ok_iff.mp ⟨offset, ho⟩)) hroom hm
  cases h with
  | aborted h =>
    rw [hmax] at h
    cases h
  | lost ho => exact Or.inr (Or.inl ⟨by simp, fun _ => .lost ho⟩)
  | raised ho h =>
    have hc := Cursor.offset_eq_ok_iff.mp ⟨_, ho⟩
    cases hsettle _ _ _ ho h with
    | raises h => exact Or.inr (Or.inl ⟨by simp, fun _ => .raised hc h⟩)
    | loops hq hl => exact Or.inr (Or.inr ⟨hc, _, _, rfl, hq, hl⟩)
  | noMatch ho h =>
    cases hsettle _ _ _ ho h with
    | breaks h => exact Or.inl ⟨rfl, Cursor.offset_eq_ok_iff.mp ⟨_, ho⟩, h⟩
  | @built offset k r s₁ s' ho h hk =>
    generalize hm : (Except.ok (some k) : Except Failure (Option Collected)) = m at h
    cases hsettle _ _ _ ho h <;> cases hm
    rename_i fs d hf
    obtain ⟨v, hv, hrun⟩ := runAction_pure c below ha
      (valuesOf a (({ stop := offset, cursor } : Collected).addAll fs d))
      (Finding.start offset fs) (Finding.stop offset fs) s₁
    obtain ⟨hstart, hstop⟩ := Collected.span_addAll offset cursor d fs
    rw [hstart, hstop, build_run hrun] at hk
    cases hk
    rw [valuesOf, Collected.values_addAll] at hv
    refine Or.inr (Or.inl ⟨?_, fun _ => .first ho hf hv rfl⟩)
    generalize a.verdict name _ v = w
    cases w <;> simp [Except.map]

theorem settles_alternatives (hb : below.Steady) (hset : below.Settling c row room)
    (hmax : c.limits.maxSteps = none) {cursor : Cursor} {name : String} :
    ∀ (as : List Alternative) (number : Nat) {s s' : State} {r : Except Failure (Option Match)},
      (∀ a ∈ as, a.Pure) →
      (cursor.InRow →
        ∀ q, c.grammar.ChoiceCalls cursor as q → c.grammar.Context row s.run.nesting q) →
      c.grammar.rules.length * (row.unread + 1) < room + s.run.depth →
      below.tryAlternatives cursor name number as c s = (r, s') →
      c.grammar.ChoiceSettles cursor name as r
  | [], _, s, s', r, _, _, _, h => by
    cases h
    exact Or.inl .none
  | a :: as, number, s, s', r, hpure, hctx, hroom, h => by
    have hp := hpure a List.mem_cons_self
    have hi := fun hc q hq => hctx hc q (.here hq)
    obtain ⟨e, he, rfl⟩ | ⟨m, s₁, he, rfl, -⟩ | ⟨s₁, he, h⟩ := tryAlternatives_cons below c h
    · obtain ⟨hr, -⟩ | ⟨-, hr⟩ | ⟨hc, q, x, hr, hq, hx⟩ :=
        settles_alternative hb hset hmax hp hi hroom he
      · cases hr
      · exact Or.inl (hr as)
      · exact Or.inr ⟨hc, q, x, hr, .here hq, hx⟩
    · obtain ⟨hr, -⟩ | ⟨-, hr⟩ | ⟨-, q, x, hr, -⟩ :=
        settles_alternative hb hset hmax hp hi hroom he
      · cases hr
      · exact Or.inl (hr as)
      · cases hr
    · have hn : s₁.run.nesting = s.run.nesting := he.steady hb
      obtain ⟨-, hc, hbr⟩ | ⟨hr, -⟩ | ⟨-, q, x, hr, -⟩ :=
        settles_alternative hb hset hmax hp hi hroom he
      · have hd : s₁.run.depth = s.run.depth := congrArg Prod.fst hn
        obtain hr | ⟨-, q, x, hr, hq, hx⟩ := settles_alternatives hb hset hmax as (number + 1)
          (fun a ha => hpure a (List.mem_cons_of_mem _ ha))
          (fun hc q hq => by rw [hn]; exact hctx hc q (.later hbr hq)) (by rwa [hd]) h
        · exact Or.inl (.next hc hbr hr)
        · exact Or.inr ⟨hc, q, x, hr, .later hbr hq, hx⟩
      · exact absurd rfl hr
      · cases hr

/-- A level above one that settles goals settles them too, with one more rule in progress. -/
theorem settling_above (hb : below.Steady) (hset : below.Settling c row room)
    (hmax : c.limits.maxSteps = none) (hg : c.grammar.Closed)
    (hpure : ∀ r ∈ c.grammar.rules, ∀ a ∈ r.alternatives, a.Pure)
    (hdepth : (c.grammar.rules.length * (row.unread + 1) : Nat) ≤ c.limits.maxDepth) :
    below.above.Settling c row (room + 1) := by
  intro p s hp hroom
  change c.grammar.Settles p (below.matchRule p.cursor p.rule c s).1
  cases hm : below.matchRule p.cursor p.rule c s with
  | mk r s' =>
    change c.grammar.Settles p r
    cases ruleAttempt below c p.cursor p.rule hm with
    | undefined h =>
      obtain ⟨as, has⟩ := Grammar.alternatives?_of_mem hp.within.defined
      rw [h] at has
      cases has
    | again _ ha => exact Or.inr ⟨p, rfl, .refl, hp.cycle ha⟩
    | tooDeep _ ha hd =>
      have hlt : s.run.depth < _ := hp.depth_lt ha
      omega
    | @entered as _ s₁ h ha _ hr =>
      obtain ⟨rule, hrule, -, rfl⟩ := Grammar.alternatives?_eq_some h
      have hroom' : c.grammar.rules.length * (row.unread + 1) <
          room + (s.enter p.entry).run.depth := by
        change _ < room + (s.run.depth + 1)
        omega
      obtain hr | ⟨hc, q, x, hr, hq, hx⟩ := settles_alternatives hb hset hmax rule.alternatives 0
        (s := s.enter p.entry) (hpure rule hrule)
        (fun hc q hq => hp.calls hg ha ⟨hc, rule.alternatives, h, hq⟩) hroom' hr
      · exact Or.inl (.rule h hr)
      · exact Or.inr ⟨x, hr, hx.head ⟨hc, rule.alternatives, h, hq⟩⟩

/-- **Every level settles the goals that come up within its room.** -/
theorem settling (hmax : c.limits.maxSteps = none) (hg : c.grammar.Closed)
    (hpure : ∀ r ∈ c.grammar.rules, ∀ a ∈ r.alternatives, a.Pure)
    (hdepth : (c.grammar.rules.length * (row.unread + 1) : Nat) ≤ c.limits.maxDepth) :
    ∀ room, (level room).Settling c row room
  | 0 => fun p s hp hroom => by
    have hle : s.run.depth ≤ _ := hp.depth_le
    omega
  | room + 1 =>
    settling_above (Level.steady room) (settling hmax hg hpure hdepth room) hmax hg hpure hdepth

end Level

/-! ## Matchers -/

theorem Cursor.context {g : Grammar} {name : String} (hn : name ∈ g.names) (c : Cursor) :
    g.Context c (0, []) ⟨c, name⟩ where
  within := ⟨.refl c, hn⟩
  depth := rfl
  nodup := List.nodup_nil
  leads e he := by cases he

section Matcher

variable {m : Matcher} {g : Grammar} {cursor : Cursor} {name : String} {room : Nat}

theorem Matcher.settles_match? (hm : Matcher.Reachable g m) (hg : g.Closed)
    (hpure : ∀ r ∈ g.rules, ∀ a ∈ r.alternatives, a.Pure) (hsteps : m.limits.maxSteps = none)
    (hn : name ∈ g.names)
    (hdepth : (g.rules.length * (cursor.unread + 1) : Nat) ≤ m.limits.maxDepth)
    (hroom : g.rules.length * (cursor.unread + 1) < room) :
    g.Settles ⟨cursor, name⟩ (m.match? cursor name room).1 := by
  obtain rfl := hm.grammar_eq
  have hctx : m.grammar.Context cursor m.run.nesting ⟨cursor, name⟩ := by
    rw [hm.atRest]
    exact cursor.context hn
  have hsettle := Level.settling (c := { grammar := m.grammar, limits := m.limits }) hsteps hg hpure
    hdepth room ⟨cursor, name⟩ { run := m.run } hctx (Nat.lt_add_right _ hroom)
  cases hr : Matching.guarded (level room).match? cursor name
      { grammar := m.grammar, limits := m.limits } { run := m.run } with
  | mk r s' =>
    rw [Matcher.match?, hr]
    obtain ⟨-, h⟩ | ⟨h, -⟩ := Level.guarded_run _ _ cursor name hr
    · rwa [h] at hsettle
    · rw [h] at hsettle
      obtain h | ⟨x, hx, -⟩ := hsettle
      · cases h.plain _ rfl
      · cases hx

variable (cursor name room) in
/-- **A matcher finds what a rule comes to, and it reports that a rule was entered again just where
the rule comes to nothing, because some chain of calls comes back to where it has been.** -/
theorem Matcher.match?_eq_iff_matches (hm : Matcher.Reachable g m) (hg : g.Closed)
    (hpure : ∀ r ∈ g.rules, ∀ a ∈ r.alternatives, a.Pure) (hsteps : m.limits.maxSteps = none)
    (hn : name ∈ g.names)
    (hdepth : (g.rules.length * (cursor.unread + 1) : Nat) ≤ m.limits.maxDepth)
    (hroom : g.rules.length * (cursor.unread + 1) < room) :
    (∀ r, g.Matches cursor name r ↔
      (m.match? cursor name room).1 = r ∧ ∀ rule, r ≠ .error (.leftRecursion rule)) ∧
    ((∃ rule, (m.match? cursor name room).1 = .error (.leftRecursion rule)) ↔
      ∀ r, ¬ g.Matches cursor name r) ∧
    ∀ rule, (m.match? cursor name room).1 = .error (.leftRecursion rule) →
      ∃ d, g.Loops ⟨cursor, name⟩ ⟨d, rule⟩ := by
  have hne : ∀ {r}, g.Matches cursor name r → ∀ rule, r ≠ .error (.leftRecursion rule) := by
    rintro _ h rule rfl
    cases h.plain _ rfl
  obtain h | ⟨x, hx, hl⟩ := Matcher.settles_match? hm hg hpure hsteps hn hdepth hroom
  · refine ⟨fun r => ⟨fun hr => ⟨h.unique hr, hne hr⟩, ?_⟩, ⟨?_, fun hno => absurd h (hno _)⟩, ?_⟩
    · rintro ⟨rfl, -⟩
      exact h
    · rintro ⟨rule, hr⟩
      exact absurd hr (hne h rule)
    · intro rule hr
      exact absurd hr (hne h rule)
  · have hno : ∀ r, ¬ g.Matches cursor name r := fun r hr => hr.ends.not_loops hl
    refine ⟨fun r => ⟨fun hr => absurd hr (hno r), ?_⟩, ⟨fun _ => hno, fun _ => ⟨_, hx⟩⟩, ?_⟩
    · rintro ⟨rfl, hr⟩
      exact absurd hx (hr _)
    · intro rule hr
      rw [hx] at hr
      cases hr
      exact ⟨x.cursor, hl⟩

end Matcher

/-! ## A rule that calls itself first -/

/-- A rule that goes on with itself behind a symbol, and one that does so before it. -/
def Grammar.rightAndLeft : Grammar := .ofRules
  [⟨"right", [{ items := [.terminal ⟨.symbol, none⟩, .rule "right"] }, {}]⟩,
    ⟨"left", [{ items := [.rule "left", .terminal ⟨.symbol, none⟩] }, {}]⟩]

/-- The start of a row of one symbol. -/
def Cursor.oneSymbol : Cursor where
  text := .ofString "a"
  lexemes := #[⟨.symbol, 0, 1⟩]
  start := 0
  stop := 1

theorem Grammar.pure_rightAndLeft : ∀ r ∈ rightAndLeft.rules, ∀ a ∈ r.alternatives, a.Pure := by
  intro r hr a ha named hn
  have hnone : ∀ r ∈ rightAndLeft.rules, ∀ a ∈ r.alternatives, a.action.isNone := by decide
  have := hnone r hr a ha
  rw [hn] at this
  cases this

/-- The rule that goes on behind a symbol comes to a match, and the other to nothing. -/
theorem Matcher.match?_rightAndLeft :
    (∃ m, Grammar.rightAndLeft.Matches .oneSymbol "right" (.ok (some m))) ∧
      ∀ r, ¬ Grammar.rightAndLeft.Matches .oneSymbol "left" r := by
  have hm : Matcher.Reachable Grammar.rightAndLeft { grammar := .rightAndLeft } := .new {}
  have hright := (Matcher.match?_eq_iff_matches .oneSymbol "right" 5 hm (by decide)
    Grammar.pure_rightAndLeft rfl (by decide) (by decide) (by decide)).1
  have hleft := (Matcher.match?_eq_iff_matches .oneSymbol "left" 5 hm (by decide)
    Grammar.pure_rightAndLeft rfl (by decide) (by decide) (by decide)).2.1
  exact ⟨⟨_, (hright _).mpr ⟨rfl, by simp⟩⟩, hleft.mp ⟨"left", rfl⟩⟩

end Outline
