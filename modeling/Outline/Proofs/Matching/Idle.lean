import Outline.Proofs.Matching.Coverage
import Outline.Proofs.Matching.Guard
import Outline.Proofs.Matching.Reentry

/-!
# Matching without reading

The rules that a grammar calls nullable and those that match without moving the cursor are the same. One
half holds whatever the actions and the limits are; for the other the cursor stands where nothing is left
to read, no rule can be entered again and no action has a say.

* `Grammar.Default`: every alternative is left to the default action;
* `Grammar.derives_iff_skips`: a rule derives nothing by one of its alternatives;
* `Cursor.Idles`: a match at the end if something holds, and otherwise none;
* `Grammar.Matches.idles`: what rules come to where nothing is left to read;
* **`Matcher.match?_iff_nullable`**: matching and nullability agree.
-/

namespace Outline

namespace Alternative

variable {a : Alternative}

theorem pure_of_default (h : a.action = none) : a.Pure := fun named hn => by
  rw [h] at hn
  cases hn

theorem modest_of_default (h : a.action = none) : a.Modest := fun name run hn => by
  rw [h] at hn
  cases hn

/-- What the default action builds has the bounds that it is handed, if they are in order and in the text. -/
theorem verdict_default (h : a.action = none) {values : List Value} {start stop : Nat} {v : Value}
    (hv : a.Builds values start stop v) (name : String) {c : Cursor} (hle : start ≤ stop)
    (hstop : stop ≤ c.text.length) : ∃ fields, a.verdict name c v = .ok ⟨c, some ⟨fields, start, stop⟩⟩ := by
  cases hv with
  | action hn => rw [h] at hn; cases hn
  | default =>
    obtain ⟨items, hi⟩ := a.defaultValue_eq values start stop
    refine ⟨items, ?_⟩
    have hbounds : Construct.ofBounds items start stop (some (c.text.length : Int)) =
        .ok ⟨items, start, stop⟩ :=
      Construct.ofBounds_eq_ok_iff.mpr ⟨rfl, rfl, rfl, hle, by simpa using hstop⟩
    rw [hi, verdict_of_ne (by simp), Construct.ofValue_bounds, hbounds]

end Alternative

/-! ## Where nothing is left to read -/

namespace Cursor

variable {c d : Cursor}

/-- Nothing is left to read, and the text has the stretch that was cut. -/
structure Spent (c : Cursor) : Prop where
  atEnd : c.atEnd
  stop_le : c.stop ≤ c.text.length

namespace Spent

theorem size_le (h : c.Spent) : (c.size : Int) ≤ c.index := by simpa [Cursor.atEnd] using h.atEnd

theorem unread (h : c.Spent) : c.unread = 0 := by
  have := h.size_le
  unfold Cursor.unread
  omega

theorem offset (h : c.Spent) : c.offset = .ok (c.stop : Int) := by
  rw [Cursor.offset, next, h.unread]
  rfl

theorem not_reads (h : c.Spent) {skip : Bool} {l : Lexeme} : ¬ c.Reads skip l d := fun hr => by
  have h1 := hr.ahead
  have h2 := hr.inside
  have h3 := h.size_le
  omega

end Spent

/-- There is a match that leaves the cursor and has the end of the stretch for its bounds if `p` holds, and
otherwise there is none. -/
inductive Idles (c : Cursor) (p : Prop) : Except Failure (Option Match) → Prop where
  | matches (fields : List Value) (h : p) : Idles c p (.ok (some ⟨c, some ⟨fields, c.stop, c.stop⟩⟩))
  | fails (h : ¬ p) : Idles c p (.ok none)

theorem Idles.congr {p q : Prop} {r : Except Failure (Option Match)} (h : c.Idles p r) (hpq : p ↔ q) :
    c.Idles q r := by
  cases h with
  | «matches» fields h => exact .matches fields (hpq.mp h)
  | fails h => exact .fails fun hq => h (hpq.mpr hq)

end Cursor

/-! ## What rules come to there -/

namespace Grammar

variable {g : Grammar}

/-- Every alternative is left to the default action. -/
def Default (g : Grammar) : Prop := ∀ r ∈ g.rules, ∀ a ∈ r.alternatives, a.action = none

instance (g : Grammar) : Decidable g.Default :=
  decidable_of_iff (∀ r ∈ g.rules, ∀ a ∈ r.alternatives, a.action.isNone) (by simp [Default])

theorem Default.action_eq_none (hg : g.Default) {name : String} {as : List Alternative}
    (h : g.alternatives? name = some as) : ∀ a ∈ as, a.action = none := by
  obtain ⟨r, hr, -, rfl⟩ := alternatives?_eq_some h
  exact hg r hr

theorem derives_iff_skips {name : String} {as : List Alternative} (h : g.alternatives? name = some as) :
    g.Derives name ↔ ∃ a ∈ as, ∀ i ∈ a.items, g.Skips i := by
  constructor
  · rintro ⟨hr, ha, hitems, hd⟩
    rw [g.alternatives?_eq_of_mem hr] at h
    cases h
    refine ⟨_, ha, fun i hi => ?_⟩
    rw [hitems] at hi
    obtain ⟨n, hn, rfl⟩ := List.mem_map.mp hi
    exact ⟨n, rfl, hd n hn⟩
  · rintro ⟨a, ha, hs⟩
    obtain ⟨r, hr, rfl, rfl⟩ := alternatives?_eq_some h
    exact derives_of_skips hr ha hs

mutual

theorem Matches.idles (hg : g.Default) {c : Cursor} (hc : c.Spent) {name : String}
    {r : Except Failure (Option Match)} : Matches g c name r → c.Idles (g.Derives name) r
  | .rule h hr => (hr.idles hg hc (hg.action_eq_none h)).congr (derives_iff_skips h).symm

theorem Chooses.idles (hg : g.Default) {c : Cursor} (hc : c.Spent) {name : String}
    {as : List Alternative} {r : Except Failure (Option Match)} (has : ∀ a ∈ as, a.action = none) :
    Chooses g c name as r → c.Idles (∃ a ∈ as, ∀ i ∈ a.items, g.Skips i) r
  | .none => .fails (by simp)
  | .next _ h hr => by
    have hskips := (h.idles hg hc).2
    refine (hr.idles hg hc fun a ha => has a (List.mem_cons_of_mem _ ha)).congr ?_
    simp [hskips]
  | .first (a := a) ho h hv hr => by
    obtain ⟨hd, hstretches, hskips⟩ := h.idles hg hc
    rw [hc.offset] at ho
    cases ho
    rw [Finding.start, Finding.stop, hstretches] at hv
    obtain ⟨fields, hm⟩ := a.verdict_default (has a List.mem_cons_self) hv name le_rfl hc.stop_le
    rw [hd, hm] at hr
    exact hr ▸ .matches fields ⟨a, List.mem_cons_self, hskips⟩
  | .raised _ h => by cases (h.idles hg hc).1
  | .lost h => by
    rw [hc.offset] at h
    cases h

theorem Fits.idles (hg : g.Default) {c d : Cursor} (hc : c.Spent) {is : List Item} {fs : List Finding} :
    Fits g c is fs d → d = c ∧ Finding.stretches fs = [] ∧ ∀ i ∈ is, g.Skips i
  | .nil => ⟨rfl, rfl, by simp⟩
  | .cons h hr => by
    obtain ⟨hd, hf, hi⟩ := h.idles hg hc
    obtain ⟨he, hfs, his⟩ := hr.idles hg (hd ▸ hc)
    exact ⟨he.trans hd, by simp [hf, hfs], List.forall_mem_cons.mpr ⟨hi, his⟩⟩

theorem Breaks.idles (hg : g.Default) {c : Cursor} (hc : c.Spent) {is : List Item} {r : Option Failure} :
    Breaks g c is r → r = none ∧ ¬ ∀ i ∈ is, g.Skips i
  | .here h => by
    obtain ⟨hr, hi⟩ := h.idles hg hc
    exact ⟨hr, fun h => hi (h _ List.mem_cons_self)⟩
  | .later h hr => by
    obtain ⟨hd, -, -⟩ := h.idles hg hc
    obtain ⟨hr, his⟩ := hr.idles hg (hd ▸ hc)
    exact ⟨hr, fun h => his fun i hi => h i (List.mem_cons_of_mem _ hi)⟩

theorem Takes.idles (hg : g.Default) {c d : Cursor} (hc : c.Spent) {i : Item} {f : Finding} :
    Takes g c i f d → d = c ∧ f.stretch = none ∧ g.Skips i
  | .lexeme h _ => absurd h hc.not_reads
  | .construct h => by
    cases h.idles hg hc with
    | «matches» fields hn => exact ⟨rfl, by simp [Finding.ofConstruct], _, rfl, hn⟩

theorem Refuses.idles (hg : g.Default) {c : Cursor} (hc : c.Spent) {i : Item} {r : Option Failure} :
    Refuses g c i r → r = none ∧ ¬ g.Skips i
  | .mismatch _ => ⟨rfl, by rintro ⟨name, h, -⟩; cases h⟩
  | .noMatch h => by
    cases h.idles hg hc with
    | fails hn =>
      refine ⟨rfl, ?_⟩
      rintro ⟨name, ⟨⟩, hd⟩
      exact hn hd
  | .dropped h => by cases h.idles hg hc
  | .raised h => by cases h.idles hg hc

end

end Grammar

/-! ## Matchers -/

namespace Matcher

variable {g : Grammar} {m : Matcher} {cursor : Cursor} {name : String} {room : Nat}

/-- A matcher finds what its level finds, or it has run out of room. -/
theorem match?_cases (m : Matcher) (cursor : Cursor) (name : String) (room : Nat) :
    (m.match? cursor name room).1 = ((level room).match? cursor name
        { grammar := m.grammar, limits := m.limits } { run := m.run }).1 ∨
      ∃ e, (m.match? cursor name room).1 = .error e ∧
        ((∃ limit offset, e = .nestingLimit name limit offset) ∨ ∃ f, e = .access f) := by
  cases hr : Matching.guarded (level room).match? cursor name
      { grammar := m.grammar, limits := m.limits } { run := m.run } with
  | mk r s' =>
    rw [Matcher.match?, hr]
    obtain ⟨-, h⟩ | ⟨-, h⟩ := Level.guarded_run _ _ cursor name hr
    · exact Or.inl (congrArg Prod.fst h).symm
    · exact Or.inr h

/-- What matches without moving the cursor can match without reading. -/
theorem derives_of_match? {found : Match} (h : (m.match? cursor name room).1 = .ok (some found))
    (hi : found.cursor.index = cursor.index) : m.grammar.Derives name := by
  obtain hr | ⟨e, he, -⟩ := m.match?_cases cursor name room
  · exact (Level.advances _ room cursor name _ found (hr.symm.trans h)).idle_of_eq hi
  · cases he.symm.trans h

/-- What is found where nothing is left to read: no rule is entered again there, so that a match finds what
the rule comes to. -/
theorem idles_match? (hw : g.WellFormed) (hg : g.Default) (hm : Matcher.Reachable g m)
    (hsteps : m.limits.maxSteps = none) (hdepth : (g.rules.length : Int) ≤ m.limits.maxDepth)
    (hc : cursor.Spent) (hn : name ∈ g.names) (hroom : g.rules.length < room) :
    cursor.Idles (g.Derives name) (m.match? cursor name room).1 := by
  have hpure : ∀ r ∈ g.rules, ∀ a ∈ r.alternatives, a.Pure := fun r hr a ha =>
    Alternative.pure_of_default (hg r hr a ha)
  have hmodest : ∀ r ∈ g.rules, ∀ a ∈ r.alternatives, a.Modest := fun r hr a ha =>
    Alternative.modest_of_default (hg r hr a ha)
  have hsettles : g.Settles ⟨cursor, name⟩ (m.match? cursor name room).1 :=
    Matcher.settles_match? hm hw.closed hpure hsteps hn (by simpa [hc.unread] using hdepth)
      (by simpa [hc.unread] using hroom)
  obtain h | ⟨x, hx, -⟩ := hsettles
  · exact h.idles hg hc
  · obtain rfl := hm.grammar_eq
    have hactive : m.run.active = [] := congrArg Prod.snd hm.atRest
    obtain hr | ⟨e, he, ⟨_, _, rfl⟩ | ⟨_, rfl⟩⟩ := m.match?_cases cursor name room
    · have hspares := Level.spares (c := { grammar := m.grammar, limits := m.limits }) hw hmodest room
        cursor name { run := m.run } hn (by simp [hactive])
      exact absurd (.leftRecursion _) (hspares _ (hr.symm.trans hx))
    · cases he.symm.trans hx
    · cases he.symm.trans hx

/-- **Nullability and matching agree.** A rule that some match of it leaves the cursor at its place is
nullable, whatever the actions, the limits and the matches before are. And where nothing is left to read, a
rule of a grammar without a fault and without actions matches just if it is nullable, with the end of the
stretch for both bounds. -/
theorem match?_iff_nullable (g : Grammar) :
    (∀ m : Matcher, m.grammar = g → ∀ cursor name room found,
      (m.match? cursor name room).1 = .ok (some found) → found.cursor.index = cursor.index →
        name ∈ g.nullable) ∧
    (g.fault? = none → g.Default → ∀ m, Matcher.Reachable g m → m.limits.maxSteps = none →
      (g.rules.length : Int) ≤ m.limits.maxDepth → ∀ cursor : Cursor, cursor.atEnd →
        cursor.stop ≤ cursor.text.length → ∀ name ∈ g.names, ∀ room, g.rules.length < room →
          ((∃ found, (m.match? cursor name room).1 = .ok (some found)) ↔ name ∈ g.nullable) ∧
          (name ∉ g.nullable → (m.match? cursor name room).1 = .ok none) ∧
          ∀ found, (m.match? cursor name room).1 = .ok (some found) →
            ∃ fields, found = ⟨cursor, some ⟨fields, cursor.stop, cursor.stop⟩⟩) := by
  constructor
  · rintro m rfl cursor name room found h hi
    exact Grammar.mem_nullable_iff.mpr (derives_of_match? h hi)
  · intro hf hg m hm hsteps hdepth cursor hend hstop name hn room hroom
    have hidles := idles_match? (Grammar.fault?_eq_none_iff.mp hf) hg hm hsteps hdepth ⟨hend, hstop⟩ hn hroom
    rw [Grammar.mem_nullable_iff]
    generalize (m.match? cursor name room).1 = r at hidles
    cases hidles with
    | «matches» fields h =>
      refine ⟨⟨fun _ => h, fun _ => ⟨_, rfl⟩⟩, fun hn => absurd h hn, ?_⟩
      rintro found ⟨⟩
      exact ⟨fields, rfl⟩
    | fails h =>
      refine ⟨⟨?_, fun hd => absurd hd h⟩, fun _ => rfl, ?_⟩
      · rintro ⟨found, ⟨⟩⟩
      · rintro found ⟨⟩

end Matcher

/-! ## A rule that looks for a symbol -/

/-- Two gaps in a row, which may hold symbols, and a rule that has to hold one. -/
def Grammar.gaps : Grammar := .ofRules
  [⟨"toplevel", [{ items := [.rule "word"] }, { items := [.rule "gap", .rule "gap"] }]⟩,
    ⟨"gap", [{ items := [.rule "word"] }, {}]⟩,
    ⟨"word", [{ items := [.terminal ⟨.symbol, none⟩] }]⟩]

theorem Grammar.fault?_gaps : gaps.fault? = none :=
  fault?_eq_none_iff.mpr (.of_rank (by decide) (by decide)
    (fun n => if n = "toplevel" then 2 else if n = "gap" then 1 else 0) (by decide))

/-- Behind the last lexeme two gaps match, and the word does not. -/
theorem Matcher.match?_gaps :
    let cursor : Cursor :=
      { text := .ofString "a ", lexemes := #[⟨.symbol, 0, 1⟩], start := 0, stop := 2, index := 1 }
    let m : Matcher := { grammar := .gaps }
    (∃ found, (m.match? cursor "toplevel" 9).1 = .ok (some found)) ∧
      (m.match? cursor "word" 9).1 = .ok none ∧ "gap" ∈ Grammar.gaps.nullable := by
  intro cursor m
  have h := (Matcher.match?_iff_nullable .gaps).2 Grammar.fault?_gaps (by decide) m (.new {}) rfl
    (by decide) cursor (by decide) (by decide)
  refine ⟨(h "toplevel" (by decide) 9 (by decide)).1.mpr (by decide),
    (h "word" (by decide) 9 (by decide)).2.1 (by decide), ?_⟩
  have hgap : (m.match? cursor "gap" 9).1 = .ok (some ⟨cursor, some ⟨[.none], 2, 2⟩⟩) := rfl
  exact (Matcher.match?_iff_nullable .gaps).1 m rfl cursor "gap" 9 _ hgap rfl

end Outline
