import Mathlib.Data.List.Pairwise
import Outline.Proofs.Engine.Round
import Outline.Proofs.Lexer.Row
import Outline.Proofs.Matching.Coverage
import Outline.Session

/-!
# What is found divides the text

If no action drops a match or moves its bounds, the constructs that the rounds of a parse find lie one
behind the other, and together they hold every lexeme that is no comment.

* `Alternative.Keeping`: actions that keep the bounds they are handed and drop nothing;
* `Cursor.Row`: the lexemes behind a cursor are in order;
* `Cursor.Tiles`: rounds that lead from a cursor to the end, and what they have found;
* `Cursor.Partition`, `Cursor.Tiles.partition`: what that says about the lexemes;
* `Level.tiles_of_rounds`, **`Session.partition_parseAll`**: whole texts and spans.
-/

namespace Outline

open Engine

/-! ## Actions that keep what matched -/

/-- The action, if it is a function, keeps its bounds and never drops the match. -/
structure Alternative.Keeping (a : Alternative) : Prop where
  exact : a.Exact
  kept : ∀ name run, a.action = some ⟨name, .function run⟩ → ∀ values start stop,
    run values start stop ≠ .done .none

namespace Alternative.Keeping

variable {a : Alternative} {values : List Value} {start stop : Int} {v : Value}

theorem ne_none (h : a.Keeping) (hv : a.Builds values start stop v) : v ≠ .none := by
  cases hv with
  | default =>
    obtain ⟨items, hi⟩ := a.defaultValue_eq values start stop
    rw [hi]
    rintro ⟨⟩
  | action hn hv =>
    rintro rfl
    exact h.kept _ _ hn _ _ _ hv

theorem construct_of_verdict (h : a.Keeping) (hv : a.Builds values start stop v) {name : String}
    {d : Cursor} {m : Match} (hm : a.verdict name d v = .ok m) : ∃ k, m.construct = some k := by
  rw [verdict_of_ne (h.ne_none hv)] at hm
  split at hm
  · cases hm
    exact ⟨_, rfl⟩
  · cases hm

end Alternative.Keeping

theorem Grammar.Parses.construct {g : Grammar}
    (hk : ∀ r ∈ g.rules, ∀ a ∈ r.alternatives, a.Keeping) {c : Cursor} {name : String}
    {start stop : Int} {m : Match} {rs : List Placed} (h : g.Parses c name start stop m rs) :
    ∃ k, m.construct = some k := by
  cases h with
  | rule h ha _ _ hv hm =>
    obtain ⟨rule, hrule, -, rfl⟩ := alternatives?_eq_some h
    exact (hk rule hrule _ ha).construct_of_verdict hv hm

/-! ## Rounds to the end of a row -/

namespace Cursor

variable {c d : Cursor} {ks : List Construct}

/-- The place counts from the start, and the lexemes are in order and within the stretch that was cut,
which the text has. -/
structure Row (c : Cursor) : Prop where
  index : 0 ≤ c.index
  start_le : c.start ≤ c.stop
  stop_le : c.stop ≤ c.text.length
  row : Lexeme.InRow c.start c.stop c.lexemes.toList

namespace Row

theorem of_lex {x : Lexer} (hx : x.extensions = []) {t : Text} {start : Int} {stop limit : Option Int}
    (h : x.lex t start stop limit = .ok c) : c.Row ∧ c.index = 0 := by
  obtain ⟨h1, h2, h3, h4⟩ := Lexer.inRow_of_lex hx h
  exact ⟨⟨h3.ge, h1, h2, h4⟩, h3⟩

theorem ahead (h : c.Row) (hd : c.Ahead d) : d.Row := by
  obtain ⟨ht, hls, hs, he⟩ := hd.row
  refine ⟨h.index.trans hd.le, ?_, ?_, ?_⟩
  · rw [hs, he]
    exact h.start_le
  · rw [he, ht]
    exact h.stop_le
  · rw [hs, he, hls]
    exact h.row

theorem ordered (h : c.Row) : c.Ordered :=
  ordered_of_pairwise h.index h.start_le h.stop_le h.row.within (h.row.apart.imp fun hkl => hkl.2)

/-- A lexeme starts behind the start of every lexeme before it, and not before its end. -/
theorem apart (h : c.Row) {i j : Int} {k l : Lexeme} (hi : c.index ≤ i) (hij : i < j)
    (hk : c.lexemeAt i = .ok k) (hl : c.lexemeAt j = .ok l) : k.start < l.start ∧ k.stop ≤ l.start := by
  have hi0 := h.index.trans hi
  obtain ⟨hi', rfl⟩ := getElem_of_lexemeAt hi0 hk
  obtain ⟨hj', rfl⟩ := getElem_of_lexemeAt (hi0.trans hij.le) hl
  exact List.pairwise_iff_getElem.mp h.row.apart _ _ hi' hj' (by omega)

end Row

/-- Rounds that lead from a cursor to the end of its row: each passes a comment over, or finds a construct
that has the bounds of what was read up to another cursor. -/
inductive Tiles : Cursor → List Construct → Prop where
  | done {c : Cursor} (h : (c.size : Int) ≤ c.index) : Tiles c []
  | comment {c : Cursor} {l : Lexeme} {ks : List Construct} (h : c.lexemeAt c.index = .ok l)
      (hi : c.index < c.size) (hl : l.kind = .comment) (rest : Tiles c.advance ks) : Tiles c ks
  | construct {c d : Cursor} {rs : List Placed} {k : Construct} {ks : List Construct}
      (h : c.Bounds d rs k.start k.stop) (hi : c.index < d.index) (rest : Tiles d ks) :
      Tiles c (k :: ks)

/-- What is found lies one behind the other in the row of lexemes. -/
structure Partition (c : Cursor) (found : List Construct) : Prop where
  within : ∀ k ∈ found, c.start ≤ k.start ∧ k.start ≤ k.stop ∧ k.stop ≤ c.stop
  apart : found.Pairwise fun j k => j.start < k.start ∧ j.stop ≤ k.start
  covers : ∀ l ∈ c.lexemes.toList, l.kind ≠ .comment →
    ∃! k, k ∈ found ∧ (k.start : Int) ≤ l.start ∧ l.stop ≤ k.stop

namespace Tiles

/-- Every construct starts where a lexeme starts that is left to read. -/
theorem starts (h : c.Tiles ks) : ∀ k ∈ ks, ∃ i l, c.index ≤ i ∧ c.lexemeAt i = .ok l ∧
    l.start = k.start := by
  induction h with
  | done => simp
  | @comment c l ks h hi hl rest ih =>
    intro k hk
    obtain ⟨i, l, hle, hl, hs⟩ := ih k hk
    exact ⟨i, l, (ahead_advance hi).le.trans hle, hl, hs⟩
  | @construct c d rs k ks h hi rest ih =>
    intro k' hk'
    rcases List.mem_cons.mp hk' with rfl | hk'
    · obtain ⟨r, -, hr, -, hs⟩ := h.first hi
      exact ⟨r.place, r.lexeme, hr.le, hr.at_place, hs⟩
    · obtain ⟨i, l, hle, hl, hs⟩ := ih k' hk'
      rw [h.ahead.row.lexemeAt_eq] at hl
      exact ⟨i, l, hi.le.trans hle, hl, hs⟩

theorem within (h : c.Tiles ks) (hc : c.Row) : ∀ k ∈ ks,
    c.start ≤ k.start ∧ k.start ≤ k.stop ∧ k.stop ≤ c.stop := by
  induction h with
  | done => simp
  | comment h hi hl rest ih => exact ih (hc.ahead (ahead_advance hi))
  | construct h hi rest ih =>
    have hrest := ih (hc.ahead h.ahead)
    rw [h.ahead.row.2.2.1, h.ahead.row.2.2.2] at hrest
    have hw := hc.ordered.bounds_within h
    exact List.forall_mem_cons.mpr ⟨by omega, hrest⟩

theorem apart (h : c.Tiles ks) (hc : c.Row) :
    ks.Pairwise fun j k => j.start < k.start ∧ j.stop ≤ k.start := by
  induction h with
  | done => exact .nil
  | comment h hi hl rest ih => exact ih (hc.ahead (ahead_advance hi))
  | @construct c d rs k ks h hi rest ih =>
    refine List.pairwise_cons.mpr ⟨fun k' hk' => ?_, ih (hc.ahead h.ahead)⟩
    obtain ⟨i, l, hle, hl, hs⟩ := rest.starts k' hk'
    rw [h.ahead.row.lexemeAt_eq] at hl
    obtain ⟨r, -, hr, hlt, hstart⟩ := h.first hi
    obtain ⟨last, hlast, hstop⟩ := h.last hi
    have h1 := (hc.apart hr.le (hlt.trans_le hle) hr.at_place hl).1
    have h2 := (hc.apart (by omega) (by omega) hlast hl).2
    omega

/-- A lexeme that is left to read and no comment lies within a construct. -/
theorem held (h : c.Tiles ks) (hc : c.Row) : ∀ i l, c.index ≤ i → c.lexemeAt i = .ok l →
    l.kind ≠ .comment → ∃ k ∈ ks, (k.start : Int) ≤ l.start ∧ l.stop ≤ k.stop := by
  induction h with
  | @done c h =>
    intro i l hi hl
    obtain ⟨hlt, -⟩ := getElem_of_lexemeAt (hc.index.trans hi) hl
    rw [Array.length_toList] at hlt
    unfold size at h
    omega
  | @comment c l' ks h hi hl' rest ih =>
    intro i l hle hl hne
    have hplace : c.index ≠ i := by
      rintro rfl
      rw [h] at hl
      cases hl
      exact hne hl'
    have hnext : c.advance.index ≤ i := by
      rw [index_advance hi]
      omega
    exact ih (hc.ahead (ahead_advance hi)) i l hnext hl hne
  | @construct c d rs k ks h hi rest ih =>
    intro i l hle hl hne
    by_cases hid : d.index ≤ i
    · rw [← h.ahead.row.lexemeAt_eq] at hl
      obtain ⟨k', hk', hb⟩ := ih (hc.ahead h.ahead) i l hid hl hne
      exact ⟨k', List.mem_cons_of_mem _ hk', hb⟩
    · refine ⟨k, List.mem_cons_self, ?_, ?_⟩
      · obtain ⟨r, -, hr, -, hs⟩ := h.first hi
        -- Before the first lexeme that was read there are comments alone.
        have hri : r.place ≤ i := by
          by_contra hlt
          obtain ⟨k', hk', hkind⟩ := hr.passed i hle (by omega)
          rw [hl] at hk'
          cases hk'
          exact hne hkind
        rcases hri.eq_or_lt with rfl | hlt
        · have hat := hr.at_place
          rw [hl] at hat
          cases hat
          exact hs.ge
        · have hap := hc.apart hr.le hlt hr.at_place hl
          omega
      · obtain ⟨last, hlast, hs⟩ := h.last hi
        rcases (show i ≤ d.index - 1 by omega).eq_or_lt with rfl | hlt
        · rw [hl] at hlast
          cases hlast
          exact hs.le
        · have hap := hc.apart hle hlt hl hlast
          have hw := hc.ordered.within _ _ (by omega) hlast
          omega

/-- **Rounds from the start of a row to its end divide its lexemes.** -/
theorem partition (h : c.Tiles ks) (hc : c.Row) (hi : c.index = 0) : c.Partition ks := by
  refine ⟨h.within hc, h.apart hc, fun l hl hne => ?_⟩
  obtain ⟨i, hlt, rfl⟩ := List.getElem_of_mem hl
  obtain ⟨k, hk, hb⟩ := h.held hc i _ (by omega) (lexemeAt_natCast hlt) hne
  refine ⟨k, ⟨hk, hb⟩, ?_⟩
  rintro k' ⟨hk', hb'⟩
  -- Of two constructs one ends before the other starts, and the lexeme is not empty.
  have hfilled := hc.row.filled _ hl hne
  by_contra hkk
  have hsymm : Std.Symm fun j k : Construct => j.stop ≤ k.start ∨ k.stop ≤ j.start :=
    ⟨fun _ _ => Or.symm⟩
  have hp : ks.Pairwise fun j k => j.stop ≤ k.start ∨ k.stop ≤ j.start :=
    (h.apart hc).imp fun hjk => Or.inl hjk.2
  have hor := hp.forall hk' hk hkk
  omega

end Tiles

end Cursor

/-! ## The rounds of a parse -/

namespace Level

variable {c : Settings}

/-- What a match takes up has the bounds of what was read. -/
theorem bounds_of_guarded (hk : ∀ r ∈ c.grammar.rules, ∀ a ∈ r.alternatives, a.Keeping) {room : Nat}
    {cursor : Cursor} {name : String} {s s' : State} {m : Match}
    (h : Matching.guarded (level room).match? cursor name c s = (.ok (some m), s')) :
    ∃ rs k, m.construct = some k ∧ cursor.Bounds m.cursor rs k.start k.stop := by
  rcases guarded_run _ _ cursor name h with ⟨-, hm⟩ | ⟨-, e, he, -⟩
  · obtain ⟨start, stop, rs, hp⟩ := parsing (fun r hr a ha => (hk r hr a ha).exact.direct) room
      cursor name s m (by rw [hm])
    obtain ⟨k, hkm⟩ := hp.construct hk
    obtain ⟨p, offset, hcov, ho, hstart, hstop, hb⟩ := hp.covers fun r hr a ha => (hk r hr a ha).exact
    obtain ⟨h1, h2⟩ := hb k hkm
    refine ⟨rs, k, hkm, ?_⟩
    rw [h1, h2, hstart, hstop]
    exact hcov.bounds ho
  · cases he

/-- **Rounds that take up each construct as it is lead to the end of the row.** -/
theorem tiles_of_rounds (hk : ∀ r ∈ c.grammar.rules, ∀ a ∈ r.alternatives, a.Keeping) {room : Nat}
    {r : Matching.Rounds} (hr : ∀ k s s' more, r.accept k c s = (.ok more, s') → more = [k]) :
    ∀ (fuel : Nat) {cursor : Cursor} {found out : Array Construct} {s : State},
      cursor.unread ≤ fuel →
      (Matching.rounds (level room).match? r fuel cursor found c s).1 = .ok out →
      ∃ ks, out.toList = found.toList ++ ks ∧ cursor.Tiles ks := by
  intro fuel
  induction fuel with
  | zero =>
    intro cursor found out s hf h
    cases h
    unfold Cursor.unread at hf
    exact ⟨[], by simp, .done (by omega)⟩
  | succ fuel ih =>
    intro cursor found out s hf h
    unfold Cursor.unread at hf
    rcases Matching.round_of_rounds h with ⟨hp, rfl⟩ | ⟨more, d, s₁, hround, h⟩
    · exact ⟨[], by simp, .done (Cursor.size_le_of_peek hp)⟩
    · cases hround with
      | @comment l hp _ hl =>
        obtain ⟨hi, hat⟩ := Cursor.lexemeAt_of_peek hp
        have hfuel : cursor.advance.unread ≤ fuel := by
          unfold Cursor.unread
          rw [Cursor.index_advance hi]
          show ((cursor.size : Int) - (cursor.index + 1)).toNat ≤ fuel
          omega
        obtain ⟨ks, hks, ht⟩ := ih hfuel h
        exact ⟨ks, by simpa using hks, .comment hat hi hl ht⟩
      | @taken l m more s₁ s₂ _ hp _ hm hne hc =>
        obtain ⟨rs, k, hkm, hb⟩ := bounds_of_guarded hk hm
        have hmore : more = [k] := by
          unfold Matching.Rounds.contribution at hc
          rw [hkm] at hc
          exact hr k _ _ _ hc
        have hle := hb.ahead.le
        have hfuel : m.cursor.unread ≤ fuel := by
          unfold Cursor.unread
          rw [hb.ahead.row.size_eq]
          omega
        obtain ⟨ks, hks, ht⟩ := ih hfuel h
        refine ⟨k :: ks, ?_, .construct hb (by omega) ht⟩
        rw [hks, hmore]
        simp

/-- The rounds over the lexemes of a stretch divide them. -/
theorem partition_of_rounds (room : Nat) (hx : c.lexer.extensions = [])
    (hk : ∀ r ∈ c.grammar.rules, ∀ a ∈ r.alternatives, a.Keeping) {r : Matching.Rounds}
    (hr : ∀ k s s' more, r.accept k c s = (.ok more, s') → more = [k]) {text : Text} {start : Int}
    {stop depth : Option Int} {cursor : Cursor} {out : Array Construct} {s : State}
    (hl : c.lexer.lex text start stop depth = .ok cursor)
    (h : (Matching.rounds (level room).matchRule r cursor.unread cursor #[] c s).1 = .ok out) :
    cursor.Partition out.toList := by
  obtain ⟨hc, hi⟩ := Cursor.Row.of_lex hx hl
  have h : (Matching.rounds (level (room + 1)).match? r cursor.unread cursor #[] c s).1 = .ok out := h
  obtain ⟨ks, hks, ht⟩ := tiles_of_rounds hk hr _ le_rfl h
  rw [hks]
  exact ht.partition hc hi

end Level

/-- Without a hook the rounds of a whole text take up each construct as it is. -/
theorem Matching.accepted_of_hook {c : Settings} (h : c.hook = none) {below : Level} {text : Text}
    {skipComments : Bool} {k : Construct} {s s' : State} {more : List Construct}
    (hm : (wholeText below c text skipComments).accept k c s = (.ok more, s')) : more = [k] := by
  have haccept : (wholeText below c text skipComments).accept k c s =
      replaceBy below text.length k c.hook c s := by
    show replace below text.length k c s = _
    rw [replace_eq, bind_run_ok rfl]
  rw [haccept, h] at hm
  cases hm
  rfl

/-- **What a parse finds divides the text, and what an expansion finds divides its span.** What is
remembered from earlier is to be the result of a parse of the same text. -/
theorem Session.partition_parseAll {c : Settings} (hx : c.lexer.extensions = [])
    (hk : ∀ r ∈ c.grammar.rules, ∀ a ∈ r.alternatives, a.Keeping) :
    (∀ cache text skip room found, c.hook = none →
      (∀ k ∈ cache, k.isValidFor text (skip.getD c.skipComments) = true →
        ∃ room, ((⟨c, none⟩ : Session).parseAll text skip room).result = .ok k.constructs) →
      ((⟨c, cache⟩ : Session).parseAll text skip room).result = .ok found →
      ∃ cursor, c.lexer.lex text 0 none c.depth = .ok cursor ∧ cursor.Partition found ∧
        ∀ k ∈ found, k.stop ≤ text.length) ∧
    ∀ e room s found, ((level room).expandFull e c s).1 = .ok found →
      ∃ text cursor, (textOf e c s).1 = .ok text ∧
        (lexSpan text e.span e.depth e.interior c s).1 = .ok cursor ∧ cursor.Partition found := by
  have hfresh : ∀ text skip room found s, c.hook = none →
      ((level room).parseAll text skip c s).1 = .ok found →
      (∀ k ∈ s.cache, k.isValidFor text (skip.getD c.skipComments) = true → found ≠ k.constructs) →
      ∃ cursor, c.lexer.lex text 0 none c.depth = .ok cursor ∧ cursor.Partition found ∧
        ∀ k ∈ found, k.stop ≤ text.length := by
    intro text skip room found s hhook h hs
    cases room with
    | zero => cases h
    | succ room =>
      rcases Matching.parseAll_ok h with ⟨k, hkc, hv, he⟩ | ⟨cursor, s₁, out, hl, ho, rfl⟩
      · exact absurd he (hs k hkc hv)
      · have hw := Level.partition_of_rounds room hx hk
          (fun k s s' more => Matching.accepted_of_hook hhook) hl ho
        have hrow := (Cursor.Row.of_lex hx hl).1
        have hlen := hrow.stop_le
        rw [(Lexer.start_of_lex hl).1] at hlen
        exact ⟨cursor, hl, hw, fun k hk => (hw.within k hk).2.2.trans hlen⟩
  refine ⟨fun cache text skip room found hhook hcache h => ?_, fun e room s found h => ?_⟩
  · by_cases hs : ∃ k ∈ cache, k.isValidFor text (skip.getD c.skipComments) = true ∧
        found = k.constructs
    · obtain ⟨k, hkc, hv, rfl⟩ := hs
      obtain ⟨room', h'⟩ := hcache k hkc hv
      exact hfresh text skip room' _ _ hhook h' (fun _ hn => nomatch hn)
    · exact hfresh text skip room found _ hhook h fun k hkc hv he => hs ⟨k, hkc, hv, he⟩
  · cases room with
    | zero => cases h
    | succ room =>
      obtain ⟨text, cursor, s₁, out, ht, hl, ho, rfl⟩ := Matching.expandFull_ok h
      obtain ⟨start, stop, hlex⟩ := Matching.lex_of_lexSpan hl
      refine ⟨text, cursor, ht, hl, Level.partition_of_rounds room hx hk ?_ hlex ho⟩
      intro k s s' more hm
      cases hm
      rfl

/-! ## Words with marks behind them -/

/-- An action that puts the bounds behind the values. -/
def NamedAction.bounded : NamedAction :=
  ⟨"bounded", .function fun values start stop => .done (.tuple (values ++ [.int start, .int stop]))⟩

/-- Words, each with a mark behind it or without one. -/
def Grammar.words : Grammar := .ofRules
  [⟨"toplevel", [{ items := [.rule "word", .rule "mark"] }]⟩,
    ⟨"word", [{ items := [.terminal ⟨.symbol, none⟩], action := some .bounded }]⟩,
    ⟨"mark", [{ items := [.terminal ⟨.punctuation, none⟩] }, {}]⟩]

theorem Grammar.keeping_words : ∀ r ∈ words.rules, ∀ a ∈ r.alternatives, a.Keeping := by
  have hactions : ∀ r ∈ words.rules, ∀ a ∈ r.alternatives,
      a.action = none ∨ a.action = some .bounded := by
    rw [words, rules_ofRules (by decide)]
    simp
  intro r hr a ha
  rcases hactions r hr a ha with hn | hn
  · exact ⟨fun _ _ h => (nomatch hn.symm.trans h), fun _ _ h => (nomatch hn.symm.trans h)⟩
  · constructor
    · intro name run h values start stop
      cases hn.symm.trans h
      exact .bounded values
    · intro name run h values start stop
      cases hn.symm.trans h
      rintro ⟨⟩

/-- Two words are found among comments, of which the first has a mark. Of a span only the words inside it
are found. -/
theorem Session.partition_words :
    (∃ found cursor,
      ((⟨{ grammar := .words }, none⟩ : Session).parseAll (.ofString "/**/a/**/, b/**/") none 4).result =
        .ok found ∧ Lexer.lex {} (.ofString "/**/a/**/, b/**/") 0 none (some 0) = .ok cursor ∧
      cursor.Partition found ∧ found.map (fun k => (k.start, k.stop)) = [(4, 10), (11, 12)]) ∧
    ∃ found, ∃ cursor : Cursor, ((level 4).expandFull
        ⟨.span 0 6, "toplevel", some 0, true, some (.ofString "(a, b) c")⟩ { grammar := .words } {}).1 =
        .ok found ∧
      cursor.Partition found ∧ found.map (fun k => (k.start, k.stop)) = [(1, 3), (4, 5)] := by
  have h := Session.partition_parseAll (c := { grammar := .words }) rfl Grammar.keeping_words
  constructor
  · have hrun : (match ((⟨{ grammar := .words }, none⟩ : Session).parseAll
        (.ofString "/**/a/**/, b/**/") none 4).result with
        | .ok found => found.map (fun k => (k.start, k.stop)) == [(4, 10), (11, 12)]
        | _ => false) = true := by
      decide +kernel
    split at hrun
    · rename_i found hf
      obtain ⟨cursor, hl, hp, -⟩ := h.1 none _ none 4 found rfl (fun _ hn => nomatch hn) hf
      exact ⟨found, cursor, hf, hl, hp, by simpa using hrun⟩
    · cases hrun
  · have hrun : (match ((level 4).expandFull
        ⟨.span 0 6, "toplevel", some 0, true, some (.ofString "(a, b) c")⟩ { grammar := .words } {}).1 with
        | .ok found => found.map (fun k => (k.start, k.stop)) == [(1, 3), (4, 5)]
        | _ => false) = true := by
      decide +kernel
    split at hrun
    · rename_i found hf
      obtain ⟨text, cursor, -, -, hp⟩ := h.2 _ 4 {} found hf
      exact ⟨found, cursor, hf, hp, by simpa using hrun⟩
    · cases hrun

end Outline
