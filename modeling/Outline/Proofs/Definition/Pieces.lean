import Outline.Proofs.Definition.Forms
import Outline.Proofs.Session.Comments
import Outline.Proofs.Session.Partition

/-!
# Reading pieces

The engine reads a source piece by piece: at every place its start rule comes to the piece that is next, and
its rounds go on until all words are used up or no piece is next.

* `Piece.settings`, `Piece.exact_grammar`: what pieces are read with;
* `Piece.Holds`, `Piece.Answers`: a match that holds a piece, and what a run has to say about one;
* `Piece.answers_alternative`, `Piece.answers_item`, **`Piece.answers_declaration`**: an alternative with a
  form, and the two rules;
* `Piece.Ends`, **`Piece.ends_rounds`**: what the rounds have to say about all words.
-/

namespace Outline

open Engine

theorem Cursor.Row.inRow {c : Cursor} (h : c.Row) : c.InRow := by
  have := h.index
  unfold InRow
  omega

theorem Cursor.Row.sameRow {c d : Cursor} (h : c.Row) (hrow : c.SameRow d) (hi : 0 ≤ d.index) :
    d.Row := by
  obtain ⟨ht, hls, hs, he⟩ := hrow
  refine ⟨hi, ?_, ?_, ?_⟩
  · rw [hs, he]
    exact h.start_le
  · rw [he, ht]
    exact h.stop_le
  · rw [hs, he, hls]
    exact h.row

/-- The lexeme that is next starts at an offset of the text. -/
theorem Cursor.Row.start_of_peek {c : Cursor} (h : c.Row) {l : Lexeme} (hl : c.peek = .ok (some l)) :
    ∃ o : Nat, l.start = o ∧ o ≤ c.text.length := by
  have hw := h.ordered.within c.index l le_rfl (lexemeAt_of_peek hl).2
  have hstop := h.stop_le
  exact ⟨l.start.toNat, by omega, by omega⟩

namespace Piece

/-- What grammar sources are read with. -/
def settings : Settings := { grammar, lexer }

theorem exact_alternative (f : Form) : f.alternative.Exact := by
  rintro name run h values start stop
  cases h
  exact .bounded _

theorem exact_grammar : ∀ r ∈ settings.grammar.rules, ∀ a ∈ r.alternatives, a.Exact := by
  have hrules : settings.grammar.rules =
      [⟨"declaration", forms.map Form.alternative ++ [⟨[.rule "item"], none⟩]⟩,
        ⟨"item", itemForms.map Form.alternative⟩] := rfl
  have hforms : ∀ fs : List Form, ∀ a ∈ fs.map Form.alternative, a.Exact := by
    intro fs a ha
    obtain ⟨f, -, rfl⟩ := List.mem_map.mp ha
    exact exact_alternative f
  intro r hr a ha
  rw [hrules] at hr
  simp only [List.mem_cons, List.not_mem_nil, or_false] at hr
  obtain rfl | rfl := hr
  · obtain ha | ha := List.mem_append.mp ha
    · exact hforms _ a ha
    · rw [List.mem_singleton.mp ha]
      rintro name run ⟨⟩
  · exact hforms _ a ha

/-- A match that holds a piece and is so many words long. -/
structure Holds (cursor : Cursor) (p : Piece) (n : Nat) (m : Match) : Prop where
  passed : cursor.Passed n m.cursor
  construct : ∃ k, m.construct = some k ∧ k.fields = p.fields ∧ k.start ≤ cursor.text.length

/-- What matching comes to where a piece is next, or none. -/
def Answers (cursor : Cursor) (r : Except Failure (Option Match)) : Option (Piece × Nat) → Prop
  | none => r = .ok none
  | some (p, n) => ∃ m, r = .ok (some m) ∧ Holds cursor p n m

section

variable {cursor : Cursor} {next : Option (Piece × Nat)}

theorem not_answers_error {e : Failure} : ¬ Answers cursor (.error e) next := by
  intro h
  cases next with
  | none => cases h
  | some next =>
    obtain ⟨m, hr, -⟩ := h
    cases hr

theorem eq_none_of_answers (h : Answers cursor (.ok none) next) : next = none := by
  cases next with
  | none => rfl
  | some next =>
    obtain ⟨m, hr, -⟩ := h
    cases hr

theorem holds_of_answers {m : Match} (h : Answers cursor (.ok (some m)) next) :
    ∃ p n, next = some (p, n) ∧ Holds cursor p n m := by
  cases next with
  | none => cases h
  | some next =>
    obtain ⟨m, hr, hm⟩ := h
    cases hr
    exact ⟨_, _, rfl, hm⟩

end

/-! ## Alternatives -/

/-- All forms have terminals, for lexemes that contribute their texts. -/
theorem terminals_of_form : ∀ f ∈ forms ++ itemForms, f.terminals ≠ [] ∧
    ∀ t ∈ f.terminals, t.kind ≠ .comment ∧ t.kind ≠ .semanticList := by decide

theorem texts_findings {source : Text} {ls : List Lexeme}
    (h : ∀ l ∈ ls, l.kind ≠ .comment ∧ l.kind ≠ .semanticList) :
    texts ((ls.map (Finding.ofLexeme · source)).map (·.value)) = (ls.map (·.word source)).map (·.text) := by
  simp only [texts, List.map_map]
  refine List.map_congr_left fun l hl => ?_
  obtain ⟨h1, h2⟩ := h l hl
  simp [Finding.ofLexeme, Lexeme.value, h1, h2, Lexeme.word]

section

variable {room : Nat} {cursor : Cursor} {name : String} {s s' : State}
  {r : Except Failure (Option Match)}

theorem not_malformed (hc : cursor.Row) {a : Alternative} (ha : a.Exact) {e : Failure}
    (h : Level.AlternativeAttempt (level room) settings cursor name a s (.error e) s') :
    ∀ source value defect, e ≠ .malformed source value defect :=
  Level.clean_alternative exact_grammar (Level.advances settings room)
    (Level.parsing (fun r hr a ha => (exact_grammar r hr a ha).direct) room)
    (Level.clean exact_grammar room) hc.ordered ha h

theorem build_form {below : Level} {f : Form} {values : List Value} {start stop : Int} :
    below.build name f.alternative values start stop cursor settings s =
      (f.alternative.verdict name cursor
        (.tuple ((f.piece (texts values)).fields ++ [.int start, .int stop])), s) :=
  Level.build_run rfl

theorem build_handedOn {below : Level} (fields : List Value) {start stop : Int} :
    below.build name ⟨[.rule "item"], none⟩ [.tuple fields] start stop cursor settings s =
      (Alternative.verdict ⟨[.rule "item"], none⟩ name cursor
        (.tuple (fields ++ [.int start, .int stop])), s) :=
  Level.build_run rfl

/-- What is built from the fields of a piece holds the piece, unless it is malformed. -/
theorem holds_of_verdict {a : Alternative} {p : Piece} {n : Nat} {d : Cursor} {start stop : Int}
    (hd : cursor.Passed n d)
    (hr : (a.verdict name d (.tuple (p.fields ++ [.int start, .int stop]))).map some = r)
    (hclean : ∀ source value defect, r ≠ .error (.malformed source value defect)) :
    Answers cursor r (some (p, n)) := by
  obtain ⟨found, hv⟩ | ⟨source, defect, hv⟩ := a.verdict_cases name d
    (.tuple (p.fields ++ [.int start, .int stop]))
  · rw [hv] at hr
    subst hr
    refine ⟨_, rfl, hd, ?_⟩
    rw [Alternative.verdict_of_ne (by simp), Construct.ofValue_bounds] at hv
    cases hk : Construct.ofBounds p.fields start stop (some d.text.length) with
    | error defect => rw [hk] at hv; cases hv
    | ok k =>
      rw [hk] at hv
      cases hv
      obtain ⟨hf, -, -, hw⟩ := Construct.ofBounds_eq_ok_iff.mp hk
      have hstop := hw.2 _ rfl
      have hstart := hw.1
      refine ⟨k, rfl, hf, ?_⟩
      rw [← hd.ahead.row.1]
      omega
  · rw [hv] at hr
    exact absurd hr.symm (hclean _ _ _)

theorem answers_alternative {f : Form} (hf : f ∈ forms ++ itemForms) (hc : cursor.Row)
    (h : Level.AlternativeAttempt (level room) settings cursor name f.alternative s r s') :
    Answers cursor r (f.read? cursor.words) := by
  obtain ⟨hne, hkinds⟩ := terminals_of_form f hf
  have hclean : ∀ source value defect, r ≠ .error (.malformed source value defect) := by
    rintro source value defect rfl
    exact not_malformed hc (exact_alternative f) h source value defect rfl
  have hitems : ∀ {offset : Int} {s' r}, (level room).matchItems f.alternative.items
      { stop := offset, cursor } settings s.tally = (r, s') → _ :=
    fun h => Level.matchItems_terminals (fun t ht => (hkinds t ht).1) hc.index h
  cases h with
  | aborted h => cases h
  | lost h =>
    obtain ⟨o, ho⟩ := Cursor.offset_eq_ok_iff.mpr hc.inRow
    rw [ho] at h
    cases h
  | raised _ h => obtain ⟨-, ⟨-, hr⟩ | ⟨-, d, -, hr⟩⟩ := hitems h <;> cases hr
  | noMatch _ h =>
    obtain ⟨-, ⟨hfit, -⟩ | ⟨-, d, -, hr⟩⟩ := hitems h
    · rw [Form.read?, hfit]
      rfl
    · cases hr
  | @built offset k r s₁ _ ho h hb =>
    obtain ⟨-, ⟨-, hr⟩ | ⟨hfit, d, hd, hr⟩⟩ := hitems h
    · cases hr
    cases hr
    rw [Form.read?, hfit, if_pos rfl]
    -- the texts that the form's action is handed are those of the words that were taken
    have hempty : f.alternative.isEmpty = false := by
      simpa [Alternative.isEmpty, Form.alternative] using hne
    have htexts : texts (Level.valuesOf f.alternative
        (Collected.behind { stop := offset, cursor } f.terminals.length d)) =
        (cursor.words.take f.terminals.length).map (·.text) := by
      rw [Level.valuesOf, hempty, Collected.behind, if_neg Bool.false_ne_true, Collected.values_addAll,
        texts_findings, List.map_take, Cursor.words]
      intro l hl
      obtain ⟨t, ht, hk⟩ := Terminal.kind_of_fit hfit (l.word cursor.text)
        (by rw [Cursor.words, ← List.map_take]; exact List.mem_map_of_mem hl)
      rw [show l.kind = t.kind from hk]
      exact hkinds t ht
    rw [build_form, htexts] at hb
    cases hb
    exact holds_of_verdict hd rfl hclean

/-- Forms are tried in order; where none of them fits, what is behind them is tried. -/
theorem answers_forms (hc : cursor.Row) {rest : List Alternative} : ∀ {fs : List Form} {number : Nat}
    {s : State}, (∀ f ∈ fs, f ∈ forms ++ itemForms) →
      (level room).tryAlternatives cursor name number (fs.map Form.alternative ++ rest) settings s =
        (r, s') →
      (∃ next, Form.first? fs cursor.words = some next ∧ Answers cursor r (some next)) ∨
        Form.first? fs cursor.words = none ∧ ∃ number s₁, s₁.run.nesting = s.run.nesting ∧
          (level room).tryAlternatives cursor name number rest settings s₁ = (r, s')
  | [], number, s, _, h => Or.inr ⟨rfl, number, s, rfl, h⟩
  | f :: fs, number, s, hfs, h => by
    obtain ⟨hf, hfs⟩ := List.forall_mem_cons.mp hfs
    have hfirst : Form.first? (f :: fs) cursor.words =
        (f.read? cursor.words).or (Form.first? fs cursor.words) := by
      rw [Form.first?, List.findSome?_cons]
      cases f.read? cursor.words <;> rfl
    rw [hfirst]
    have hanswers : ∀ {r s'}, Level.AlternativeAttempt (level room) settings cursor name f.alternative s r s' →
        Answers cursor r (f.read? cursor.words) := fun h => answers_alternative hf hc h
    rcases Level.tryAlternatives_cons (level room) settings h with
      ⟨e, he, -⟩ | ⟨m, s₁, hm, rfl, -⟩ | ⟨s₁, hn, h⟩
    · exact absurd (hanswers he) not_answers_error
    · obtain ⟨p, n, hread, hholds⟩ := holds_of_answers (hanswers hm)
      rw [hread]
      exact Or.inl ⟨_, rfl, m, rfl, hholds⟩
    · rw [eq_none_of_answers (hanswers hn), Option.none_or]
      obtain h | ⟨hnone, number', s₂, hs, h⟩ := answers_forms hc hfs h
      · exact Or.inl h
      · exact Or.inr ⟨hnone, number', s₂, hs.trans (hn.steady (Level.steady room)), h⟩

/-! ## Rules -/

/-- Items are answered from their forms. -/
theorem answers_item (hc : cursor.Row) (ha : cursor.entry "item" ∉ s.run.active)
    (hd : (s.run.depth : Int) < settings.limits.maxDepth)
    (h : (level (room + 1)).match? cursor "item" settings s = (r, s')) :
    Answers cursor r (Form.first? itemForms cursor.words) := by
  cases Level.ruleAttempt (level room) settings cursor "item" h with
  | undefined hn => cases alternatives_item.symm.trans hn
  | again _ ha' => exact absurd ha' ha
  | tooDeep _ _ hd' => omega
  | @entered as _ s₁ has _ _ hr =>
    cases alternatives_item.symm.trans has
    rw [← List.append_nil (itemForms.map Form.alternative)] at hr
    obtain ⟨next, hnext, hanswers⟩ | ⟨hnone, number, s₂, -, hr⟩ :=
      answers_forms hc (fun f hf => List.mem_append_right _ hf) hr
    · rw [hnext]
      exact hanswers
    · cases hr
      rw [hnone]
      rfl

/-- The alternative without an action hands on what the rule for items found. -/
theorem answers_handedOn (hc : cursor.Row) (ha : cursor.entry "item" ∉ s.run.active)
    (hd : (s.run.depth : Int) < settings.limits.maxDepth)
    (h : Level.AlternativeAttempt (level (room + 1)) settings cursor name ⟨[.rule "item"], none⟩ s r s') :
    Answers cursor r (Form.first? itemForms cursor.words) := by
  have hexact : Alternative.Exact ⟨[.rule "item"], none⟩ := by rintro _ _ ⟨⟩
  have hclean : ∀ source value defect, r ≠ .error (.malformed source value defect) := by
    rintro source value defect rfl
    exact not_malformed hc hexact h source value defect rfl
  have hitem : ∀ {r s'}, (level (room + 1)).match? cursor "item" settings s.tally = (r, s') →
      Answers cursor r (Form.first? itemForms cursor.words) := fun h => answers_item (s := s.tally) hc ha hd h
  cases h with
  | aborted h => cases h
  | lost h =>
    obtain ⟨o, ho⟩ := Cursor.offset_eq_ok_iff.mpr hc.inRow
    rw [ho] at h
    cases h
  | raised _ h =>
    rcases Level.matchItems_cons _ _ h with ⟨e, he, hr⟩ | ⟨-, hr⟩ | ⟨k, s₁, -, hr⟩ <;> cases hr
    cases he with
    | raised h => exact absurd (hitem h) not_answers_error
  | noMatch _ h =>
    rcases Level.matchItems_cons _ _ h with ⟨e, -, hr⟩ | ⟨hn, -⟩ | ⟨k, s₁, -, hr⟩
    · cases hr
    · cases hn with
      | noMatch h => exact hitem h
      | dropped h =>
        obtain ⟨p, n, -, hm⟩ := holds_of_answers (hitem h)
        obtain ⟨k, hk, -⟩ := hm.construct
        cases hk
    · cases hr
  | @built offset k r s₁ _ ho h hb =>
    rcases Level.matchItems_cons _ _ h with ⟨e, -, hr⟩ | ⟨-, hr⟩ | ⟨k', s₂, hk, hr⟩ <;> cases hr
    cases hk with
    | @construct _ d found _ h =>
      obtain ⟨p, n, hnext, hm⟩ := holds_of_answers (hitem h)
      obtain ⟨found', hfound, hfields, -⟩ := hm.construct
      cases hfound
      have hb := (build_handedOn found.fields).symm.trans hb
      rw [hfields] at hb
      cases hb
      rw [hnext]
      exact holds_of_verdict hm.passed rfl hclean

/-- **The start rule comes to the piece that is next.** -/
theorem answers_declaration (hc : cursor.Row) (hs : s.run.nesting = (0, []))
    (h : (level (room + 2)).match? cursor "declaration" settings s = (r, s')) :
    Answers cursor r (next? cursor.words) := by
  have hdepth : s.run.depth = 0 := congrArg Prod.fst hs
  have hactive : s.run.active = [] := congrArg Prod.snd hs
  rw [next?]
  cases Level.ruleAttempt (level (room + 1)) settings cursor "declaration" h with
  | undefined hn => cases alternatives_declaration.symm.trans hn
  | again _ ha => rw [hactive] at ha; cases ha
  | tooDeep _ _ hd =>
    rw [hdepth] at hd
    exact absurd hd (by decide)
  | @entered as _ s₁ has _ _ hr =>
    cases alternatives_declaration.symm.trans has
    obtain ⟨next, hnext, hanswers⟩ | ⟨hnone, number, s₂, hs₂, hr⟩ :=
      answers_forms hc (fun f hf => List.mem_append_left _ hf) hr
    · rw [hnext]
      exact hanswers
    · have hdepth₂ : s₂.run.depth = s.run.depth + 1 := congrArg Prod.fst hs₂
      have hactive₂ : s₂.run.active = cursor.entry "declaration" :: s.run.active := congrArg Prod.snd hs₂
      have hitem : ∀ {r s'}, Level.AlternativeAttempt (level (room + 1)) settings cursor "declaration"
          ⟨[.rule "item"], none⟩ s₂ r s' → Answers cursor r (Form.first? itemForms cursor.words) := by
        refine fun h => answers_handedOn hc ?_ ?_ h
        · rw [hactive₂, hactive]
          simp [Cursor.entry]
        · rw [hdepth₂, hdepth]
          decide
      rw [hnone, Option.none_or]
      rcases Level.tryAlternatives_cons _ _ hr with ⟨e, he, rfl⟩ | ⟨m, s₃, hm, rfl, -⟩ | ⟨s₃, hn, hr⟩
      · exact hitem he
      · exact hitem hm
      · cases hr
        exact hitem hn

end

/-! ## Rounds -/

section

variable {room : Nat} {r : Matching.Rounds} {cursor : Cursor}

theorem located_of_fields {k : Construct} {p : Piece} (h : k.fields = p.fields) :
    Located.ofConstruct k = some ⟨p, k.start⟩ := by
  rw [Located.ofConstruct, h, ofFields_fields]
  rfl

/-- The rounds take up all pieces, or complain about a place where no piece is next. -/
def Ends (cursor : Cursor) (found : Array Construct) (out : Except Failure (Array Construct)) : Prop :=
  (∃ (ks : List Construct) (ps : List Located), out = .ok (found ++ ks) ∧
    ks.filterMap Located.ofConstruct = ps ∧ (∀ p ∈ ps, p.offset ≤ cursor.text.length) ∧
      SpellsPieces Unquotes cursor.words (ps.map (·.piece))) ∨
    ∃ o : Nat, out = .error (.parse cursor.text o "declaration" .expected) ∧ o ≤ cursor.text.length ∧
      ∀ ps, ¬ SpellsPieces Unquotes cursor.words ps

/-- What the rounds come to behind a piece, and before it. -/
theorem Ends.cons {cursor' : Cursor} {found : Array Construct} {k : Construct} {p : Piece}
    {out : Except Failure (Array Construct)} (h : Ends cursor' (found ++ [k]) out)
    (htext : cursor'.text = cursor.text)
    (hspells : ∀ ps, SpellsPieces Unquotes cursor.words ps ↔
      ∃ qs, ps = p :: qs ∧ SpellsPieces Unquotes cursor'.words qs)
    (hfields : k.fields = p.fields) (hstart : k.start ≤ cursor.text.length) : Ends cursor found out := by
  unfold Ends at h ⊢
  rw [htext] at h
  obtain ⟨ks, ps, hout, hps, hle, hs⟩ | ⟨o, hout, hle, hnot⟩ := h
  · refine Or.inl ⟨k :: ks, ⟨p, k.start⟩ :: ps, ?_, ?_, ?_, ?_⟩
    · rw [hout]
      simp
    · rw [List.filterMap_cons_some (located_of_fields hfields), hps]
    · exact List.forall_mem_cons.mpr ⟨hstart, hle⟩
    · exact (hspells _).mpr ⟨_, rfl, hs⟩
  · refine Or.inr ⟨o, hout, hle, fun ps hs => ?_⟩
    obtain ⟨qs, -, hqs⟩ := (hspells ps).mp hs
    exact hnot qs hqs

theorem answers_guarded {s s' : State} {o : Except Failure (Option Match)} (hc : cursor.Row)
    (hs : s.run.nesting = (0, []))
    (h : Matching.guarded (level (room + 2)).match? cursor "declaration" settings s = (o, s')) :
    Answers cursor o (next? cursor.words) := by
  obtain ⟨-, h⟩ | ⟨h, -⟩ := Level.guarded_run _ _ _ _ h
  · exact answers_declaration hc hs h
  · exact absurd (answers_declaration hc hs h) not_answers_error

/-- What a round takes up is what the rounds behind it go on with. -/
theorem takeUp_run (haccept : ∀ k s, r.accept k settings s = (.ok [k], s)) (rule : Matching) (fuel : Nat)
    {l : Lexeme} {found : Array Construct} {m : Match} {k : Construct} (hk : m.construct = some k)
    (hi : m.cursor.index ≠ cursor.index) (s : State) : ∃ s', s'.run = s.run ∧
      r.takeUp rule fuel cursor l found (some m) settings s =
        rule.rounds r fuel m.cursor (found ++ [k]) settings s' := by
  have hcontribution : r.contribution m settings s = (.ok [k], s) := by
    rw [Matching.Rounds.contribution, hk]
    exact haccept k s
  rw [Matching.Rounds.takeUp]
  simp only [if_neg hi]
  rw [bind_run_ok hcontribution]
  by_cases hr : r.reports = true
  · simp only [if_pos hr]
    let percent := 100 * m.cursor.index / m.cursor.size
    exact ⟨{ s with events := .progress percent :: s.events }, rfl, rfl⟩
  · simp only [if_neg hr]
    exact ⟨s, rfl, rfl⟩

theorem ends_rounds (hname : r.name = "declaration") (hskip : r.skipComments = true)
    (haccept : ∀ k s, r.accept k settings s = (.ok [k], s)) (fuel : Nat) :
    ∀ (cursor : Cursor) (found : Array Construct) (s : State), cursor.Row → cursor.unread ≤ fuel →
      s.run.nesting = (0, []) →
      Ends cursor found
        (Matching.rounds (level (room + 2)).match? r fuel cursor found settings s).1 := by
  induction fuel using Nat.strong_induction_on with
  | _ fuel ih =>
    intro cursor found s hc hfuel hs
    cases hcontent : cursor.content with
    | nil =>
      rw [Matching.rounds_atEnd hskip fuel hc.index hcontent]
      refine Or.inl ⟨[], [], by simp, rfl, by simp, ?_⟩
      rw [Cursor.words, hcontent]
      exact .nil
    | cons l rest =>
      obtain ⟨a, fuel₁, hrow, hi, hsame, hpeek, hl, hunread, hle, hrun⟩ :=
        Matching.rounds_skip (level (room + 2)).match? settings hskip fuel hc.index hcontent hfuel
      have ha : a.Row := hc.sameRow hrow hi
      have hwords : a.words = cursor.words := by rw [Cursor.words, hsame, hrow.1, Cursor.words]
      have hne : a.words ≠ [] := by rw [hwords, Cursor.words, hcontent]; simp
      rw [hrun, Matching.rounds_lexeme hpeek (fun h => hl h.2), hname]
      rcases hg : Matching.guarded (level (room + 2)).match? a "declaration" settings s with ⟨o, s₁⟩
      have hanswers := answers_guarded ha hs hg
      cases o with
      | error e => exact absurd hanswers not_answers_error
      | ok m =>
        rw [bind_run_ok hg]
        cases m with
        | none =>
          obtain ⟨o, ho, hle⟩ := ha.start_of_peek hpeek
          refine Or.inr ⟨o, ?_, by rwa [← hrow.1], fun ps => ?_⟩
          · rw [Matching.Rounds.takeUp, hname, hrow.1, ho]
            rfl
          · rw [← hwords]
            exact not_spellsPieces hne (eq_none_of_answers hanswers)
        | some m =>
          obtain ⟨p, n, hnext, hm⟩ := holds_of_answers hanswers
          obtain ⟨k, hk, hfields, hstart⟩ := hm.construct
          have hlt := hm.passed.lt (pos_of_next? hnext)
          obtain ⟨s₂, hs₂, hrun⟩ := takeUp_run haccept (level (room + 2)).match? fuel₁ hk
            (by omega : m.cursor.index ≠ a.index) s₁
          rw [hrun]
          have hfuel₁ : m.cursor.unread ≤ fuel₁ := by
            unfold Cursor.unread at hunread ⊢
            rw [hm.passed.ahead.row.size_eq]
            omega
          have hs₁ : s₂.run.nesting = (0, []) := by
            rw [hs₂, ← hs]
            have hsteady := Matching.steady_guarded (Level.steady (room + 2)).match? a "declaration"
              settings s
            rwa [hg] at hsteady
          have hend := ih fuel₁ (by omega) m.cursor (found ++ [k]) s₂ (ha.ahead hm.passed.ahead) hfuel₁ hs₁
          have htext : m.cursor.text = cursor.text := hm.passed.ahead.row.1.trans hrow.1
          have hspells (ps : List Piece) : SpellsPieces Unquotes cursor.words ps ↔
              ∃ qs, ps = p :: qs ∧ SpellsPieces Unquotes m.cursor.words qs := by
            rw [← hwords, hm.passed.words]
            exact spellsPieces_iff_of_next? hnext
          exact hend.cons htext hspells hfields (hrow.1 ▸ hstart)

end

end Piece

end Outline
