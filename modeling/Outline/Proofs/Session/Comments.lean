import Outline.Proofs.Engine.Round
import Outline.Proofs.Lexer.Comments
import Outline.Proofs.Matching.Abreast
import Outline.Session

/-!
# Parsing does not see comments

A session that passes comments over finds the same whether its lexer makes lexemes of comments or not, if
its grammar does not speak of them.

* `Cursor.peek_content`: what is next in a row, and what is left behind it;
* `Matching.rounds_atEnd`, `Matching.rounds_skip`: rounds over comments;
* `Matching.endEqual_rounds`: rounds over rows that differ in comments alone;
* `Settings.ignoring`, **`Session.parseAll_ignoring`**: a parse with and without lexemes for comments.
-/

namespace Outline

open Engine Lexeme

/-! ## Rounds over comments -/

namespace Cursor

variable {c : Cursor}

/-- What is next in a row is the first that is left to read. -/
theorem peek_content (h : 0 ≤ c.index) :
    (c.peek = .ok none ∧ c.content = []) ∨ ∃ l, c.peek = .ok (some l) ∧ c.index < c.size ∧
      c.content = if l.kind = .comment then c.advance.content else l :: c.advance.content := by
  obtain ⟨p, hp⟩ := Int.eq_ofNat_of_zero_le h
  by_cases hend : (c.size : Int) ≤ c.index
  · refine Or.inl ⟨?_, content_eq_nil hend⟩
    rw [peek, atEnd, if_pos (by simpa using hend)]
  · have hlen : p < c.lexemes.toList.length := by
      rw [Array.length_toList]
      unfold size at hend
      omega
    have hnext : c.advance.index.toNat = p + 1 := by
      rw [index_advance (by omega)]
      omega
    refine Or.inr ⟨c.lexemes.toList[p], ?_, by omega, ?_⟩
    · rw [peek, atEnd, if_neg (by simpa using hend), hp, lexemeAt_natCast hlen]
      rfl
    · rw [content, hp, Int.toNat_natCast, List.drop_eq_getElem_cons hlen, spoken_cons, content, hnext]
      rfl

end Cursor

namespace Matching

variable {rule : Matching} {r : Rounds} {c : Settings}

/-- Where no lexeme is left but comments, the rounds come to an end. -/
theorem rounds_atEnd (hr : r.skipComments = true) (fuel : Nat) : ∀ {a : Cursor}, 0 ≤ a.index →
    a.content = [] → ∀ found s, rule.rounds r fuel a found c s = (.ok found, s) := by
  induction fuel with
  | zero => exact fun _ _ _ _ => rfl
  | succ fuel ih =>
    intro a hi ha found s
    rcases Cursor.peek_content hi with ⟨hp, -⟩ | ⟨l, hp, hlt, hcontent⟩
    · exact rounds_done hp
    · rw [ha] at hcontent
      by_cases hl : l.kind = .comment
      · rw [if_pos hl] at hcontent
        rw [rounds_comment hp ⟨hr, hl⟩]
        exact ih (by rw [Cursor.index_advance hlt]; omega) hcontent.symm found s
      · rw [if_neg hl] at hcontent
        cases hcontent

/-- Rounds pass over the comments before a lexeme. -/
theorem rounds_skip (rule : Matching) (c : Settings) (hr : r.skipComments = true) (fuel : Nat) :
    ∀ {a : Cursor} {l : Lexeme} {rest : List Lexeme}, 0 ≤ a.index → a.content = l :: rest →
      a.unread ≤ fuel → ∃ a₁ fuel₁, a.SameRow a₁ ∧ 0 ≤ a₁.index ∧ a₁.content = a.content ∧
        a₁.peek = .ok (some l) ∧ l.kind ≠ .comment ∧ a₁.unread ≤ fuel₁ + 1 ∧ fuel₁ + 1 ≤ fuel ∧
        ∀ found s, rule.rounds r fuel a found c s = rule.rounds r (fuel₁ + 1) a₁ found c s := by
  induction fuel with
  | zero =>
    intro a l rest hi ha hf
    rcases Cursor.peek_content hi with ⟨-, hn⟩ | ⟨l', -, hlt, -⟩
    · rw [ha] at hn
      cases hn
    · unfold Cursor.unread at hf
      omega
  | succ fuel ih =>
    intro a l rest hi ha hf
    rcases Cursor.peek_content hi with ⟨-, hn⟩ | ⟨l', hp, hlt, hcontent⟩
    · rw [ha] at hn
      cases hn
    · by_cases hl : l'.kind = .comment
      · rw [if_pos hl] at hcontent
        have hadv := Cursor.index_advance hlt
        have hf' : a.advance.unread ≤ fuel := by
          unfold Cursor.unread at hf ⊢
          rw [hadv]
          show ((a.size : Int) - (a.index + 1)).toNat ≤ fuel
          omega
        obtain ⟨a₁, fuel₁, hrow, hi₁, hc₁, hp₁, hl₁, hu₁, hle, hrun⟩ :=
          ih (by rw [hadv]; omega) (hcontent.symm.trans ha) hf'
        refine ⟨a₁, fuel₁, hrow, hi₁, hc₁.trans hcontent.symm, hp₁, hl₁, hu₁,
          hle.trans (Nat.le_succ _), fun found s => ?_⟩
        rw [rounds_comment hp ⟨hr, hl⟩]
        exact hrun found s
      · rw [if_neg hl, ha] at hcontent
        obtain ⟨rfl, -⟩ := List.cons_eq_cons.mp hcontent
        exact ⟨a, fuel, .refl a, hi, rfl, hp, hl, hf, le_rfl, fun _ _ => rfl⟩

/-! ## Rounds over two rows -/

variable {x : Lexer} {a b : Cursor}

/-- Guarded matches agree where the matches do. -/
theorem agrees_guarded {name : String} (hab : a.Alike b)
    (h : Agrees c (c.withLexer x) a b (Match.Abreast a b) (rule a name) (rule b name)) :
    Agrees c (c.withLexer x) a b (Match.Abreast a b) (rule.guarded a name) (rule.guarded b name) := by
  intro s s' hs
  have hrun := h s s' hs
  unfold guarded
  rw [bind_run_ok (attempt_run _ _ _), bind_run_ok (attempt_run _ _ _)]
  generalize rule a name c s = res at hrun
  generalize rule b name (c.withLexer x) s' = res' at hrun
  cases hrun with
  | ok hm hs₁ => exact .ok hm hs₁
  | @error s₁ s₁' e hs₁ =>
    by_cases he : e = .stackOverflow
    · subst he
      obtain ⟨offset, ho, ho'⟩ := hab.offset
      show EndAlike a b _
        ((do fail (.nestingLimit name s₁.run.depth (← access a.offset)) : Engine (Option Match)) c s₁)
        ((do fail (.nestingLimit name s₁'.run.depth (← access b.offset)) : Engine (Option Match))
          (c.withLexer x) s₁')
      rw [ho, ho', hs₁.depth]
      exact .error _ hs₁
    · cases e <;> first | exact absurd rfl he | exact .error _ hs₁

theorem agrees_contribution
    (hr : ∀ k, Agrees c (c.withLexer x) a b (· = ·) (r.accept k) (r.accept k)) (m m' : Match)
    (hm : m'.construct = m.construct) :
    Agrees c (c.withLexer x) a b (· = ·) (r.contribution m) (r.contribution m') := by
  unfold Rounds.contribution
  rw [hm]
  split
  · exact (Agrees.emit _ _).bind fun _ _ _ => .pure rfl
  · exact hr _

/-- What was matched by readers abreast is taken up alike, if the rounds behind it come to the same. -/
theorem endEqual_takeUp (hab : a.Alike b)
    (hr : ∀ k, Agrees c (c.withLexer x) a b (· = ·) (r.accept k) (r.accept k))
    (hsteady : ∀ k, (r.accept k).Steady) {fuel fuel' : Nat} {l : Lexeme} {m m' : Option Match}
    (hm : Match.Abreast a b m m') {s s' : State} (hs : s.run.active = []) (hss : s.Abreast a b s')
    (hnext : ∀ n d e, Cursor.Abreast a b n d e → a.index < d.index → b.index < e.index →
      ∀ found s s', s.run.active = [] → s.Abreast d e s' → EndEqual
        (rule.rounds r fuel d found c s) (rule.rounds r fuel' e found (c.withLexer x) s'))
    (found : Array Construct) : EndEqual
      (r.takeUp rule fuel a l found m c s) (r.takeUp rule fuel' b l found m' (c.withLexer x) s') := by
  unfold Rounds.takeUp
  cases hm with
  | none =>
    rw [hab.text]
    exact ⟨a, b, .error _ hss⟩
  | @some n d e h k =>
    have hidle : d.index = a.index ↔ e.index = b.index := h.index_eq_iff .start
    by_cases hi : d.index = a.index
    · simp only [hi, hidle.mp hi, if_true]
      rw [hab.text]
      exact ⟨a, b, .error _ hss⟩
    · have hle : a.index < d.index ∧ b.index < e.index := by
        rcases Nat.eq_zero_or_pos n with rfl | hpos
        · exact absurd (h.unique .start).1 (fun hd => hi (by rw [hd]))
        · exact Cursor.Abreast.start.index_lt h hpos
      simp only [hi, hidle.not.mp hi, if_false]
      have hkeep := steady_contribution r hsteady ⟨d, k⟩ c s
      refine (agrees_contribution hr ⟨d, k⟩ ⟨e, k⟩ rfl s s' hss).bind
        (fun err _ _ hss₁ => ⟨a, b, .error err hss₁⟩) fun more more' s₁ s₁' hc hmore hss₁ => ?_
      subst hmore
      rw [hc] at hkeep
      have hs₁ : s₁.run.active = [] := (congrArg Prod.snd hkeep).trans hs
      have hgo := fun s₂ s₂' => hnext n d e h hle.1 hle.2 (found ++ more) s₂ s₂'
      have hss₂ := hss₁.restart hs₁ d e
      by_cases hrep : r.reports = true
      · simp only [hrep, if_true]
        exact hgo _ _ hs₁ ⟨hss₂.steps, hss₂.depth, hss₂.active, hss₂.text, hss₂.cache⟩
      · simp only [hrep]
        exact hgo _ _ hs₁ hss₂

/-- Rounds over rows that differ in comments alone come to the same. -/
theorem endEqual_rounds (hg : c.grammar.Uncommented)
    (hd : ∀ r ∈ c.grammar.rules, ∀ alt ∈ r.alternatives, alt.Direct) (room : Nat)
    (hskip : r.skipComments = true)
    (hr : ∀ a b k, Agrees c (c.withLexer x) a b (· = ·) (r.accept k) (r.accept k))
    (hsteady : ∀ k, (r.accept k).Steady) (fuel : Nat) : ∀ (fuel' : Nat) {a b : Cursor},
      a.unread ≤ fuel → b.unread ≤ fuel' → a.Alike b → ∀ found s s', s.run.active = [] →
        s.Abreast a b s' → EndEqual
          (Matching.rounds (level room).match? r fuel a found c s)
          (Matching.rounds (level room).match? r fuel' b found (c.withLexer x) s') := by
  induction fuel using Nat.strongRecOn with
  | _ fuel ih =>
    intro fuel' a b hf hf' hab found s s' hs hss
    rcases hcontent : a.content with _ | ⟨l, rest⟩
    · rw [rounds_atEnd hskip fuel hab.left hcontent, rounds_atEnd hskip fuel' hab.right
        (hab.content.trans hcontent)]
      exact ⟨a, b, .ok rfl hss⟩
    · obtain ⟨a₁, fuel₁, hrow, hi, hc, hp, hl, hu, hle, hrun⟩ :=
        rounds_skip (level room).match? c hskip fuel hab.left hcontent hf
      obtain ⟨b₁, fuel₁', hrow', hi', hc', hp', -, hu', -, hrun'⟩ :=
        rounds_skip (level room).match? (c.withLexer x) hskip fuel' hab.right
          (hab.content.trans hcontent) hf'
      have hab₁ : a₁.Alike b₁ := by
        refine ⟨?_, ?_, ?_, hi, hi', ?_⟩
        · rw [hrow'.1, hrow.1, hab.text]
        · rw [hrow'.2.2.1, hrow.2.2.1, hab.start]
        · rw [hrow'.2.2.2, hrow.2.2.2, hab.stop]
        · rw [hc', hc, hab.content]
      have hmatch : Agrees c (c.withLexer x) a₁ b₁ (Match.Abreast a₁ b₁)
          ((level room).match? a₁ r.name) ((level room).match? b₁ r.name) :=
        Level.abreast hg hd room a₁ b₁ hab₁ 0 a₁ b₁ .start r.name
      have hguard := agrees_guarded hab₁ hmatch s s' (hss.restart hs a₁ b₁)
      have hkeep := steady_guarded (Level.steady room).match? a₁ r.name c s
      have hne : ¬ (r.skipComments = true ∧ l.kind = .comment) := fun h => hl h.2
      rw [hrun, hrun', rounds_lexeme hp hne, rounds_lexeme hp' hne]
      refine hguard.bind (fun e _ _ hss₁ => ⟨a₁, b₁, .error e hss₁⟩) fun m m' s₁ s₁' hm hfound hss₁ => ?_
      rw [hm] at hkeep
      have hs₁ : s₁.run.active = [] := (congrArg Prod.snd hkeep).trans hs
      refine endEqual_takeUp hab₁ (hr a₁ b₁) hsteady hfound hs₁ hss₁ (fun n d e h hlt hlt' => ?_) found
      have hrow := h.row.1.size_eq
      have hrow' := h.row.2.size_eq
      refine ih fuel₁ (by omega) fuel₁' ?_ ?_ (h.alike hab₁)
      · unfold Cursor.unread at hu ⊢
        omega
      · unfold Cursor.unread at hu' ⊢
        omega

theorem endEqual_repeatedly (hg : c.grammar.Uncommented)
    (hd : ∀ r ∈ c.grammar.rules, ∀ alt ∈ r.alternatives, alt.Direct) (room : Nat)
    (hskip : r.skipComments = true)
    (hr : ∀ a b k, Agrees c (c.withLexer x) a b (· = ·) (r.accept k) (r.accept k))
    (hsteady : ∀ k, (r.accept k).Steady) (hab : a.Alike b) {s s' : State} (hs : s.run.active = [])
    (hss : s.Abreast a b s') (ht : s.text.isSome) : EndEqual
      (repeatedly (level room).match? r a c s)
      (repeatedly (level room).match? r b (c.withLexer x) s') := by
  obtain ⟨d, e, hend⟩ := endEqual_rounds hg hd room hskip hr hsteady a.unread b.unread le_rfl le_rfl hab
    #[] s s' hs hss
  unfold repeatedly
  rw [withMatcher_run _ ht, withMatcher_run _ (by rwa [hss.text])]
  refine hend.bind (fun err _ _ hss₁ => ⟨d, e, .error err hss₁⟩) fun out out' s₁ s₁' _ hout hss₁ => ?_
  rw [hout]
  exact ⟨d, e, .ok rfl hss₁⟩

theorem agrees_hooked (textEnd : Nat) (vs : List Value) :
    Agrees c (c.withLexer x) a b (· = ·) (hooked textEnd vs) (hooked textEnd vs) := by
  induction vs with
  | nil => exact .pure rfl
  | cons v vs ih =>
    unfold hooked
    split
    · exact ih.bind fun _ _ heq => .pure (congrArg _ heq)
    · exact .fail _

theorem agrees_replace (hh : ∀ hook ∈ c.hook, ∀ k, (hook k).Direct) (below : Level) (textEnd : Nat)
    (k : Construct) : Agrees c (c.withLexer x) a b (· = ·)
      (replace below textEnd k) (replace below textEnd k) := by
  rw [replace_eq]
  refine Agrees.ask ?_
  show Agrees c (c.withLexer x) a b _ (replaceBy below textEnd k c.hook) (replaceBy below textEnd k c.hook)
  cases hsome : c.hook with
  | none => exact .pure rfl
  | some hook =>
    refine (Agrees.perform (hh hook hsome k)).bind fun v v' hv => ?_
    subst hv
    refine (Agrees.access v.elements).bind fun vs vs' hvs => ?_
    subst hvs
    exact agrees_hooked textEnd vs

end Matching

/-! ## Whole texts -/

/-- The settings, under which the lexer passes comments over or makes lexemes of them. -/
def Settings.ignoring (c : Settings) (b : Bool) : Settings := c.withLexer (c.lexer.ignoring b)

/-- A parse in progress comes to the same whether the lexer makes lexemes of comments or not. -/
theorem Matching.endEqual_inProgress {c : Settings} (hg : c.grammar.Uncommented)
    (hd : ∀ r ∈ c.grammar.rules, ∀ alt ∈ r.alternatives, alt.Direct)
    (hh : ∀ hook ∈ c.hook, ∀ k, (hook k).Direct) (room : Nat) (text : Text) {skip : Bool}
    (hs : skip = true) (b b' : Bool) (s : State) : EndEqual
      (inProgress (level room).matchRule (level room) (c.ignoring b) text skip
        (c.ignoring b) (begun text s))
      (inProgress (level room).matchRule (level room) (c.ignoring b') text skip
        (c.ignoring b') (begun text s)) := by
  have hlex : (∃ err, (c.ignoring b).lexer.lex text 0 none (c.ignoring b).depth = .error err ∧
        (c.ignoring b').lexer.lex text 0 none (c.ignoring b').depth = .error err) ∨
      ∃ a a', (c.ignoring b).lexer.lex text 0 none (c.ignoring b).depth = .ok a ∧
        (c.ignoring b').lexer.lex text 0 none (c.ignoring b').depth = .ok a' ∧ a.Alike a' :=
    c.lexer.lex_ignoring b b' text c.depth 0 none
  have hrun := lex_run (c := c.ignoring b) text 0 none (c.ignoring b).depth (begun text s)
  have hrun' := lex_run (c := c.ignoring b') text 0 none (c.ignoring b').depth (begun text s)
  unfold inProgress
  rcases hlex with ⟨err, h, h'⟩ | ⟨a, a', h, h', halike⟩
  · rw [h] at hrun
    rw [h'] at hrun'
    rw [bind_run_error hrun, bind_run_error hrun']
    exact ⟨default, default, .error _ (.of_idle rfl rfl rfl rfl)⟩
  · rw [h] at hrun
    rw [h'] at hrun'
    rw [bind_run_ok hrun, bind_run_ok hrun']
    have hreplace : ∀ d e k, Agrees (c.ignoring b) (c.ignoring b') d e (· = ·)
        (replace (level room) text.length k) (replace (level room) text.length k) :=
      fun _ _ k => agrees_replace (c := c.ignoring b) hh (level room) text.length k
    exact endEqual_repeatedly (c := c.ignoring b) (r := wholeText (level room) (c.ignoring b) text skip)
      hg hd (room + 1) hs hreplace (fun k => steady_replace (Level.steady room) text.length k) halike rfl
      (.of_idle rfl rfl rfl rfl) rfl

/-- **Comments are transparent to parsing.** If the grammar does not speak of comments and neither an
action nor the hook asks for anything, then a parse that passes comments over has the same outcome whether
the lexer makes lexemes of them or not. -/
theorem Session.parseAll_ignoring {c : Settings} (hg : c.grammar.Uncommented)
    (hd : ∀ r ∈ c.grammar.rules, ∀ alt ∈ r.alternatives, alt.Direct)
    (hh : ∀ hook ∈ c.hook, ∀ k, (hook k).Direct) (cache : Option ParseCache) (text : Text)
    (skip : Option Bool) (hs : skip.getD c.skipComments = true) (room : Nat) (b b' : Bool) :
    ((⟨c.ignoring b, cache⟩ : Session).parseAll text skip room).result =
        ((⟨c.ignoring b', cache⟩ : Session).parseAll text skip room).result ∧
      ((⟨c.ignoring b, cache⟩ : Session).parseAll text skip room).session.cache =
        ((⟨c.ignoring b', cache⟩ : Session).parseAll text skip room).session.cache := by
  cases room with
  | zero => exact ⟨rfl, rfl⟩
  | succ room =>
    have hrun : ∀ c : Settings, (⟨c, cache⟩ : Session).parseAll text skip (room + 1) =
        (⟨c, cache⟩ : Session).run (Matching.parseAll (level room).matchRule (level room) text skip) :=
      fun _ => rfl
    have hskip : (c.ignoring b').skipComments = (c.ignoring b).skipComments := rfl
    rw [hrun, hrun]
    unfold run
    simp only [Matching.parseAll_run, hskip]
    generalize cache.filter (·.isValidFor text (skip.getD (c.ignoring b).skipComments)) = kept
    rcases kept with _ | kept
    · simp only [Matching.parseText_run]
      obtain ⟨d, e, hend⟩ := Matching.endEqual_inProgress hg hd hh room text hs b b' { cache := cache }
      rcases hm : Matching.inProgress (level room).matchRule (level room) (c.ignoring b) text
        (skip.getD (c.ignoring b).skipComments) (c.ignoring b) (Matching.begun text { cache := cache })
        with ⟨res, s⟩
      rcases hm' : Matching.inProgress (level room).matchRule (level room) (c.ignoring b') text
        (skip.getD (c.ignoring b).skipComments) (c.ignoring b') (Matching.begun text { cache := cache })
        with ⟨res', s'⟩
      rw [show skip.getD c.skipComments = skip.getD (c.ignoring b).skipComments from rfl, hm, hm'] at hend
      cases hend with
      | error err hss => exact ⟨rfl, hss.cache.symm⟩
      | ok hfound hss =>
        rw [hfound]
        exact ⟨rfl, rfl⟩
    · exact ⟨rfl, rfl⟩

/-! ## Comments everywhere -/

/-- Two symbols with a mark between them, and behind each a rule that reads nothing. -/
def Grammar.pairs : Grammar := .ofRules
  [⟨"toplevel", [{ items := [.terminal ⟨.symbol, none⟩, .rule "gap", .terminal ⟨.punctuation, none⟩,
      .terminal ⟨.symbol, none⟩, .rule "gap"] }]⟩, ⟨"gap", [{}]⟩]

theorem Grammar.uncommented_pairs : pairs.Uncommented := by
  unfold Uncommented
  rw [pairs, rules_ofRules (by decide)]
  simp [Kind.symbol, Kind.punctuation, Kind.comment]

theorem Grammar.direct_pairs : ∀ r ∈ pairs.rules, ∀ alt ∈ r.alternatives, alt.Direct := by
  have hnone : ∀ r ∈ pairs.rules, ∀ alt ∈ r.alternatives, alt.action = none := by
    rw [pairs, rules_ofRules (by decide)]
    simp
  intro r hr alt ha name run hn
  cases (hnone r hr alt ha).symm.trans hn

/-- With comments before, inside, between and behind two pairs, both are found either way. Without the last
symbol both parses fail alike. -/
theorem Session.parseAll_pairs :
    ∃ found e,
      ((⟨Settings.ignoring { grammar := .pairs } true, none⟩ : Session).parseAll
        (.ofString "/**/a/**/=b/**/c=/**/d/**/") none 4).result = .ok found ∧
      ((⟨Settings.ignoring { grammar := .pairs } false, none⟩ : Session).parseAll
        (.ofString "/**/a/**/=b/**/c=/**/d/**/") none 4).result = .ok found ∧
      found.map (fun k => (k.start, k.stop)) = [(4, 11), (15, 22)] ∧
      ((⟨Settings.ignoring { grammar := .pairs } true, none⟩ : Session).parseAll
        (.ofString "/**/a/**/=b/**/c=/**/") none 4).result = .error e ∧
      ((⟨Settings.ignoring { grammar := .pairs } false, none⟩ : Session).parseAll
        (.ofString "/**/a/**/=b/**/c=/**/") none 4).result = .error e := by
  have h := fun text => (Session.parseAll_ignoring (c := { grammar := .pairs }) Grammar.uncommented_pairs
    Grammar.direct_pairs (by simp) none text none rfl 4 true false).1
  have hok : (match ((⟨Settings.ignoring { grammar := .pairs } true, none⟩ : Session).parseAll
      (.ofString "/**/a/**/=b/**/c=/**/d/**/") none 4).result with
      | .ok found => found.map (fun k => (k.start, k.stop)) == [(4, 11), (15, 22)]
      | .error _ => false) = true := by
    decide +kernel
  have herror : (match ((⟨Settings.ignoring { grammar := .pairs } true, none⟩ : Session).parseAll
      (.ofString "/**/a/**/=b/**/c=/**/") none 4).result with
      | .ok _ => false
      | .error e => e matches .parse _ 15 _ _) = true := by
    decide +kernel
  split at hok
  · rename_i found hfound
    split at herror
    · cases herror
    · rename_i e he
      exact ⟨found, e, hfound, (h _).symm.trans hfound, by simpa using hok, he, (h _).symm.trans he⟩
  · cases hok

end Outline
