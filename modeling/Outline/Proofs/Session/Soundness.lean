import Outline.Proofs.Session.Moment
import Outline.Proofs.Session.Limits

/-!
# Constructs that leave the parser

Whatever the parser gives away describes a stretch of the text that it is about: the constructs that a call
comes to, those that an expansion gives to an action, those of a rule whose fields are passed to the action
of another, and those that are remembered. The values that actions and hooks make are looked at first, and
one that is no construct puts an end to everything in progress.

* `Value.Describes`, `Construct.describes_iff`: values that describe a stretch of a text;
* `Level.within_match`, `Matching.within_rounds`, `Matching.within_replace`: what is found lies in the text;
* `Task.constructs`, `Task.about`, `Task.within`: what a task gives away, and what it is about;
* `Level.build_refused`, `Matching.replace_refused`: a value that is refused;
* **`Session.sound`**: all this in every history.
-/

namespace Outline

open Engine

/-! ## Values that describe a stretch of a text -/

/-- The value is a tuple that ends in two offsets, in order and not beyond `n`. -/
def Value.Describes (n : Nat) (v : Value) : Prop :=
  ∃ (fields : List Value) (a b : Int), v = .tuple (fields ++ [.int a, .int b]) ∧ 0 ≤ a ∧ a ≤ b ∧ b ≤ n

theorem Construct.within_natCast {k : Construct} {n : Nat} :
    k.Within (some (n : Int)) ↔ k.start ≤ k.stop ∧ k.stop ≤ n := by
  simp [Within]

/-- These are the values that are read as constructs. -/
theorem Construct.describes_iff {v : Value} {n : Nat} :
    v.Describes n ↔ ∃ k, Construct.ofValue (some n) v = .ok k := by
  constructor
  · rintro ⟨fields, a, b, rfl, ha, hab, hb⟩
    obtain ⟨a, rfl⟩ := Int.eq_ofNat_of_zero_le ha
    obtain ⟨b, rfl⟩ := Int.eq_ofNat_of_zero_le (ha.trans hab)
    have hw : (⟨fields, a, b⟩ : Construct).Within (some (n : Int)) :=
      within_natCast.mpr ⟨Int.ofNat_le.mp hab, Int.ofNat_le.mp hb⟩
    exact ⟨_, ofValue_toValue hw⟩
  · rintro ⟨k, hk⟩
    obtain ⟨rfl, hw⟩ := ofValue_eq_ok_iff.mp hk
    obtain ⟨h1, h2⟩ := within_natCast.mp hw
    exact ⟨k.fields, k.start, k.stop, rfl, by omega, by omega, by omega⟩

theorem Construct.Within.describes {k : Construct} {n : Nat} (h : k.Within (some (n : Int))) :
    k.toValue.Describes n := Construct.describes_iff.mpr ⟨k, ofValue_toValue h⟩

/-- A value that does not describe a stretch of the text is refused for a reason. -/
theorem Construct.defect_of_not_describes {v : Value} {n : Nat} (h : ¬ v.Describes n) :
    ∃ defect, Construct.ofValue (some n) v = .error defect := by
  cases hv : Construct.ofValue (some n) v with
  | error defect => exact ⟨defect, rfl⟩
  | ok k => exact absurd (describes_iff.mpr ⟨k, hv⟩) h

/-! ## What is found -/

/-- A match builds a construct within the text it leaves off in. -/
theorem Alternative.within_of_verdict {a : Alternative} {name : String} {cursor : Cursor} {v : Value}
    {m : Match} (h : a.verdict name cursor v = .ok m) :
    m.cursor = cursor ∧ ∀ k ∈ m.construct, k.Within (some (cursor.text.length : Int)) := by
  by_cases hv : v = .none
  · subst hv
    cases h
    exact ⟨rfl, nofun⟩
  · rw [verdict_of_ne hv] at h
    cases hk : Construct.ofValue (some (cursor.text.length : Int)) v with
    | error defect => rw [hk] at h; cases h
    | ok k =>
      rw [hk] at h
      cases h
      refine ⟨rfl, fun k' hk' => ?_⟩
      cases hk'
      exact (Construct.ofValue_eq_ok_iff.mp hk).2

variable {c : Settings} {room : Nat} {s s' : State}

namespace Level

variable {below : Level}

theorem within_tryAlternatives {cursor : Cursor} {name : String} {m : Match} :
    ∀ {as : List Alternative} {number : Nat} {s s' : State},
      below.tryAlternatives cursor name number as c s = (.ok (some m), s') →
        ∀ k ∈ m.construct, k.Within (some (m.cursor.text.length : Int))
  | [], _, _, _, h => by cases h
  | a :: as, number, s, s', h => by
    obtain ⟨e, -, he⟩ | ⟨m', s₁, ha, hm, -⟩ | ⟨s₁, -, h⟩ := tryAlternatives_cons below c h
    · cases he
    · cases hm
      generalize hr : Except.ok (some m) = r at ha
      cases ha with
      | aborted => cases hr
      | lost => cases hr
      | raised => cases hr
      | noMatch => cases hr
      | @built _ _ r _ _ _ _ hbuild =>
        obtain ⟨v, -, rfl⟩ | ⟨e, -, rfl⟩ := build_cases below c hbuild
        · cases hv : a.verdict name _ v with
          | error e => rw [hv] at hr; cases hr
          | ok m' =>
            rw [hv] at hr
            cases hr
            obtain ⟨hcursor, hw⟩ := Alternative.within_of_verdict hv
            rwa [hcursor]
        · cases hr
    · exact within_tryAlternatives h

/-- **A match builds a construct within the text that is read.** -/
theorem within_match {cursor : Cursor} {name : String} {m : Match}
    (h : ((level room).match? cursor name c s).1 = .ok (some m)) :
    m.cursor.text = cursor.text ∧ ∀ k ∈ m.construct, k.Within (some (cursor.text.length : Int)) := by
  have htext : m.cursor.text = cursor.text := (advances c room cursor name s m h).ahead.row.1
  refine ⟨htext, ?_⟩
  cases room with
  | zero => cases h
  | succ room =>
    rcases hm : (level room).matchRule cursor name c s with ⟨r, s'⟩
    obtain rfl : r = .ok (some m) := by
      rw [← h, show (level (room + 1)).match? cursor name c s = _ from hm]
    cases ruleAttempt (level room) c cursor name hm with
    | entered _ _ _ hr =>
      rw [← htext]
      exact within_tryAlternatives hr

end Level

namespace Matching

theorem within_guarded {cursor : Cursor} {name : String} {m : Match}
    (h : (guarded (level room).match? cursor name c s).1 = .ok (some m)) :
    m.cursor.text = cursor.text ∧ ∀ k ∈ m.construct, k.Within (some (cursor.text.length : Int)) := by
  rcases hg : guarded (level room).match? cursor name c s with ⟨r, s'⟩
  obtain rfl : r = .ok (some m) := by rw [← h, hg]
  obtain ⟨-, hm⟩ | ⟨-, e, he, -⟩ := Level.guarded_run c (level room).match? cursor name hg
  · exact Level.within_match (congrArg Prod.fst hm)
  · cases he

/-- What the rounds accept lies within `n` if what was found does. -/
def Rounds.Sound (c : Settings) (n : Nat) (r : Rounds) : Prop :=
  ∀ (k : Construct) (s : State) (more : List Construct), k.Within (some (n : Int)) →
    (r.accept k c s).1 = .ok more → ∀ x ∈ more, x.Within (some (n : Int))

/-- What the rounds come to lies within the text. -/
theorem within_rounds {r : Rounds} {n : Nat} (hr : r.Sound c n) :
    ∀ {fuel : Nat} {cursor : Cursor} {found out : Array Construct} {s : State},
      cursor.text.length = n → (∀ x ∈ found, x.Within (some (n : Int))) →
        (rounds (level room).match? r fuel cursor found c s).1 = .ok out →
          ∀ x ∈ out, x.Within (some (n : Int))
  | 0, _, _, _, _, _, hfound, h => by
    cases h
    exact hfound
  | fuel + 1, cursor, found, out, s, hn, hfound, h => by
    obtain ⟨-, rfl⟩ | ⟨more, d, s₁, hround, h⟩ := round_of_rounds h
    · exact hfound
    · have hmore : d.text = cursor.text ∧ ∀ x ∈ more, x.Within (some (n : Int)) := by
        cases hround with
        | comment => exact ⟨rfl, nofun⟩
        | @taken _ m _ _ _ _ _ _ hm _ hc =>
          obtain ⟨htext, hw⟩ := within_guarded (congrArg Prod.fst hm)
          refine ⟨htext, ?_⟩
          unfold Rounds.contribution at hc
          cases hk : m.construct with
          | none =>
            rw [hk] at hc
            cases hc
            exact nofun
          | some k =>
            rw [hk] at hc
            exact hr k _ _ (hn ▸ hw k hk) (congrArg Prod.fst hc)
      refine within_rounds hr (by rw [hmore.1, hn]) (fun x hx => ?_) h
      rw [← Array.mem_toList_iff, Array.toList_appendList, List.mem_append, Array.mem_toList_iff] at hx
      obtain hx | hx := hx
      · exact hfound x hx
      · exact hmore.2 x hx

theorem within_hooked {n : Nat} : ∀ {vs : List Value} {found : List Construct},
    (hooked n vs c s).1 = .ok found → ∀ x ∈ found, x.Within (some (n : Int))
  | [], _, h => by
    cases h
    exact nofun
  | v :: vs, found, h => by
    unfold hooked at h
    cases hv : Construct.ofValue (some (n : Int)) v with
    | error defect => simp only [hv] at h; cases h
    | ok k =>
      simp only [hv] at h
      obtain ⟨more, s₁, hmore, h⟩ := ok_of_bind h
      cases h
      rw [List.forall_mem_cons]
      exact ⟨(Construct.ofValue_eq_ok_iff.mp hv).2, within_hooked (congrArg Prod.fst hmore)⟩

/-- What a construct is replaced by lies within the text if the construct does. -/
theorem within_replace {below : Level} {n : Nat} {k : Construct} {more : List Construct}
    (hk : k.Within (some (n : Int))) (h : (replace below n k c s).1 = .ok more) :
    ∀ x ∈ more, x.Within (some (n : Int)) := by
  rw [replace_eq, bind_run_ok rfl] at h
  cases hh : c.hook with
  | none =>
    rw [hh] at h
    cases h
    simpa using hk
  | some hook =>
    rw [hh] at h
    obtain ⟨v, s₁, -, h⟩ := ok_of_bind h
    obtain ⟨vs, s₂, -, h⟩ := ok_of_bind h
    exact within_hooked h

theorem sound_span (n : Nat) (name : String) : Rounds.Sound c n { name } := by
  intro k s more hk h
  cases h
  simpa using hk

theorem sound_wholeText (below : Level) (text : Text) (skipComments : Bool) :
    (wholeText below c text skipComments).Sound c text.length :=
  fun _ _ _ hk h => within_replace hk h

/-- What is found in a text from its lexemes on lies within it. -/
theorem within_lexed {r : Rounds} {text : Text} {start : Int} {stop depth : Option Int} {cursor : Cursor}
    {fuel : Nat} {out : Array Construct} (hr : r.Sound c text.length)
    (hl : c.lexer.lex text start stop depth = .ok cursor)
    (ho : (rounds (level room).matchRule r fuel cursor #[] c s).1 = .ok out) :
    ∀ x ∈ out.toList, x.Within (some (text.length : Int)) := by
  have hrule : (level (room + 1)).match? = (level room).matchRule := rfl
  rw [← hrule] at ho
  exact fun x hx => within_rounds hr (by rw [(Lexer.start_of_lex hl).1]) (by simp) ho x
    (Array.mem_toList_iff.mp hx)

theorem within_expandFull {e : Expansion} {found : List Construct}
    (h : ((level (room + 1)).expandFull e c s).1 = .ok found) :
    ∃ text, (textOf e c s).1 = .ok text ∧ ∀ x ∈ found, x.Within (some (text.length : Int)) := by
  obtain ⟨text, cursor, s₁, out, ht, hl, ho, rfl⟩ := expandFull_ok h
  obtain ⟨a, b, hl⟩ := lex_of_lexSpan hl
  exact ⟨text, ht, within_lexed (sound_span _ _) hl ho⟩

theorem within_inProgress {text : Text} {skipComments : Bool} {found : List Construct}
    (h : (inProgress (level room).matchRule (level room) c text skipComments c s).1 = .ok found) :
    ∀ x ∈ found, x.Within (some (text.length : Int)) := by
  obtain ⟨cursor, s₁, hl, hr⟩ := ok_of_bind h
  obtain ⟨s₂, out, ho, rfl⟩ := rounds_of_repeatedly hr
  exact within_lexed (sound_wholeText _ _ _) (lex_ok (congrArg Prod.fst hl)) ho

end Matching

/-! ## What a task gives away -/

namespace Task

/-- The constructs that a request gives away, or a rule. -/
def constructs : (t : Task) → t.Answer → List Construct
  | parse .., found => found
  | expand .., found => found.toList
  | expandFull .., found => found
  | stream .., m => (m.bind (·.construct)).toList
  | rule .., m => (m.bind (·.construct)).toList
  | _, _ => []

/-- The text that they are about. -/
def about : Task → State → Option Text
  | parse _ text _, _ => some text
  | expand _ e, s => e.text.or s.text
  | expandFull _ e, s => e.text.or s.text
  | stream _ cursor _, _ => some cursor.text
  | rule _ cursor _, _ => some cursor.text
  | _, _ => none

end Task

theorem Engine.or_of_textOf {e : Expansion} {text : Text} (h : (textOf e c s).1 = .ok text) :
    e.text.or s.text = some text := by
  obtain ⟨_, _, _, _, _ | text⟩ := e
  · obtain ⟨run, _ | t, cache, events⟩ := s
    · cases h
    · cases h
      rfl
  · cases h
    rfl

/-- What is remembered lies within a text of the length that it is remembered of. -/
def State.Sound (s : State) : Prop :=
  ∀ k ∈ s.cache, ∀ x ∈ k.constructs, x.Within (some (k.textEnd : Int))

theorem Engine.invariant_sound (t₀ : Task) (s₀ : State) : Invariant c t₀ s₀ State.Sound where
  run _ h := h
  report _ h := h
  forget _ := nofun
  begun _ _ := nofun
  parse {room text skip s} _ _ _ hp := by
    rw [Matching.parseText_run]
    split
    · rename_i found after hrun
      intro k hk
      cases hk
      exact Matching.within_inProgress (congrArg Prod.fst hrun)
    · rename_i e after hrun
      rw [hrun] at hp
      exact hp

/-- **What a task gives away lies within the text that it is about.** -/
theorem Task.within (t : Task) (hs : s.Sound) {a : t.Answer} (h : (t.run c s).1 = .ok a) :
    ∀ x ∈ t.constructs a, ∃ text ∈ t.about s, x.Within (some (text.length : Int)) := by
  have hmatched : ∀ {m : Option Match} {text : Text},
      (∀ m', m = some m' → ∀ k ∈ m'.construct, k.Within (some (text.length : Int))) →
        ∀ x ∈ (m.bind (·.construct)).toList, x.Within (some (text.length : Int)) := by
    intro m text hm x hx
    cases m with
    | none => simp at hx
    | some m' => exact hm m' rfl x (by simpa using hx)
  cases t with
  | parse room text skip =>
    refine fun x hx => ⟨text, rfl, ?_⟩
    cases room with
    | zero => cases h
    | succ room =>
      obtain ⟨k, hk, hv, rfl⟩ | ⟨cursor, s₁, out, hl, ho, rfl⟩ := Matching.parseAll_ok h
      · have hlength : k.textEnd = text.length := by
          simp only [ParseCache.isValidFor, Bool.and_eq_true, beq_iff_eq] at hv
          exact hv.1
        exact hlength ▸ hs k hk x hx
      · exact Matching.within_lexed (Matching.sound_wholeText _ _ _) hl ho x hx
  | expand room e =>
    intro x hx
    cases room with
    | zero => cases h
    | succ room =>
      obtain ⟨text, s₁, ht, h⟩ := ok_of_bind h
      obtain ⟨cursor, s₂, hl, h⟩ := ok_of_bind h
      obtain ⟨m, s₃, hm, h⟩ := ok_of_bind h
      cases h
      obtain ⟨start, stop, hl⟩ := Matching.lex_of_lexSpan (congrArg Prod.fst hl)
      have hcursor : cursor.text = text := (Lexer.start_of_lex hl).1
      refine ⟨text, or_of_textOf (congrArg Prod.fst ht), hmatched (fun m' hm' => ?_) x hx⟩
      have hrun := congrArg Prod.fst hm
      rw [Matching.parseStream, fst_withMatcher] at hrun
      change (Matching.guarded (level (room + 1)).match? cursor _ c _).1 = _ at hrun
      subst hm'
      rw [← hcursor]
      exact (Matching.within_guarded hrun).2
  | expandFull room e =>
    intro x hx
    cases room with
    | zero => cases h
    | succ room =>
      obtain ⟨text, ht, hw⟩ := Matching.within_expandFull h
      exact ⟨text, or_of_textOf ht, hw x hx⟩
  | stream room cursor name =>
    refine fun x hx => ⟨cursor.text, rfl, hmatched (fun m' hm' => ?_) x hx⟩
    change (withMatcher _ c s).1 = _ at h
    rw [fst_withMatcher] at h
    subst hm'
    exact (Matching.within_guarded h).2
  | rule room cursor name =>
    refine fun x hx => ⟨cursor.text, rfl, hmatched (fun m' hm' => ?_) x hx⟩
    subst hm'
    exact (Level.within_match h).2
  | _ => exact List.forall_mem_nil _

/-! ## Values that are refused -/

theorem Level.build_refused {below : Level} (name : String) {a : Alternative} {values : List Value}
    {start stop : Int} {cursor : Cursor} {v : Value}
    (h : below.runAction a values start stop c s = (.ok v, s')) (hv : v ≠ .none)
    (hd : ¬ v.Describes cursor.text.length) :
    ∃ defect, (below.build name a values start stop cursor c s).1 =
      .error (.malformed s!"action for {quoted name} ({a.display})" v defect) := by
  obtain ⟨defect, hdefect⟩ := Construct.defect_of_not_describes hd
  refine ⟨defect, ?_⟩
  rw [build_run h, Alternative.verdict_of_ne hv, hdefect]

theorem Matching.hooked_refused {n : Nat} : ∀ {vs : List Value}, (∃ v ∈ vs, ¬ v.Describes n) →
    ∃ v ∈ vs, ¬ v.Describes n ∧ ∃ defect,
      (hooked n vs c s).1 = .error (.malformed "expand hook" v defect)
  | [], h => by simp at h
  | v :: vs, h => by
    unfold hooked
    cases hv : Construct.ofValue (some (n : Int)) v with
    | error defect =>
      have hd : ¬ v.Describes n := by
        rw [Construct.describes_iff, hv]
        rintro ⟨k, hk⟩
        cases hk
      exact ⟨v, List.mem_cons_self, hd, defect, rfl⟩
    | ok k =>
      have hrest : ∃ w ∈ vs, ¬ w.Describes n := by
        obtain ⟨w, hw, hd⟩ := h
        obtain rfl | hw := List.mem_cons.mp hw
        · exact absurd (Construct.describes_iff.mpr ⟨k, hv⟩) hd
        · exact ⟨w, hw, hd⟩
      obtain ⟨w, hw, hd, defect, hfail⟩ := hooked_refused hrest
      exact ⟨w, List.mem_cons_of_mem _ hw, hd, defect, fst_bind_error hfail⟩

theorem Matching.replace_refused {below : Level} {n : Nat} {k : Construct}
    {hook : Construct → Script Value} {v : Value} {vs : List Value} (hh : c.hook = some hook)
    (h : (hook k).perform below c s = (.ok v, s')) (hvs : v.elements = .ok vs)
    (hd : ∃ w ∈ vs, ¬ w.Describes n) :
    ∃ w ∈ vs, ¬ w.Describes n ∧ ∃ defect,
      (replace below n k c s).1 = .error (.malformed "expand hook" w defect) := by
  rw [replace_eq, bind_run_ok rfl, hh]
  show ∃ w ∈ vs, ¬ w.Describes n ∧ ∃ defect, (((hook k).perform below >>= _) c s).1 = _
  rw [bind_run_ok h, hvs]
  exact hooked_refused hd

/-! ## Histories -/

namespace Session

/-- **Whatever leaves the parser describes a stretch of the text that it is about.** So does whatever is
remembered, wherever something begins in the course of a history. A value that an action makes or a hook
yields and that does not is the failure of everything that is in progress then, and if that is a parse,
nothing is remembered behind it. -/
theorem sound {c : Settings} (hc : c.Upright) (room : Nat) :
    (∀ m : Moment c room,
      (∀ k ∈ m.state.cache, ∀ x ∈ k.constructs, x.toValue.Describes k.textEnd) ∧
      ∀ a, (m.task.run c m.state).1 = .ok a → ∀ x ∈ m.task.constructs a,
        ∃ text ∈ m.task.about m.state, x.toValue.Describes text.length) ∧
    (∀ (m : Moment c room) (below : Nat) (name : String) (a : Alternative) (k : Collected) (v : Value)
      (s s' : State), m.task.Leads c m.state (.build below name a k) s →
      (level below).runAction a (Level.valuesOf a k) (k.start.getD k.stop) k.stop c s = (.ok v, s') →
      v ≠ .none → ¬ v.Describes k.cursor.text.length → ∃ defect, (m.task.run c m.state).1 =
        .error (.malformed s!"action for {quoted name} ({a.display})" v defect)) ∧
    (∀ (m : Moment c room) (below textEnd : Nat) (k : Construct) (hook : Construct → Script Value)
      (v : Value) (vs : List Value) (s s' : State), m.task.Leads c m.state (.replace below textEnd k) s →
      c.hook = some hook → (hook k).perform (level below) c s = (.ok v, s') → v.elements = .ok vs →
      (∃ w ∈ vs, ¬ w.Describes textEnd) → ∃ w ∈ vs, ¬ w.Describes textEnd ∧ ∃ defect,
        (m.task.run c m.state).1 = .error (.malformed "expand hook" w defect)) ∧
    (∀ (m : Moment c room) (left : Nat) (text : Text) (skip : Option Bool) (source : String) (v : Value)
      (defect : Defect), m.task = .parse left text skip → m.task.Lone c m.state →
      (m.task.run c m.state).1 = .error (.malformed source v defect) → m.after.cache = none) := by
  refine ⟨fun m => ?_, ?_, ?_, ?_⟩
  · have hs : m.state.Sound := m.invariant invariant_sound nofun fun _ h => h
    refine ⟨fun k hk x hx => (hs k hk x hx).describes, fun a ha x hx => ?_⟩
    obtain ⟨text, htext, hw⟩ := m.task.within hs ha x hx
    exact ⟨text, htext, hw.describes⟩
  · intro m below name a k v s s' hl hrun hv hd
    obtain ⟨defect, hfail⟩ := Level.build_refused name hrun hv hd
    exact ⟨defect, hl.fails hc (m.upright hc) nofun hfail⟩
  · intro m below textEnd k hook v vs s s' hl hh hrun hvs hd
    obtain ⟨w, hw, hd, defect, hfail⟩ := Matching.replace_refused hh hrun hvs hd
    exact ⟨w, hw, hd, defect, hl.fails hc (m.upright hc) nofun hfail⟩
  · intro m left text skip source v defect hm hlone hfail
    rw [Moment.after, hm] at *
    cases left with
    | zero => cases hfail
    | succ left => exact Task.cache_of_parse hlone hfail

end Session

/-! ## An action that goes too far -/

/-- An action that says that something reaches up to the ninth character. -/
def NamedAction.overreach : NamedAction := ⟨"overreach", .function fun _ start _ =>
  .done (.tuple [.int start, .int 9])⟩

/-- Groups, of which the entries are counted; a punctuation mark is taken for more than it is. -/
def Grammar.overreaching : Grammar := .ofRules
  [⟨"toplevel", [{ items := [.terminal ⟨.semanticList, none⟩], action := some .count }]⟩,
    ⟨"entry", [{ items := [.terminal ⟨.symbol, none⟩] },
      { items := [.terminal ⟨.punctuation, none⟩], action := some .overreach }]⟩]

theorem Grammar.actions_overreaching : ∀ r ∈ overreaching.rules, ∀ a ∈ r.alternatives,
    a.action = none ∨ a.action = some .count ∨ a.action = some .overreach := by
  rw [overreaching, Grammar.rules_ofRules (by decide)]
  simp

theorem Settings.upright_overreaching : ({ grammar := .overreaching } : Settings).Upright := by
  refine ⟨fun r hr a ha name run hn values start stop => ?_, nofun⟩
  rcases Grammar.actions_overreaching r hr a ha with h | h | h <;> cases h.symm.trans hn
  · dsimp only
    split
    · exact .expandFull (fun e => rfl) fun found => .done _
    · exact .done _
  · exact .done _

theorem Settings.inward_overreaching : ({ grammar := .overreaching } : Settings).Inward := by
  refine ⟨fun r hr a ha name run hn values start stop => ?_, nofun⟩
  rcases Grammar.actions_overreaching r hr a ha with h | h | h <;> cases h.symm.trans hn
  · dsimp only
    split
    · refine .expandFull fun found => ?_
      cases found with
      | ok found => exact .done _
      | error e => exact .fail _
    · exact .done _
  · exact .done _

/-- A value was refused. -/
def refused {α : Type} : Except Failure α → Bool
  | .error (.malformed ..) => true
  | _ => false

theorem exists_of_refused {α : Type} {r : Except Failure α} (h : refused r = true) :
    ∃ source v defect, r = .error (.malformed source v defect) := by
  unfold refused at h
  split at h
  · exact ⟨_, _, _, rfl⟩
  · cases h

/-- The constructs of a group lie within it. The entry of another one goes too far, inside an expansion:
the parse of that group fails, and the first is not remembered any more. -/
theorem Session.sound_overreaching :
    (∃ found, ((⟨{ grammar := .overreaching }, none⟩ : Session).parseAll (.ofString "(a)") none 4).result =
      .ok found ∧ found ≠ [] ∧ ∀ x ∈ found, x.toValue.Describes 3) ∧
    let o := ((⟨{ grammar := .overreaching }, none⟩ : Session).after 4
      [.parseAll (.ofString "(a)") none]).parseAll (.ofString "(a,)") none 4
    (∃ source v defect, o.result = .error (.malformed source v defect)) ∧ o.session.cache = none := by
  obtain ⟨hall, -, -, hforgotten⟩ := Session.sound Settings.upright_overreaching 4
  constructor
  · have hok : ((⟨{ grammar := .overreaching }, none⟩ : Session).parseAll (.ofString "(a)") none
        4).result.toOption.map List.length = some 1 := by decide +kernel
    rcases hr : ((⟨{ grammar := .overreaching }, none⟩ : Session).parseAll (.ofString "(a)") none
      4).result with e | found
    · rw [hr] at hok
      cases hok
    · refine ⟨found, rfl, ?_, fun x hx => ?_⟩
      · rintro rfl
        rw [hr] at hok
        cases hok
      · have hrun := (Moment.parseAll_eq _ _ [] _ _).1.symm.trans hr
        obtain ⟨text, htext, hd⟩ := (hall (.ofCall _ 4 [] (.parseAll (.ofString "(a)") none))).2 _ hrun x hx
        cases htext
        exact hd
  · have hbad : refused (((⟨{ grammar := .overreaching }, none⟩ : Session).after 4
        [.parseAll (.ofString "(a)") none]).parseAll (.ofString "(a,)") none 4).result = true := by
      decide +kernel
    have hforgets : ∀ (before : List Call) (text : Text), let o :=
        ((⟨{ grammar := .overreaching }, none⟩ : Session).after 4 before).parseAll text none 4
        ∀ source v defect, o.result = .error (.malformed source v defect) → o.session.cache = none := by
      intro before text o source v defect ho
      obtain ⟨hresult, hcache⟩ := Moment.parseAll_eq { grammar := .overreaching } 4 before text none
      exact hcache.trans (hforgotten (.ofCall _ 4 before (.parseAll text none)) 4 text none source v defect rfl
        (Task.lone_of_inward Settings.inward_overreaching 4 text none) (hresult.symm.trans ho))
    obtain ⟨source, v, defect, ho⟩ := exists_of_refused hbad
    exact ⟨⟨source, v, defect, ho⟩, hforgets _ _ source v defect ho⟩

end Outline
