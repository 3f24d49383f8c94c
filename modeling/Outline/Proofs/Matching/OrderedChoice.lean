import Mathlib.Logic.Relation
import Outline.Proofs.Lexeme.Reading
import Outline.Proofs.Matching.Attempt
import Outline.Proofs.Matching.Finding

/-!
# Ordered choice

What a grammar means, without any matcher: a rule at a cursor comes to what its first alternative
comes to whose items all match. There is no nesting, no count and no memory of the rules in progress,
so that a rule may come to nothing at all.

* `Alternative.Pure`, `Alternative.Builds`: what the action makes of it;
* `Grammar.Matches`, `Grammar.Chooses`, `Grammar.Fits`, `Grammar.Breaks`, `Grammar.Takes`,
  `Grammar.Refuses`: rules, alternatives, rows of items and items that match or do not;
* `Grammar.Matches.unique`: a rule comes to one thing at most;
* `Grammar.Calls`, `Grammar.Loops`, **`Grammar.Matches.ends`**: the rules that a rule has to try. Where
  a rule comes to something, every chain of these ends, and none comes back to where it has been.
-/

namespace Outline

/-! ## Actions -/

/-- A failure that can be told from the grammar and the text alone: a place that cannot be read from,
or a value that is no construct. -/
inductive Failure.Plain : Failure → Prop where
  | access (fault : AccessFault) : Plain (.access fault)
  | malformed (source : String) (value : Value) (defect : Defect) :
      Plain (.malformed source value defect)

namespace Alternative

/-- The values that the action is given: one for each item, or nothing if there are no items. -/
def collected (a : Alternative) (fs : List Finding) : List Value :=
  if a.isEmpty then [.none] else fs.map (·.value)

/-- The action, if there is one, is a function: it neither fails nor asks for anything. -/
def Pure (a : Alternative) : Prop :=
  ∀ named, a.action = some named → ∃ f : List Value → Int → Int → Value,
    named.action = .function fun values start stop => .done (f values start stop)

/-- What the action, or the default, makes of the values. -/
inductive Builds (a : Alternative) (values : List Value) (start stop : Int) : Value → Prop where
  | default (h : a.action = none) : Builds a values start stop (a.defaultValue values start stop)
  | action {name : String} {run : List Value → (start stop : Int) → Script Value} {v : Value}
      (h : a.action = some ⟨name, .function run⟩) (hv : run values start stop = .done v) :
      Builds a values start stop v

theorem Builds.unique {a : Alternative} {values : List Value} {start stop : Int} {v v' : Value}
    (h : a.Builds values start stop v) (h' : a.Builds values start stop v') : v = v' := by
  cases h with
  | default h =>
    cases h' with
    | default => rfl
    | action h₂ => rw [h] at h₂; cases h₂
  | action h hv =>
    cases h' with
    | default h₂ => rw [h] at h₂; cases h₂
    | action h₂ hv₂ =>
      rw [h] at h₂
      cases h₂
      rw [hv] at hv₂
      cases hv₂
      rfl

theorem plain_of_verdict {a : Alternative} {name : String} {cursor : Cursor} {v : Value}
    {e : Failure} (h : (a.verdict name cursor v).map some = .error e) : e.Plain := by
  obtain ⟨found, hv⟩ | ⟨source, defect, hv⟩ := a.verdict_cases name cursor v
  · rw [hv] at h
    cases h
  · rw [hv] at h
    cases h
    exact .malformed source v defect

end Alternative

/-- A rule to be matched at a cursor. -/
structure Goal where
  cursor : Cursor
  rule : String

namespace Grammar

/-! ## The meaning of a grammar -/

mutual

/-- What a rule comes to at a cursor: a match, none, or a failure. -/
inductive Matches (g : Grammar) : Cursor → String → Except Failure (Option Match) → Prop where
  | rule {c : Cursor} {name : String} {as : List Alternative} {r : Except Failure (Option Match)}
      (h : g.alternatives? name = some as) (hr : Chooses g c name as r) : Matches g c name r

/-- What alternatives of the rule `name` come to, each tried from the same cursor: the first whose
items match decides, by what its action builds. -/
inductive Chooses (g : Grammar) :
    Cursor → String → List Alternative → Except Failure (Option Match) → Prop where
  | none {c : Cursor} {name : String} : Chooses g c name [] (.ok none)
  | next {c : Cursor} {name : String} {a : Alternative} {as : List Alternative}
      {r : Except Failure (Option Match)} (hc : c.InRow) (h : Breaks g c a.items none)
      (hr : Chooses g c name as r) : Chooses g c name (a :: as) r
  | first {c d : Cursor} {name : String} {a : Alternative} {as : List Alternative} {offset : Int}
      {fs : List Finding} {v : Value} {r : Except Failure (Option Match)}
      (ho : c.offset = .ok offset) (h : Fits g c a.items fs d)
      (hv : a.Builds (a.collected fs) (Finding.start offset fs) (Finding.stop offset fs) v)
      (hr : (a.verdict name d v).map some = r) : Chooses g c name (a :: as) r
  | raised {c : Cursor} {name : String} {a : Alternative} {as : List Alternative} {e : Failure}
      (hc : c.InRow) (h : Breaks g c a.items (some e)) : Chooses g c name (a :: as) (.error e)
  /-- The place is so far below zero that there is no lexeme to start from. -/
  | lost {c : Cursor} {name : String} {a : Alternative} {as : List Alternative} {e : AccessFault}
      (h : c.offset = .error e) : Chooses g c name (a :: as) (.error (.access e))

/-- Items match from left to right from `c` on, which gives findings and leads to a cursor. -/
inductive Fits (g : Grammar) : Cursor → List Item → List Finding → Cursor → Prop where
  | nil {c : Cursor} : Fits g c [] [] c
  | cons {c d e : Cursor} {i : Item} {is : List Item} {f : Finding} {fs : List Finding}
      (h : Takes g c i f d) (hr : Fits g d is fs e) : Fits g c (i :: is) (f :: fs) e

/-- Items do not match from `c` on: one of them has no match, or fails. -/
inductive Breaks (g : Grammar) : Cursor → List Item → Option Failure → Prop where
  | here {c : Cursor} {i : Item} {is : List Item} {r : Option Failure} (h : Refuses g c i r) :
      Breaks g c (i :: is) r
  | later {c d : Cursor} {i : Item} {is : List Item} {f : Finding} {r : Option Failure}
      (h : Takes g c i f d) (hr : Breaks g d is r) : Breaks g c (i :: is) r

/-- An item matches: the lexeme that is read has the kind and the text, or the rule has a match that
is not dropped. -/
inductive Takes (g : Grammar) : Cursor → Item → Finding → Cursor → Prop where
  | lexeme {c d : Cursor} {t : Terminal} {l : Lexeme} (h : c.Reads (t.kind != .comment) l d)
      (hl : l.kind = t.kind ∧ t.accepts (l.text c.text)) :
      Takes g c (.terminal t) (.ofLexeme l c.text) d
  | construct {c d : Cursor} {name : String} {found : Construct}
      (h : Matches g c name (.ok (some ⟨d, some found⟩))) :
      Takes g c (.rule name) (.ofConstruct found c d) d

/-- An item does not match, or fails. -/
inductive Refuses (g : Grammar) : Cursor → Item → Option Failure → Prop where
  | mismatch {c : Cursor} {t : Terminal} (h : ∀ l d, c.Reads (t.kind != .comment) l d →
        ¬ (l.kind = t.kind ∧ t.accepts (l.text c.text))) : Refuses g c (.terminal t) none
  | noMatch {c : Cursor} {name : String} (h : Matches g c name (.ok none)) :
      Refuses g c (.rule name) none
  | dropped {c d : Cursor} {name : String} (h : Matches g c name (.ok (some ⟨d, none⟩))) :
      Refuses g c (.rule name) none
  | raised {c : Cursor} {name : String} {e : Failure} (h : Matches g c name (.error e)) :
      Refuses g c (.rule name) (some e)

end

variable {g : Grammar}

/-! ## One answer at most -/

mutual

theorem Matches.unique {c : Cursor} {name : String} {r r' : Except Failure (Option Match)} :
    Matches g c name r → Matches g c name r' → r = r'
  | .rule h hr, .rule h' hr' => by
    rw [h] at h'
    cases h'
    exact hr.unique hr'

theorem Chooses.unique {c : Cursor} {name : String} {as : List Alternative}
    {r r' : Except Failure (Option Match)} :
    Chooses g c name as r → Chooses g c name as r' → r = r'
  | .none, h' => by cases h'; rfl
  | .next hc h hr, h' => by
    cases h' with
    | next _ _ hr' => exact hr.unique hr'
    | first _ hf => exact absurd hf (h.unique.1 _ _)
    | raised _ hb => cases h.unique.2 _ hb
    | lost hl => obtain ⟨o, ho⟩ := Cursor.offset_eq_ok_iff.mpr hc; rw [ho] at hl; cases hl
  | .first ho h hv hr, h' => by
    cases h' with
    | next _ hb => exact absurd hb (h.unique.2 _)
    | first ho' hf hv' hr' =>
      obtain ⟨rfl, rfl⟩ := h.unique.1 _ _ hf
      rw [ho] at ho'
      cases ho'
      rw [hv.unique hv'] at hr
      exact hr.symm.trans hr'
    | raised _ hb => exact absurd hb (h.unique.2 _)
    | lost hl => rw [ho] at hl; cases hl
  | .raised hc h, h' => by
    cases h' with
    | next _ hb => cases h.unique.2 _ hb
    | first _ hf => exact absurd hf (h.unique.1 _ _)
    | raised _ hb => cases h.unique.2 _ hb; rfl
    | lost hl => obtain ⟨o, ho⟩ := Cursor.offset_eq_ok_iff.mpr hc; rw [ho] at hl; cases hl
  | .lost hl, h' => by
    cases h' with
    | next hc => obtain ⟨o, ho⟩ := Cursor.offset_eq_ok_iff.mpr hc; rw [ho] at hl; cases hl
    | first ho => rw [ho] at hl; cases hl
    | raised hc => obtain ⟨o, ho⟩ := Cursor.offset_eq_ok_iff.mpr hc; rw [ho] at hl; cases hl
    | lost hl' => rw [hl] at hl'; cases hl'; rfl

theorem Fits.unique {c d : Cursor} {is : List Item} {fs : List Finding} :
    Fits g c is fs d → (∀ fs' d', Fits g c is fs' d' → fs = fs' ∧ d = d') ∧ ∀ r, ¬ Breaks g c is r
  | .nil => ⟨fun _ _ h' => by cases h'; exact ⟨rfl, rfl⟩, fun _ h' => by cases h'⟩
  | .cons h hr => by
    constructor
    · intro fs' d' h'
      cases h' with
      | cons h₂ hr₂ =>
        obtain ⟨rfl, rfl⟩ := h.unique.1 _ _ h₂
        obtain ⟨rfl, rfl⟩ := hr.unique.1 _ _ hr₂
        exact ⟨rfl, rfl⟩
    · intro r h'
      cases h' with
      | here h₂ => exact h.unique.2 _ h₂
      | later h₂ hr₂ =>
        obtain ⟨-, rfl⟩ := h.unique.1 _ _ h₂
        exact hr.unique.2 _ hr₂

theorem Breaks.unique {c : Cursor} {is : List Item} {r : Option Failure} :
    Breaks g c is r → (∀ fs d, ¬ Fits g c is fs d) ∧ ∀ r', Breaks g c is r' → r = r'
  | .here h => by
    constructor
    · intro fs d h'
      cases h' with
      | cons h₂ => exact h.unique.1 _ _ h₂
    · intro r' h'
      cases h' with
      | here h₂ => exact h.unique.2 _ h₂
      | later h₂ => exact absurd h₂ (h.unique.1 _ _)
  | .later h hr => by
    constructor
    · intro fs d h'
      cases h' with
      | cons h₂ hr₂ =>
        obtain ⟨-, rfl⟩ := h.unique.1 _ _ h₂
        exact hr.unique.1 _ _ hr₂
    · intro r' h'
      cases h' with
      | here h₂ => exact absurd h₂ (h.unique.2 _)
      | later h₂ hr₂ =>
        obtain ⟨-, rfl⟩ := h.unique.1 _ _ h₂
        exact hr.unique.2 _ hr₂

theorem Takes.unique {c d : Cursor} {i : Item} {f : Finding} :
    Takes g c i f d → (∀ f' d', Takes g c i f' d' → f = f' ∧ d = d') ∧ ∀ r, ¬ Refuses g c i r
  | .lexeme h hl => by
    constructor
    · intro f' d' h'
      cases h' with
      | lexeme h₂ =>
        obtain ⟨rfl, rfl⟩ := h.unique h₂
        exact ⟨rfl, rfl⟩
    · intro r h'
      cases h' with
      | mismatch hm => exact hm _ _ h hl
  | .construct h => by
    constructor
    · intro f' d' h'
      cases h' with
      | construct h₂ => cases h.unique h₂; exact ⟨rfl, rfl⟩
    · intro r h'
      cases h' with
      | noMatch h₂ => cases h.unique h₂
      | dropped h₂ => cases h.unique h₂
      | raised h₂ => cases h.unique h₂

theorem Refuses.unique {c : Cursor} {i : Item} {r : Option Failure} :
    Refuses g c i r → (∀ f d, ¬ Takes g c i f d) ∧ ∀ r', Refuses g c i r' → r = r'
  | .mismatch hm => by
    constructor
    · intro f d h'
      cases h' with
      | lexeme h hl => exact hm _ _ h hl
    · intro r' h'
      cases h'
      rfl
  | .noMatch h => by
    constructor
    · intro f d h'
      cases h' with
      | construct h₂ => cases h.unique h₂
    · intro r' h'
      cases h' with
      | noMatch => rfl
      | dropped => rfl
      | raised h₂ => cases h.unique h₂
  | .dropped h => by
    constructor
    · intro f d h'
      cases h' with
      | construct h₂ => cases h.unique h₂
    · intro r' h'
      cases h' with
      | noMatch => rfl
      | dropped => rfl
      | raised h₂ => cases h.unique h₂
  | .raised h => by
    constructor
    · intro f d h'
      cases h' with
      | construct h₂ => cases h.unique h₂
    · intro r' h'
      cases h' with
      | noMatch h₂ => cases h.unique h₂
      | dropped h₂ => cases h.unique h₂
      | raised h₂ => cases h.unique h₂; rfl

end

/-! ## Where matches lead -/

mutual

theorem Matches.ahead {c : Cursor} {name : String} {r : Except Failure (Option Match)} :
    Matches g c name r → ∀ m, r = .ok (some m) → c.Ahead m.cursor
  | .rule _ hr => hr.ahead

theorem Chooses.ahead {c : Cursor} {name : String} {as : List Alternative}
    {r : Except Failure (Option Match)} :
    Chooses g c name as r → ∀ m, r = .ok (some m) → c.Ahead m.cursor
  | .none => fun m hm => by cases hm
  | .next _ _ hr => hr.ahead
  | .first _ h _ hr => fun m hm => by
    rw [hm] at hr
    exact Alternative.cursor_of_verdict hr ▸ h.ahead
  | .raised _ _ => fun m hm => by cases hm
  | .lost _ => fun m hm => by cases hm

theorem Fits.ahead {c d : Cursor} {is : List Item} {fs : List Finding} :
    Fits g c is fs d → c.Ahead d
  | .nil => .refl _
  | .cons h hr => h.ahead.trans hr.ahead

theorem Takes.ahead {c d : Cursor} {i : Item} {f : Finding} : Takes g c i f d → c.Ahead d
  | .lexeme h _ => h.toAhead
  | .construct h => h.ahead _ rfl

end

mutual

/-- Where a rule comes to a failure, it is a plain one: nothing here remembers the rules entered or
runs out of room. -/
theorem Matches.plain {c : Cursor} {name : String} {r : Except Failure (Option Match)} :
    Matches g c name r → ∀ e, r = .error e → e.Plain
  | .rule _ hr => hr.plain

theorem Chooses.plain {c : Cursor} {name : String} {as : List Alternative}
    {r : Except Failure (Option Match)} : Chooses g c name as r → ∀ e, r = .error e → e.Plain
  | .none => fun _ he => by cases he
  | .next _ _ hr => hr.plain
  | .first _ _ _ hr => fun e he => by
    rw [he] at hr
    exact Alternative.plain_of_verdict hr
  | .raised _ h => fun e he => h.plain e (by cases he; rfl)
  | .lost _ => fun e he => by cases he; exact .access _

theorem Breaks.plain {c : Cursor} {is : List Item} {r : Option Failure} :
    Breaks g c is r → ∀ e, r = some e → e.Plain
  | .here h => h.plain
  | .later _ hr => hr.plain

theorem Refuses.plain {c : Cursor} {i : Item} {r : Option Failure} :
    Refuses g c i r → ∀ e, r = some e → e.Plain
  | .mismatch _ => fun _ he => by cases he
  | .noMatch _ => fun _ he => by cases he
  | .dropped _ => fun _ he => by cases he
  | .raised h => fun e he => h.plain e (by cases he; rfl)

end

/-! ## Calls -/

/-- A row of items gets to a rule: all items before it match. -/
inductive ItemCalls (g : Grammar) : Cursor → List Item → Goal → Prop where
  | here {c : Cursor} {name : String} {is : List Item} : ItemCalls g c (.rule name :: is) ⟨c, name⟩
  | later {c d : Cursor} {i : Item} {is : List Item} {f : Finding} {q : Goal}
      (h : Takes g c i f d) (hq : ItemCalls g d is q) : ItemCalls g c (i :: is) q

/-- Alternatives get to a rule: all alternatives before that with the rule do not match. -/
inductive ChoiceCalls (g : Grammar) (c : Cursor) : List Alternative → Goal → Prop where
  | here {a : Alternative} {as : List Alternative} {q : Goal} (h : ItemCalls g c a.items q) :
      ChoiceCalls g c (a :: as) q
  | later {a : Alternative} {as : List Alternative} {q : Goal} (h : Breaks g c a.items none)
      (hq : ChoiceCalls g c as q) : ChoiceCalls g c (a :: as) q

/-- What `p` comes to depends on what `q` comes to. -/
def Calls (g : Grammar) (p q : Goal) : Prop :=
  p.cursor.InRow ∧ ∃ as, g.alternatives? p.rule = some as ∧ ChoiceCalls g p.cursor as q

/-- Every chain of calls from here on ends. -/
def Ends (g : Grammar) (p : Goal) : Prop := Acc (flip g.Calls) p

/-- Some chain of calls from `p` gets to `q` and comes back to it. -/
def Loops (g : Grammar) (p q : Goal) : Prop :=
  Relation.ReflTransGen g.Calls p q ∧ Relation.TransGen g.Calls q q

mutual

/-- **Where a rule comes to something, every chain of calls from it ends.** -/
theorem Matches.ends {c : Cursor} {name : String} {r : Except Failure (Option Match)} :
    Matches g c name r → g.Ends ⟨c, name⟩
  | .rule h hr => Acc.intro _ fun q ⟨hc, as, has, hq⟩ => by
    rw [h] at has
    cases has
    exact hr.ends hc q hq

theorem Chooses.ends {c : Cursor} {name : String} {as : List Alternative}
    {r : Except Failure (Option Match)} :
    Chooses g c name as r → c.InRow → ∀ q, ChoiceCalls g c as q → g.Ends q
  | .none, _, _, hq => by cases hq
  | .next _ h hr, hc, q, hq => by
    cases hq with
    | here hi => exact h.ends q hi
    | later _ hl => exact hr.ends hc q hl
  | .first _ h _ _, _, q, hq => by
    cases hq with
    | here hi => exact h.ends q hi
    | later hb _ => exact absurd hb (h.unique.2 _)
  | .raised _ h, _, q, hq => by
    cases hq with
    | here hi => exact h.ends q hi
    | later hb _ => cases h.unique.2 _ hb
  | .lost hl, hc, _, _ => by
    obtain ⟨o, ho⟩ := Cursor.offset_eq_ok_iff.mpr hc
    rw [ho] at hl
    cases hl

theorem Fits.ends {c d : Cursor} {is : List Item} {fs : List Finding} :
    Fits g c is fs d → ∀ q, ItemCalls g c is q → g.Ends q
  | .nil, _, hq => by cases hq
  | .cons h hr, q, hq => by
    have hi := h.ends
    cases hq with
    | here => exact hi _ rfl
    | later h₂ hl =>
      obtain ⟨-, rfl⟩ := h.unique.1 _ _ h₂
      exact hr.ends q hl

theorem Breaks.ends {c : Cursor} {is : List Item} {r : Option Failure} :
    Breaks g c is r → ∀ q, ItemCalls g c is q → g.Ends q
  | .here h, q, hq => by
    have hi := h.ends
    cases hq with
    | here => exact hi _ rfl
    | later h₂ _ => exact absurd h₂ (h.unique.1 _ _)
  | .later h hr, q, hq => by
    have hi := h.ends
    cases hq with
    | here => exact hi _ rfl
    | later h₂ hl =>
      obtain ⟨-, rfl⟩ := h.unique.1 _ _ h₂
      exact hr.ends q hl

theorem Takes.ends {c d : Cursor} {i : Item} {f : Finding} :
    Takes g c i f d → ∀ name, i = .rule name → g.Ends ⟨c, name⟩
  | .lexeme _ _, _, hi => by cases hi
  | .construct h, _, hi => by cases hi; exact h.ends

theorem Refuses.ends {c : Cursor} {i : Item} {r : Option Failure} :
    Refuses g c i r → ∀ name, i = .rule name → g.Ends ⟨c, name⟩
  | .mismatch _, _, hi => by cases hi
  | .noMatch h, _, hi => by cases hi; exact h.ends
  | .dropped h, _, hi => by cases hi; exact h.ends
  | .raised h, _, hi => by cases hi; exact h.ends

end

theorem Ends.not_cycle {p : Goal} (h : g.Ends p) : ¬ Relation.TransGen g.Calls p p := by
  have ht : Acc (Relation.TransGen (flip g.Calls)) p := Acc.transGen h
  induction ht with
  | intro p _ ih =>
    intro hc
    exact ih p (Relation.transGen_swap.mpr hc) h hc

theorem Ends.of_reach {p q : Goal} (h : g.Ends p) (hpq : Relation.ReflTransGen g.Calls p q) :
    g.Ends q := by
  induction hpq with
  | refl => exact h
  | tail _ hbc ih => exact Acc.inv ih hbc

theorem Ends.not_loops {p q : Goal} (h : g.Ends p) : ¬ g.Loops p q :=
  fun ⟨hpq, hqq⟩ => (h.of_reach hpq).not_cycle hqq

theorem Loops.head {p q x : Goal} (h : g.Calls p q) (hq : g.Loops q x) : g.Loops p x :=
  ⟨.head h hq.1, hq.2⟩

end Grammar

end Outline
