import Mathlib.Data.List.Forall2
import Outline.Definition.Compile
import Outline.Proofs.Grammar.WellFormed

/-!
# Consistent declarations

When declarations make a grammar, and which one, said of the declarations alone. Neither depends on how the
directives stand among the rules.

* `Declaration.tokens`, `Declaration.rules`, `Declaration.startName`, `Declaration.kinds`: what is declared;
* `Declaration.Vanishes`, `Declaration.Enters`: rules that match without reading, and rules that are entered
  before anything is read;
* `ActionTable.Knows`, `Pattern.Valid`, `Consistent`: what declarations have to be like;
* `CompilesItem`, `CompilesAlternative`, `CompilesRule`, `Compiles`: the grammar that they make;
* `Compiles.derives_iff`, `Compiles.enters_iff`, **`Compiles.wellFormed_iff`**: the two notions of rules that
  are entered again come to the same.
-/

namespace Outline

open Relation

/-! ## What is declared -/

/-- A rule as it is declared. -/
structure RuleSource where
  name : String
  alternatives : List AlternativeSource

namespace Declaration

/-- The kind that is declared. -/
def token? : Declaration → Option String
  | token name => some name
  | _ => none

/-- The start rule that is declared. -/
def start? : Declaration → Option String
  | start name => some name
  | _ => none

/-- The rule that is declared. -/
def rule? : Declaration → Option RuleSource
  | rule name alternatives => some ⟨name, alternatives⟩
  | _ => none

/-- The declared kinds in order. -/
def tokens (ds : List Declaration) : List String := ds.filterMap token?

/-- The declared rules in order. -/
def rules (ds : List Declaration) : List RuleSource := ds.filterMap rule?

/-- The names of the declared rules. -/
def ruleNames (ds : List Declaration) : List String := (rules ds).map (·.name)

/-- The start rule: the last one that is declared, or the one that is called `toplevel`. -/
def startName (ds : List Declaration) : String := (ds.filterMap start?).getLastD "toplevel"

/-- The names of kinds: those of the lexer and the declared ones. -/
def kinds (ds : List Declaration) : List String := builtinNames ++ tokens ds

/-- A rule can match without reading anything: it has an alternative of such rules alone. -/
inductive Vanishes (ds : List Declaration) : String → Prop where
  | intro {r : RuleSource} {a : AlternativeSource} (rule_mem : r ∈ rules ds) (mem : a ∈ r.alternatives)
      (rules : ∀ i ∈ a.items, i.1 ∉ kinds ds) (vanishes : ∀ i ∈ a.items, Vanishes ds i.1) :
      Vanishes ds r.name

/-- An alternative of `name` has the rule `other` behind rules alone that can match without reading. -/
def Enters (ds : List Declaration) (name other : String) : Prop :=
  ∃ r ∈ rules ds, r.name = name ∧ ∃ a ∈ r.alternatives, ∃ before i behind,
    a.items = before ++ i :: behind ∧ i.1 = other ∧ other ∉ kinds ds ∧
      ∀ j ∈ before, j.1 ∉ kinds ds ∧ Vanishes ds j.1

end Declaration

open Declaration

/-! ## Consistency -/

/-- The attribute of the name is there and can be run. -/
def ActionTable.Callable (actions : List NamedAction) (name : String) : Prop :=
  ∃ a, actions.find? (·.name == name) = some a ∧ a.isCallable = true

/-- The table has an action for the name: a mapping has it as a key, and attributes have it with underscores
for hyphens, or so with one more underscore behind it. -/
def ActionTable.Knows (name : String) : ActionTable → Prop
  | empty => False
  | mapping actions => ∃ a ∈ actions, a.name = name
  | attributes actions =>
    let plain := String.ofList (name.toList.map fun c => if c = '-' then '_' else c)
    Callable actions plain ∨ Callable actions (plain ++ "_")

/-- The text writes a regular expression. -/
def Pattern.Valid (source : String) : Prop := ∃ p, ofText source = .ok p

/-- The declarations fit together. -/
structure Consistent (actions : ActionTable) (ds : List Declaration) : Prop where
  /-- No kind is declared twice, and none of the lexer's is declared. -/
  tokens_nodup : (tokens ds).Nodup
  tokens_new : ∀ name ∈ tokens ds, name ∉ builtinNames
  /-- No rule is declared twice, and no kind is declared as a rule. -/
  rules_nodup : (ruleNames ds).Nodup
  rules_new : ∀ name ∈ ruleNames ds, name ∉ kinds ds
  actions_known : ∀ r ∈ rules ds, ∀ a ∈ r.alternatives, ∀ name ∈ a.action, actions.Knows name
  /-- Patterns stand behind kinds, and are regular expressions. -/
  patterns_valid : ∀ r ∈ rules ds, ∀ a ∈ r.alternatives, ∀ i ∈ a.items, ∀ p ∈ i.2,
    i.1 ∈ kinds ds ∧ Pattern.Valid p
  start_declared : startName ds ∈ ruleNames ds
  items_declared : ∀ r ∈ rules ds, ∀ a ∈ r.alternatives, ∀ i ∈ a.items, i.1 ∉ kinds ds →
    i.1 ∈ ruleNames ds
  /-- No rule can be entered from itself before anything is read. -/
  acyclic : ∀ name, ¬ TransGen (Enters ds) name name

/-! ## The grammar -/

/-- An item is a terminal if its name is one of the kinds, and a rule otherwise. -/
inductive CompilesItem (kinds : List String) : String × Option String → Item → Prop where
  | rule {name : String} (h : name ∉ kinds) : CompilesItem kinds (name, none) (.rule name)
  | kind {name : String} (h : name ∈ kinds) :
      CompilesItem kinds (name, none) (.terminal ⟨⟨name⟩, none⟩)
  | pattern {name source : String} {p : Pattern} (h : name ∈ kinds) (hp : Pattern.ofText source = .ok p) :
      CompilesItem kinds (name, some source) (.terminal ⟨⟨name⟩, some p⟩)

/-- An alternative has its items in order, and the action of its name. -/
structure CompilesAlternative (kinds : List String) (actions : ActionTable) (a : AlternativeSource)
    (b : Alternative) : Prop where
  items : List.Forall₂ (CompilesItem kinds) a.items b.items
  action : Option.Rel (fun name action => actions.find? name = some action) a.action b.action

/-- A rule has its alternatives in order. -/
structure CompilesRule (kinds : List String) (actions : ActionTable) (r : RuleSource) (s : Rule) : Prop where
  name : s.name = r.name
  alternatives : List.Forall₂ (CompilesAlternative kinds actions) r.alternatives s.alternatives

/-- A grammar has the declared rules in order, and the start rule. -/
structure Compiles (actions : ActionTable) (ds : List Declaration) (g : Grammar) : Prop where
  rules : List.Forall₂ (CompilesRule (kinds ds) actions) (rules ds) g.rules
  start : g.start = startName ds

/-! ## Rows side by side -/

section Forall₂

variable {α β : Type} {R : α → β → Prop} {as : List α} {bs : List β}

theorem forall₂_exists_right (h : List.Forall₂ R as bs) : ∀ a ∈ as, ∃ b ∈ bs, R a b := by
  induction h with
  | nil => simp
  | cons hr _ ih =>
    refine List.forall_mem_cons.mpr ⟨⟨_, List.mem_cons_self, hr⟩, fun a ha => ?_⟩
    obtain ⟨b, hb, hr⟩ := ih a ha
    exact ⟨b, List.mem_cons_of_mem _ hb, hr⟩

theorem forall₂_exists_left (h : List.Forall₂ R as bs) : ∀ b ∈ bs, ∃ a ∈ as, R a b :=
  forall₂_exists_right h.flip

/-- A row has a row beside it just if each has one. -/
theorem exists_forall₂_iff : (∃ bs, List.Forall₂ R as bs) ↔ ∀ a ∈ as, ∃ b, R a b := by
  induction as with
  | nil => exact ⟨fun _ => by simp, fun _ => ⟨[], .nil⟩⟩
  | cons a as ih =>
    rw [List.forall_mem_cons, ← ih]
    constructor
    · rintro ⟨_, h⟩
      cases h with
      | cons hr h => exact ⟨⟨_, hr⟩, _, h⟩
    · rintro ⟨⟨b, hr⟩, bs, h⟩
      exact ⟨b :: bs, .cons hr h⟩

end Forall₂

/-! ## The rules that are entered -/

section Items

variable {ks : List String} {is : List (String × Option String)} {js : List Item}

theorem CompilesItem.eq_rule_iff {i : String × Option String} {j : Item} {name : String}
    (h : CompilesItem ks i j) : j = .rule name ↔ i.1 = name ∧ name ∉ ks := by
  cases h with
  | rule hk =>
    constructor
    · rintro ⟨⟩
      exact ⟨rfl, hk⟩
    · rintro ⟨rfl, -⟩
      rfl
  | kind hk | pattern hk =>
    refine iff_of_false (by rintro ⟨⟩) ?_
    rintro ⟨rfl, hn⟩
    exact hn hk

/-- Items that are rules alone. -/
theorem eq_map_rule_iff (h : List.Forall₂ (CompilesItem ks) is js) {names : List String} :
    js = names.map Item.rule ↔ is.map (·.1) = names ∧ ∀ name ∈ names, name ∉ ks := by
  induction h generalizing names with
  | nil => cases names <;> simp
  | cons hi _ ih =>
    cases names with
    | nil => simp
    | cons name names =>
      rw [List.map_cons, List.cons.injEq, hi.eq_rule_iff, ih, List.map_cons, List.cons.injEq,
        List.forall_mem_cons]
      tauto

/-- Items that are rules alone up to one of them. -/
theorem exists_split_iff {P : String → Prop} {other : String} (h : List.Forall₂ (CompilesItem ks) is js) :
    (∃ (before : List String) (behind : List Item),
      js = before.map Item.rule ++ .rule other :: behind ∧ ∀ n ∈ before, P n) ↔
      ∃ before i behind, is = before ++ i :: behind ∧ i.1 = other ∧ other ∉ ks ∧
        ∀ j ∈ before, j.1 ∉ ks ∧ P j.1 := by
  induction h with
  | nil => simp
  | @cons i j is js hi h ih =>
    constructor
    · rintro ⟨before, behind, heq, hP⟩
      cases before with
      | nil =>
        obtain ⟨rfl, rfl⟩ := List.cons.inj heq
        obtain ⟨hname, hk⟩ := hi.eq_rule_iff.mp rfl
        exact ⟨[], i, is, rfl, hname, hk, by simp⟩
      | cons n before =>
        obtain ⟨hj, hjs⟩ := List.cons.inj heq
        obtain ⟨rfl, hk⟩ := hi.eq_rule_iff.mp hj
        obtain ⟨hn, hP⟩ := List.forall_mem_cons.mp hP
        obtain ⟨us, i', vs, rfl, hi', hk', hus⟩ := ih.mp ⟨before, behind, hjs, hP⟩
        exact ⟨i :: us, i', vs, rfl, hi', hk', List.forall_mem_cons.mpr ⟨⟨hk, hn⟩, hus⟩⟩
    · rintro ⟨before, i', behind, heq, hname, hk, hP⟩
      cases before with
      | nil =>
        obtain ⟨rfl, rfl⟩ := List.cons.inj heq
        exact ⟨[], js, by rw [hi.eq_rule_iff.mpr ⟨hname, hk⟩]; rfl, by simp⟩
      | cons u before =>
        obtain ⟨rfl, his⟩ := List.cons.inj heq
        obtain ⟨⟨hu, hPu⟩, hP⟩ := List.forall_mem_cons.mp hP
        obtain ⟨names, vs, rfl, hnames⟩ := ih.mpr ⟨before, i', behind, his, hname, hk, hP⟩
        refine ⟨i.1 :: names, vs, ?_, List.forall_mem_cons.mpr ⟨hPu, hnames⟩⟩
        rw [hi.eq_rule_iff.mpr ⟨rfl, hu⟩]
        rfl

end Items

theorem CompilesRule.names_eq {ks : List String} {actions : ActionTable} {rs : List RuleSource}
    {ss : List Rule} (h : List.Forall₂ (CompilesRule ks actions) rs ss) : ss.map (·.name) = rs.map (·.name) := by
  induction h with
  | nil => rfl
  | cons hr _ ih => rw [List.map_cons, List.map_cons, hr.name, ih]

namespace Compiles

variable {actions : ActionTable} {ds : List Declaration} {g : Grammar} (h : Compiles actions ds g)
include h

theorem names_eq : g.names = ruleNames ds := CompilesRule.names_eq h.rules

/-- The rules that can match without reading are those that are declared so. -/
theorem derives_iff {name : String} : g.Derives name ↔ Vanishes ds name := by
  constructor
  · intro hd
    induction hd with
    | @intro s b names hs hb hitems _ ih =>
      obtain ⟨r, hr, hrule⟩ := forall₂_exists_left h.rules s hs
      obtain ⟨a, ha, halt⟩ := forall₂_exists_left hrule.alternatives b hb
      obtain ⟨hmap, hk⟩ := (eq_map_rule_iff halt.items).mp hitems
      have hmem : ∀ i ∈ a.items, i.1 ∈ names := fun i hi => hmap ▸ List.mem_map_of_mem hi
      rw [hrule.name]
      exact .intro hr ha (fun i hi => hk _ (hmem i hi)) fun i hi => ih _ (hmem i hi)
  · intro hv
    induction hv with
    | @intro r a hr ha hk _ ih =>
      obtain ⟨s, hs, hrule⟩ := forall₂_exists_right h.rules r hr
      obtain ⟨b, hb, halt⟩ := forall₂_exists_right hrule.alternatives a ha
      have hitems : b.items = (a.items.map (·.1)).map Item.rule :=
        (eq_map_rule_iff halt.items).mpr ⟨rfl, by simpa using hk⟩
      rw [← hrule.name]
      exact .intro hs hb hitems (by simpa using ih)

/-- The rules that are entered before anything is read are those that are declared so. -/
theorem enters_iff {name other : String} : g.Enters name other ↔ Enters ds name other := by
  constructor
  · rintro ⟨as, has, b, hb, hitems⟩
    obtain ⟨s, hs, rfl, rfl⟩ := Grammar.alternatives?_eq_some has
    obtain ⟨r, hr, hrule⟩ := forall₂_exists_left h.rules s hs
    obtain ⟨a, ha, halt⟩ := forall₂_exists_left hrule.alternatives b hb
    simp only [h.derives_iff] at hitems
    exact ⟨r, hr, hrule.name.symm, a, ha, (exists_split_iff halt.items).mp hitems⟩
  · rintro ⟨r, hr, rfl, a, ha, hitems⟩
    obtain ⟨s, hs, hrule⟩ := forall₂_exists_right h.rules r hr
    obtain ⟨b, hb, halt⟩ := forall₂_exists_right hrule.alternatives a ha
    refine ⟨s.alternatives, hrule.name ▸ g.alternatives?_eq_of_mem hs, b, hb, ?_⟩
    simp only [h.derives_iff]
    exact (exists_split_iff halt.items).mpr hitems

/-- The rules that are mentioned are those that are declared so. -/
theorem mem_mentioned_iff {name : String} : name ∈ g.mentioned ↔
    ∃ r ∈ Declaration.rules ds, ∃ a ∈ r.alternatives, ∃ i ∈ a.items, i.1 = name ∧ name ∉ kinds ds := by
  constructor
  · intro hm
    obtain ⟨s, hs, hm⟩ := List.mem_flatMap.mp hm
    obtain ⟨b, hb, hm⟩ := List.mem_flatMap.mp hm
    obtain ⟨j, hj, hname⟩ := List.mem_filterMap.mp hm
    obtain ⟨r, hr, hrule⟩ := forall₂_exists_left h.rules s hs
    obtain ⟨a, ha, halt⟩ := forall₂_exists_left hrule.alternatives b hb
    obtain ⟨i, hi, hitem⟩ := forall₂_exists_left halt.items j hj
    cases j with
    | terminal t => cases hname
    | rule n =>
      cases hname
      exact ⟨r, hr, a, ha, i, hi, hitem.eq_rule_iff.mp rfl⟩
  · rintro ⟨r, hr, a, ha, i, hi, hname⟩
    obtain ⟨s, hs, hrule⟩ := forall₂_exists_right h.rules r hr
    obtain ⟨b, hb, halt⟩ := forall₂_exists_right hrule.alternatives a ha
    obtain ⟨j, hj, hitem⟩ := forall₂_exists_right halt.items i hi
    obtain rfl := hitem.eq_rule_iff.mpr hname
    exact Grammar.mem_mentioned hs hb hj

/-- **The grammar of declarations is well formed just if the declarations say so.** -/
theorem wellFormed_iff : g.WellFormed ↔ startName ds ∈ ruleNames ds ∧
    (∀ r ∈ Declaration.rules ds, ∀ a ∈ r.alternatives, ∀ i ∈ a.items, i.1 ∉ kinds ds →
      i.1 ∈ ruleNames ds) ∧ ∀ name, ¬ TransGen (Enters ds) name name := by
  have henters : g.Enters = Enters ds := by
    funext name other
    exact propext h.enters_iff
  have hclosed : g.Closed ↔ ∀ r ∈ Declaration.rules ds, ∀ a ∈ r.alternatives, ∀ i ∈ a.items,
      i.1 ∉ kinds ds → i.1 ∈ ruleNames ds := by
    simp only [Grammar.Closed, h.mem_mentioned_iff, h.names_eq]
    constructor
    · exact fun hc r hr a ha i hi hk => hc _ ⟨r, hr, a, ha, i, hi, rfl, hk⟩
    · rintro hc _ ⟨r, hr, a, ha, i, hi, rfl, hk⟩
      exact hc r hr a ha i hi hk
  rw [← hclosed, ← henters, ← h.names_eq, ← h.start]
  exact ⟨fun hw => ⟨hw.start, hw.closed, hw.acyclic⟩, fun ⟨hs, hc, ha⟩ => ⟨hs, hc, ha⟩⟩

end Compiles

end Outline
