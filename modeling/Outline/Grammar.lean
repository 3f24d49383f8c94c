import Outline.Lexeme
import Outline.Pattern
import Outline.Script

/-!
# Grammars

A grammar has rules in order, each with alternatives in order: of the alternatives that match, the
first is taken. An alternative is a row of items, each a kind of lexeme or the name of a rule, and an
action that builds a construct from what the items found.

* `Terminal`, `Item`, `Action`, `Alternative`, `Rule`, `Grammar`;
* `Terminal.literal`, `Terminal.accepts`, `Terminal.display`, `Alternative.display`;
* `Alternative.defaultValue`: what an alternative without an action builds;
* `Grammar.ofRules`: of rules with one name the last counts, at the place of the first;
* `alternatives?_eq_some`, `alternatives?_of_mem`: just the rules have alternatives;
* `names_putRule`, `rules_ofRules`: what that makes of the names, and that it changes nothing where
  the names differ.
-/

namespace Outline

/-- A single lexeme of a kind, whose text may have to match a pattern. -/
structure Terminal where
  kind : Kind
  pattern : Option Pattern := none
deriving DecidableEq

namespace Terminal

/-- The terminal for one text. -/
def literal (kind : Kind) (text : String) : Except PatternError Terminal := do
  return ⟨kind, some (← Pattern.ofText (Pattern.escape text))⟩

/-- The pattern, if there is one, matches the whole text. -/
def accepts (t : Terminal) (cs : List Char) : Bool := t.pattern.all (·.matchesAll cs)

/-- A terminal as shown in messages. -/
def display (t : Terminal) : String :=
  match t.pattern with
  | none => t.kind.name
  | some p => t.kind.name ++ " " ++ quoted p.source

end Terminal

/-- A part of an alternative. -/
inductive Item where
  | terminal (terminal : Terminal)
  | rule (name : String)
deriving DecidableEq

/-- An item as shown in messages. -/
def Item.display : Item → String
  | terminal t => t.display
  | rule name => name

/-- What an alternative runs on a match: a function of the values that were collected and of the
bounds of the match, or a value of some type that cannot be run. A result of nothing drops the
match. -/
inductive Action where
  | function (run : List Value → (start stop : Int) → Script Value)
  | inert (type : String)

/-- An action and the name it goes by. -/
structure NamedAction where
  name : String
  action : Action

/-- A row of items and what to do when all of them match. -/
structure Alternative where
  items : List Item := []
  action : Option NamedAction := none

namespace Alternative

/-- There are no items, so that the alternative matches anywhere. -/
def isEmpty (a : Alternative) : Bool := a.items.isEmpty

/-- The default action hands on what a single rule found. -/
def isPassThrough (a : Alternative) : Bool :=
  match a.items with
  | [.rule _] => true
  | _ => false

/-- An alternative as shown in messages. -/
def display (a : Alternative) : String :=
  if a.items.isEmpty then "<empty>" else String.intercalate " " (a.items.map Item.display)

/-- What is built without an action: the fields that a single rule found, or else all values. -/
def defaultValue (a : Alternative) (values : List Value) (start stop : Int) : Value :=
  match a.isPassThrough, values with
  | true, [.tuple fields] => .tuple (fields ++ [.int start, .int stop])
  | _, _ => .tuple (values ++ [.int start, .int stop])

end Alternative

/-- A name and its alternatives in order. -/
structure Rule where
  name : String
  alternatives : List Alternative

/-- Rules in order, with different names, and the rule that a text is made of. -/
structure Grammar where
  rules : List Rule
  start : String := "toplevel"
  distinct : (rules.map (·.name)).Nodup

namespace Grammar

/-- The names of the rules in order. -/
def names (g : Grammar) : List String := g.rules.map (·.name)

/-- The alternatives of a rule, if it is defined. -/
def alternatives? (g : Grammar) (name : String) : Option (List Alternative) :=
  (g.rules.find? (·.name == name)).map (·.alternatives)

/-- The alternatives of a rule. -/
def alternatives (g : Grammar) (name : String) : Except Failure (List Alternative) :=
  match g.alternatives? name with
  | some as => .ok as
  | none => .error (.undefinedRule name)

theorem alternatives?_eq_some {g : Grammar} {name : String} {as : List Alternative}
    (h : g.alternatives? name = some as) : ∃ r ∈ g.rules, r.name = name ∧ r.alternatives = as := by
  obtain ⟨r, hr, rfl⟩ := Option.map_eq_some_iff.mp h
  exact ⟨r, List.mem_of_find?_eq_some hr, by simpa using List.find?_some hr, rfl⟩

theorem alternatives?_of_mem {g : Grammar} {name : String} (h : name ∈ g.names) :
    ∃ as, g.alternatives? name = some as := by
  obtain ⟨r, hr, rfl⟩ := List.mem_map.mp h
  have hs : (g.rules.find? (·.name == r.name)).isSome := List.find?_isSome.mpr ⟨r, hr, by simp⟩
  obtain ⟨r', hr'⟩ := Option.isSome_iff_exists.mp hs
  exact ⟨r'.alternatives, by rw [alternatives?, hr']; rfl⟩

/-! ## Grammars from lists of rules -/

/-- Put a rule in place of the one with its name, or behind all others. -/
def putRule (r : Rule) : List Rule → List Rule
  | [] => [r]
  | s :: rest => if s.name = r.name then r :: rest else s :: putRule r rest

theorem names_putRule (r : Rule) : ∀ rs : List Rule, (putRule r rs).map (·.name) =
    if r.name ∈ rs.map (·.name) then rs.map (·.name) else rs.map (·.name) ++ [r.name]
  | [] => by simp [putRule]
  | s :: rest => by
    rw [putRule]
    by_cases h : s.name = r.name
    · simp [h]
    · rw [if_neg h, List.map_cons, names_putRule r rest]
      have h' : ¬ r.name = s.name := fun e => h e.symm
      simp only [List.map_cons, List.mem_cons, h', false_or]
      split <;> simp

theorem nodup_putRule (r : Rule) {rs : List Rule} (h : (rs.map (·.name)).Nodup) :
    ((putRule r rs).map (·.name)).Nodup := by
  rw [names_putRule]
  split
  · exact h
  · rename_i hr
    refine List.nodup_append.mpr ⟨h, by simp, fun a ha b hb e => hr ?_⟩
    rw [List.mem_singleton] at hb
    exact hb ▸ e ▸ ha

/-- The rules put in place one by one. -/
def collect (rules : List Rule) : List Rule := rules.foldl (fun rs r => putRule r rs) []

theorem nodup_foldl_putRule : ∀ (rules : List Rule) {rs : List Rule}, (rs.map (·.name)).Nodup →
    ((rules.foldl (fun rs r => putRule r rs) rs).map (·.name)).Nodup
  | [], _, h => h
  | r :: rest, _, h => nodup_foldl_putRule rest (nodup_putRule r h)

/-- The grammar of a list of rules. -/
def ofRules (rules : List Rule) (start : String := "toplevel") : Grammar :=
  ⟨collect rules, start, nodup_foldl_putRule rules List.nodup_nil⟩

theorem putRule_of_not_mem {r : Rule} : ∀ {rs : List Rule}, r.name ∉ rs.map (·.name) →
    putRule r rs = rs ++ [r]
  | [], _ => rfl
  | s :: rest, h => by
    rw [List.map_cons, List.mem_cons, not_or] at h
    rw [putRule, if_neg (fun e => h.1 e.symm), putRule_of_not_mem h.2, List.cons_append]

theorem foldl_putRule : ∀ (rules : List Rule) {rs : List Rule},
    ((rs ++ rules).map (·.name)).Nodup →
    rules.foldl (fun rs r => putRule r rs) rs = rs ++ rules
  | [], rs, _ => (List.append_nil rs).symm
  | r :: rest, rs, h => by
    have hr : r.name ∉ rs.map (·.name) := fun hm => by
      rw [List.map_append, List.nodup_append] at h
      exact h.2.2 _ hm _ (by simp) rfl
    rw [List.foldl_cons, putRule_of_not_mem hr, foldl_putRule rest (by simpa using h),
      List.append_assoc, List.singleton_append]

theorem rules_ofRules {rules : List Rule} {start : String} (h : (rules.map (·.name)).Nodup) :
    (ofRules rules start).rules = rules := by
  change collect rules = rules
  rw [collect, foldl_putRule rules (by simpa using h), List.nil_append]

end Grammar

end Outline
