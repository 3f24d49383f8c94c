import Outline.Grammar

/-!
# Rules that match without reading

* `Grammar.nullable`: the names of the rules that have an alternative of nullable rules alone, as the
  least set of names with that property; `Grammar.Derives`: the same as an inductive predicate;
* `Grammar.firstRules`: the rules that a rule may enter before anything is read.
-/

namespace Outline

/-- Every item is a rule among the given ones. -/
def Alternative.allOf (known : List String) (a : Alternative) : Bool :=
  a.items.all fun
    | .rule name => known.contains name
    | .terminal _ => false

namespace Grammar

/-- The given names and that of the rule, if an alternative of it consists of the given ones. -/
def addNullable (known : List String) (r : Rule) : List String :=
  if known.contains r.name then known
  else if r.alternatives.any (·.allOf known) then known ++ [r.name]
  else known

/-- One pass over all rules. -/
def nullablePass (g : Grammar) (known : List String) : List String :=
  g.rules.foldl addNullable known

/-- The result of a number of passes; one that adds nothing is the last. -/
def nullableAfter (g : Grammar) : (passes : Nat) → List String → List String
  | 0, known => known
  | passes + 1, known =>
    let more := g.nullablePass known
    if more.length = known.length then known else g.nullableAfter passes more

/-- The names of the rules that may match without reading anything. Every pass but the last adds a
name, so that one pass for each rule is enough. -/
def nullable (g : Grammar) : List String := g.nullableAfter g.rules.length []

/-- A rule can match without reading anything: it has an alternative of such rules alone. -/
inductive Derives (g : Grammar) : String → Prop where
  | intro {r : Rule} {a : Alternative} {names : List String} (rule_mem : r ∈ g.rules)
      (mem : a ∈ r.alternatives) (items : a.items = names.map Item.rule)
      (derives : ∀ name ∈ names, Derives g name) : Derives g r.name

/-- The rules named in a row of items up to the first that is not among the given ones or is no
rule. -/
def leading (known : List String) : List Item → List String
  | .rule name :: rest => if known.contains name then name :: leading known rest else [name]
  | _ => []

/-- The rules that a rule may enter before anything is read, if the given ones are those that may
match without reading. -/
def firstRules (g : Grammar) (name : String) (known : List String) : List String :=
  ((g.alternatives? name).getD []).flatMap fun a => leading known a.items

end Grammar

end Outline
