import Outline.Grammar.Nullable

/-!
# Well-formed grammars

A grammar is well formed if its start rule and all rules it mentions are defined and no rule can be
entered again before anything is read.

* `Grammar.reaches`: a search from a list of rules for one of them;
* `GrammarFault`, `Grammar.fault?`: the first thing that is wrong, in the order of the rules.
-/

namespace Outline

/-- What is wrong with a grammar. -/
inductive GrammarFault where
  | undefinedRule (name : String)
  | leftRecursion (name : String)
deriving DecidableEq, Repr

/-- A fault as shown in messages. -/
def GrammarFault.message : GrammarFault → String
  | undefinedRule name => s!"UndefinedRule(name={quoted name})"
  | leftRecursion name => s!"LeftRecursion(name={quoted name})"

namespace Grammar

/-- The rules mentioned in the grammar, in order. -/
def mentioned (g : Grammar) : List String :=
  g.rules.flatMap fun r => r.alternatives.flatMap fun a => a.items.filterMap fun
    | .rule name => some name
    | .terminal _ => none

theorem mem_mentioned {g : Grammar} {r : Rule} {a : Alternative} {name : String} (hr : r ∈ g.rules)
    (ha : a ∈ r.alternatives) (hi : .rule name ∈ a.items) : name ∈ g.mentioned :=
  List.mem_flatMap.mpr ⟨r, hr, List.mem_flatMap.mpr ⟨a, ha,
    List.mem_filterMap.mpr ⟨.rule name, hi, rfl⟩⟩⟩

/-- Some way along `next` leads from the rules to be visited to the goal. Each rule that is not
visited yet is left at most once. -/
def reaches (next : String → List String) (goal : String) :
    (unvisited toVisit : List String) → Bool
  | _, [] => false
  | unvisited, name :: rest =>
    if name = goal then true
    else if name ∈ unvisited then
      reaches next goal (unvisited.erase name) (next name ++ rest)
    else reaches next goal unvisited rest
termination_by unvisited toVisit => (unvisited.length, toVisit.length)
decreasing_by
  · rename_i h
    have := List.length_erase_of_mem h
    have := List.length_pos_of_mem h
    exact Prod.Lex.left _ _ (by omega)
  · exact Prod.Lex.right _ (Nat.lt_succ_self _)

/-- The rule can be entered from itself before anything is read, if `first` gives the rules that each
may enter so. -/
def isLeftRecursive (g : Grammar) (first : String → List String) (name : String) : Bool :=
  reaches first name g.names (first name)

/-- The first thing that is wrong: an undefined start rule, an undefined rule that is mentioned, a
rule that can be entered from itself before anything is read. -/
def fault? (g : Grammar) : Option GrammarFault :=
  if !g.names.contains g.start then some (.undefinedRule g.start)
  else match g.mentioned.find? (!g.names.contains ·) with
    | some name => some (.undefinedRule name)
    | none =>
      let known := g.nullable
      let firsts := g.names.map fun name => (name, g.firstRules name known)
      let first := fun name => ((firsts.find? (·.1 == name)).map (·.2)).getD []
      (g.names.find? (g.isLeftRecursive first)).map .leftRecursion

end Grammar

end Outline
