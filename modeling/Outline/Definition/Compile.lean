import Outline.Definition.Declaration

/-!
# Compiling grammars

A grammar source and the actions it names make a grammar. A name in it is a kind of lexeme, if it is
one of the lexer's own or declared anywhere in the source, and a rule otherwise.

* `ActionTable`, `ActionTable.find?`: actions by their names;
* `CompileError`, `CompileError.message`: why a source makes no grammar;
* `declaredKinds`, `startOf`: what the directives declare;
* `compileItem`, `compileAlternative`, `compileRules`;
* `compileGrammar`: the grammar of a source.
-/

namespace Outline

/-- Actions by their names. As attributes they are found under a name with underscores for hyphens,
or with one more underscore behind it. -/
inductive ActionTable where
  | empty
  | mapping (actions : List NamedAction)
  | attributes (actions : List NamedAction)

/-- An action that can be run. -/
def NamedAction.isCallable (a : NamedAction) : Bool :=
  match a.action with
  | .function _ => true
  | .inert _ => false

/-- The action for a name. -/
def ActionTable.find? (name : String) : ActionTable → Option NamedAction
  | empty => none
  | mapping actions => actions.find? (·.name == name)
  | attributes actions =>
    let plain := String.ofList (name.toList.map fun c => if c = '-' then '_' else c)
    let callable := fun (n : String) => (actions.find? (·.name == n)).filter (·.isCallable)
    (callable plain).or (callable (plain ++ "_"))

/-- Why a source makes no grammar. -/
inductive CompileError where
  | source (error : SourceError)
  | tokenRedefined (name : String)
  | ruleRedefined (name : String)
  | unknownAction (name : String)
  | patternOnRule (name : String)
  | invalidPattern (error : PatternError)
  | grammar (fault : GrammarFault)

/-- What is said about an error. -/
def CompileError.message : CompileError → String
  | source error => error.message
  | tokenRedefined name | ruleRedefined name | unknownAction name | patternOnRule name => name
  | invalidPattern error => s!"{quotedChars error.pattern.toList}: {error.message}"
  | grammar fault => fault.message

/-! ## Directives -/

/-- The names of kinds: the known ones and those that are declared, each once. -/
def declaredKinds : (known : List String) → List Declaration → Except CompileError (List String)
  | known, [] => .ok known
  | known, .token name :: ds =>
    if known.contains name then .error (.tokenRedefined name)
    else declaredKinds (known ++ [name]) ds
  | known, _ :: ds => declaredKinds known ds

/-- The start rule: the last one declared. -/
def startOf (ds : List Declaration) : String :=
  ds.foldl (fun start d => match d with | .start name => name | _ => start) "toplevel"

/-- The names of the lexer's own kinds. -/
def builtinNames : List String := Kind.builtin.map (·.name)

/-! ## Rules -/

/-- An item of an alternative. -/
def compileItem (kinds : List String) (name : String) (pattern : Option String) :
    Except CompileError Item :=
  if kinds.contains name then
    match pattern with
    | none => .ok (.terminal ⟨⟨name⟩, none⟩)
    | some p => do return .terminal ⟨⟨name⟩, some (← (Pattern.ofText p).mapError .invalidPattern)⟩
  else if pattern.isSome then .error (.patternOnRule name)
  else .ok (.rule name)

/-- The items of an alternative in order. -/
def compileItems (kinds : List String) :
    List (String × Option String) → Except CompileError (List Item)
  | [] => .ok []
  | (name, pattern) :: rest => do
    let item ← compileItem kinds name pattern
    return item :: (← compileItems kinds rest)

/-- An alternative: its action is looked up before its items are compiled. -/
def compileAlternative (kinds : List String) (actions : ActionTable) (a : AlternativeSource) :
    Except CompileError Alternative := do
  let action ← match a.action with
    | none => pure none
    | some name => match actions.find? name with
      | some action => pure (some action)
      | none => .error (.unknownAction name)
  return ⟨← compileItems kinds a.items, action⟩

/-- The alternatives of a rule in order. -/
def compileAlternatives (kinds : List String) (actions : ActionTable) :
    List AlternativeSource → Except CompileError (List Alternative)
  | [] => .ok []
  | a :: as => do
    let a ← compileAlternative kinds actions a
    return a :: (← compileAlternatives kinds actions as)

/-- The rules in order; `defined` are the names of those before. -/
def compileRules (kinds : List String) (actions : ActionTable) :
    (defined : List String) → List Declaration → Except CompileError (List Rule)
  | _, [] => .ok []
  | defined, .rule name alternatives :: ds => do
    if defined.contains name then .error (.ruleRedefined name)
    if kinds.contains name then .error (.tokenRedefined name)
    let alternatives ← compileAlternatives kinds actions alternatives
    return ⟨name, alternatives⟩ :: (← compileRules kinds actions (name :: defined) ds)
  | defined, _ :: ds => compileRules kinds actions defined ds

/-- The grammar of declarations. -/
def compileDeclarations (actions : ActionTable) (ds : List Declaration) :
    Except CompileError Grammar := do
  let kinds ← declaredKinds builtinNames ds
  let rules ← compileRules kinds actions [] ds
  let g := Grammar.ofRules rules (startOf ds)
  match g.fault? with
  | some fault => .error (.grammar fault)
  | none => return g

/-- The grammar of a source. -/
def compileGrammar (source : Text) (actions : ActionTable := .empty) : Except CompileError Grammar := do
  let ds ← (readDeclarations source).mapError .source
  compileDeclarations actions ds

end Outline
