import Outline.Definition.Piece
import Outline.Session

/-!
# Declarations

A grammar source is a list of declarations: the start rule, a kind of lexeme, or a rule with its
alternatives. They are put together from the pieces of the source, one after the other.

* `AlternativeSource`, `Declaration`: what a source says, as names and texts;
* `SourceFault`, `SourceError`: why a text is no grammar source;
* `Located.ofConstruct`: a piece with its place;
* `Drafting`, `assemble`: the rule that is being read, and the declarations of a list of pieces;
* `readDeclarations`: the declarations of a source.
-/

namespace Outline

/-- An alternative as written: names with the patterns behind them, and the name of an action. -/
structure AlternativeSource where
  items : List (String × Option String)
  action : Option String
deriving DecidableEq, Repr

/-- A declaration of a grammar source. -/
inductive Declaration where
  | start (name : String)
  | token (name : String)
  | rule (name : String) (alternatives : List AlternativeSource)
deriving DecidableEq, Repr

/-- A text, or nothing, as a value. -/
def Value.ofText? (s : Option String) : Value := s.elim .none .str

/-- An alternative as a value: the tuple of its items, and its action. -/
def AlternativeSource.toValue (a : AlternativeSource) : Value :=
  .tuple [.tuple (a.items.map fun (name, pattern) => .tuple [.str name, .ofText? pattern]),
    .ofText? a.action]

/-- A declaration as a value. -/
def Declaration.toValue : Declaration → Value
  | start name => .tuple [.str "start", .str name]
  | token name => .tuple [.str "token", .str name]
  | rule name alternatives =>
    .tuple [.str "rule", .str name, .tuple (alternatives.map AlternativeSource.toValue)]

/-! ## What can go wrong -/

/-- Why a text is no grammar source. -/
inductive SourceFault where
  | lexical (fault : LexFault)
  | noPiece
  | noDeclaration
  | pieceAfterAction
  | unendedRule (name : String)
  | unterminatedRule (name : String)
deriving DecidableEq, Repr

/-- What is said about a fault. -/
def SourceFault.message : SourceFault → String
  | lexical fault => fault.message
  | noPiece => "Expected a rule, directive, item or action"
  | noDeclaration => "Expected a rule definition or declaration"
  | pieceAfterAction => "Expected '|' or ';' after action"
  | unendedRule name => s!"Expected ';' to end rule {quoted name}"
  | unterminatedRule name => s!"Unterminated rule {quoted name} (expected ';')"

/-- A fault of a source, or a failure to parse it at all. -/
inductive SourceError where
  | fault (source : Text) (offset : Int) (fault : SourceFault)
  | failed (failure : Failure)

/-- What is said about an error. -/
def SourceError.message : SourceError → String
  | fault source offset f => source.pointOut offset f.message
  | failed failure => failure.message

/-- A failure to parse as an error of the source. -/
def SourceError.ofFailure (source : Text) : Failure → SourceError
  | .lex (.fault _ offset f) => .fault source offset (.lexical f)
  | .parse _ offset _ _ => .fault source offset .noPiece
  | failure => .failed failure

/-! ## From pieces to declarations -/

/-- A piece and the offset where it starts. -/
structure Located where
  piece : Piece
  offset : Nat
deriving DecidableEq, Repr

/-- The piece that a construct holds. -/
def Located.ofConstruct (c : Construct) : Option Located :=
  (Piece.ofFields c.fields).map (⟨·, c.start⟩)

/-- The rule that is being read. -/
structure Drafting where
  name : String
  /-- Where the rule starts. -/
  offset : Nat
  /-- The finished alternatives, in reverse. -/
  alternatives : List AlternativeSource := []
  /-- The items of the present alternative, in reverse. -/
  items : List (String × Option String) := []
  action : Option String := none
deriving DecidableEq, Repr

namespace Drafting

/-- The present alternative is finished. -/
def bar (d : Drafting) : Drafting :=
  { d with alternatives := ⟨d.items.reverse, d.action⟩ :: d.alternatives, items := [], action := none }

/-- The rule is finished. -/
def close (d : Drafting) : Declaration := .rule d.name d.bar.alternatives.reverse

/-- The draft with one more piece inside the rule, or what is wrong with it there. -/
def add (d : Drafting) : Piece → Except SourceFault Drafting
  | .item name pattern =>
    if d.action.isSome then .error .pieceAfterAction
    else .ok { d with items := (name, pattern) :: d.items }
  | .action name =>
    if d.action.isSome then .error .pieceAfterAction else .ok { d with action := some name }
  | .separator => .ok d.bar
  | _ => .error (.unendedRule d.name)

end Drafting

/-- The declarations of pieces; `draft` is the rule that is being read. -/
def assemble (source : Text) : (draft : Option Drafting) → List Located →
    Except SourceError (List Declaration)
  | none, [] => .ok []
  | some d, [] => .error (.fault source d.offset (.unterminatedRule d.name))
  | none, ⟨.start name, _⟩ :: ps => do return .start name :: (← assemble source none ps)
  | none, ⟨.token name, _⟩ :: ps => do return .token name :: (← assemble source none ps)
  | none, ⟨.rule name, offset⟩ :: ps => assemble source (some { name, offset }) ps
  | none, ⟨_, offset⟩ :: _ => .error (.fault source offset .noDeclaration)
  | some d, ⟨.terminator, _⟩ :: ps => do return d.close :: (← assemble source none ps)
  | some d, ⟨piece, offset⟩ :: ps =>
    match d.add piece with
    | .ok d => assemble source (some d) ps
    | .error fault => .error (.fault source offset fault)

/-- The constructs of a grammar source: its pieces. -/
def readPieces (source : Text) : Except ParseAllError (List Construct) :=
  Outline.parseAll { grammar := Piece.grammar, lexer := Piece.lexer } source

/-- The declarations of a grammar source. -/
def readDeclarations (source : Text) : Except SourceError (List Declaration) :=
  match readPieces source with
  | .ok constructs => assemble source none (constructs.filterMap Located.ofConstruct)
  | .error (.failure failure) => .error (.ofFailure source failure)
  | .error (.grammar fault) => .error (.failed (.raised fault.message))

end Outline
