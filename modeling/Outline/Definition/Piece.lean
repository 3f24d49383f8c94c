import Outline.Definition.Unquote
import Outline.Grammar
import Outline.Lexer

/-!
# The pieces of a grammar source

A grammar source is read piece by piece: a directive, the head of a rule, an item, an action, a bar or
a semicolon. The pieces are themselves described by a grammar, so that rules of any length are read
without nesting.

* `Piece`, `Piece.fields`, `Piece.ofFields`: the pieces, and how constructs hold them;
* `Piece.alphabet`, `Piece.lexer`: how a source is cut into lexemes;
* `Piece.grammar`: the grammar of the pieces, and `Piece.grammarSource`: the same, written;
* `ofFields_fields`: what a construct holds is read back.
-/

namespace Outline

/-- A piece of a grammar source. -/
inductive Piece where
  | start (name : String)
  | token (name : String)
  | rule (name : String)
  | item (name : String) (pattern : Option String)
  | action (name : String)
  | separator
  | terminator
deriving DecidableEq, Repr

namespace Piece

/-- The fields of the construct that holds a piece. -/
def fields : Piece → List Value
  | start name => [.str "start", .str name]
  | token name => [.str "token", .str name]
  | rule name => [.str "rule", .str name]
  | item name pattern => [.str "item", .str name, pattern.elim .none .str]
  | action name => [.str "action", .str name]
  | separator => [.str "separator"]
  | terminator => [.str "terminator"]

/-- The piece that a construct holds. -/
def ofFields : List Value → Option Piece
  | [.str "start", .str name] => some (start name)
  | [.str "token", .str name] => some (token name)
  | [.str "rule", .str name] => some (rule name)
  | [.str "item", .str name, .none] => some (item name none)
  | [.str "item", .str name, .str pattern] => some (item name (some pattern))
  | [.str "action", .str name] => some (action name)
  | [.str "separator"] => some separator
  | [.str "terminator"] => some terminator
  | _ => none

theorem ofFields_fields (p : Piece) : ofFields p.fields = some p := by
  cases p with
  | item name pattern => cases pattern <;> rfl
  | _ => rfl

/-! ## Lexemes -/

/-- What the characters of a grammar source are for. -/
def alphabet : Alphabet where
  symbolChars := ['_', '-']
  punctuation := [':', '|', ';', '=', '>', '%']
  brackets := []
  quotes := ['"', '\'']
  escapes := ['\\']
  comments := [⟨['#'], ['\n']⟩]

/-- The rules for cutting a grammar source into lexemes. -/
def lexer : Lexer := { alphabet, ignoreComments := true }

/-! ## The grammar of the pieces -/

/-- A text of symbols, one for each value. -/
def texts : List Value → List String := List.map fun
  | .str s => s
  | _ => ""

/-- An action that builds a piece from the texts of a match. -/
def builds (name : String) (piece : List String → Piece) : NamedAction :=
  ⟨name, .function fun values start stop =>
    .done (.tuple ((piece (texts values)).fields ++ [.int start, .int stop]))⟩

/-- The actions that build pieces. -/
def actions : List NamedAction :=
  [builds "start_directive" fun ts => start (ts.getD 2 ""),
   builds "token_directive" fun ts => token (ts.getD 2 ""),
   builds "rule_head" fun ts => rule (ts.getD 0 ""),
   builds "alternative_separator" fun _ => separator,
   builds "rule_terminator" fun _ => terminator,
   builds "action_reference" fun ts => action (ts.getD 2 ""),
   builds "pattern_item" fun ts =>
     item (ts.getD 0 "") (some (String.ofList (unquote (ts.getD 1 "").toList))),
   builds "plain_item" fun ts => item (ts.getD 0 "") none]

/-- The pattern for one text. -/
def exactly (source : String) (cs : List Char) : Pattern :=
  ⟨source, Regex.ofSeq (cs.map fun c => .one (.single c))⟩

/-- A mark. -/
def mark (c : Char) (source : String := String.singleton c) : Item :=
  .terminal ⟨.punctuation, some (exactly source [c])⟩

/-- A symbol with a given text. -/
def word (text : String) : Item := .terminal ⟨.symbol, some (exactly text text.toList)⟩

/-- Any symbol. -/
def anyWord : Item := .terminal ⟨.symbol, none⟩

/-- Any string. -/
def anyString : Item := .terminal ⟨.string, none⟩

/-- The grammar whose constructs are the pieces of a source. -/
def grammar : Grammar where
  start := "declaration"
  rules :=
    [⟨"declaration",
      [⟨[mark '%', word "start", anyWord], actions[0]?⟩,
       ⟨[mark '%', word "token", anyWord], actions[1]?⟩,
       ⟨[anyWord, mark ':'], actions[2]?⟩,
       ⟨[mark '|' "\\|"], actions[3]?⟩,
       ⟨[mark ';'], actions[4]?⟩,
       ⟨[mark '=', mark '>', anyWord], actions[5]?⟩,
       ⟨[.rule "item"], none⟩]⟩,
     ⟨"item",
      [⟨[anyWord, anyString], actions[6]?⟩,
       ⟨[anyWord], actions[7]?⟩]⟩]
  distinct := by decide

/-- The grammar of the pieces as a source, for a tool of the given name. -/
def grammarSource (tool : String) : String :=
  String.intercalate "\n"
    [s!"# The grammar of {tool} grammar source files.",
     "#",
     "# Source files consist of a series of %start and %token directives and rule",
     "# definitions. A rule definition is a name and a colon followed by its",
     "# alternatives, separated by '|' and terminated by ';'. An alternative is a",
     "# (possibly empty) sequence of items, optionally followed by '=>' and the",
     "# name of an action.",
     "#",
     "# Each declaration matches just one of these pieces so that rules of any",
     "# length can be read without nesting. The pieces are assembled into rules by",
     "# the grammar compiler.",
     "",
     "%start declaration",
     "",
     "declaration : punctuation \"%\" symbol \"start\" symbol => start_directive",
     "            | punctuation \"%\" symbol \"token\" symbol => token_directive",
     "            | symbol punctuation \":\" => rule_head",
     "            | punctuation \"\\|\" => alternative_separator",
     "            | punctuation \";\" => rule_terminator",
     "            | punctuation \"=\" punctuation \">\" symbol => action_reference",
     "            | item",
     "            ;",
     "",
     "# A terminal kind or nonterminal name, optionally followed by a pattern",
     "item : symbol string => pattern_item",
     "     | symbol => plain_item",
     "     ;",
     ""]

end Piece

end Outline
