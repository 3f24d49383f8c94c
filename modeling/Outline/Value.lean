import Outline.Text.Quoted

/-!
# Values

What actions collect and build: nothing, truth values, integers, reals, strings, tuples and lists.

* `Value`, `Value.span`: the values, and a pair of offsets as one;
* `Value.typeName`: the name of a value's type in messages;
* `Value.render`, `Value.display`: a value as shown in messages. Only a string is shown in two ways,
  in quotes and bare.
-/

namespace Outline

/-- A value. A real number is kept as its decimal text. -/
inductive Value where
  | none
  | bool (b : Bool)
  | int (n : Int)
  | real (text : String)
  | str (s : String)
  | tuple (items : List Value)
  | list (items : List Value)
deriving Inhabited, BEq

namespace Value

/-- A pair of offsets. -/
def span (start stop : Int) : Value := tuple [int start, int stop]

/-- The name of a value's type. -/
def typeName : Value → String
  | none => "NoneType"
  | bool _ => "bool"
  | int _ => "int"
  | real _ => "float"
  | str _ => "str"
  | tuple _ => "tuple"
  | list _ => "list"

/-- The whole number that a value stands for: a truth value counts as one or zero. -/
def toInt? : Value → Option Int
  | bool b => some (if b then 1 else 0)
  | int n => some n
  | _ => Option.none

mutual

/-- A value as shown inside others and in quotes. -/
def render : Value → String
  | none => "None"
  | bool true => "True"
  | bool false => "False"
  | int n => toString n
  | real text => text
  | str s => quoted s
  | tuple [item] => "(" ++ render item ++ ",)"
  | tuple items => "(" ++ String.intercalate ", " (renderAll items) ++ ")"
  | list items => "[" ++ String.intercalate ", " (renderAll items) ++ "]"

/-- Each value as shown inside others. -/
def renderAll : List Value → List String
  | [] => []
  | item :: items => render item :: renderAll items

end

/-- A value as shown on its own: a string bare, all else as inside others. -/
def display : Value → String
  | str s => s
  | v => v.render

end Value

end Outline
