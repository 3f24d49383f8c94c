import Outline.Value

/-!
# Values that end in bounds

A value that describes a stretch of text ends in its two offsets. Here the offsets are read, cut off
and put on, from whatever can be indexed: tuples, lists and strings.

* `AccessFault`: why a value has no such part;
* `Value.elements`: the parts in order;
* `Value.start`, `Value.stop`, `Value.bounds`, `Value.stripBounds`, `Value.withBounds`;
* `stripBounds_withBounds`: what was put on is cut off again.
-/

namespace Outline

/-- Why a part of a value could not be had. -/
inductive AccessFault where
  | outOfRange (container : String)
  | notSubscriptable (type : String)
  | notIterable (type : String)
deriving DecidableEq, Repr

/-- What is said about a fault. -/
def AccessFault.message : AccessFault → String
  | outOfRange container => s!"{container} index out of range"
  | notSubscriptable type => s!"'{type}' object is not subscriptable"
  | notIterable type => s!"'{type}' object is not iterable"

namespace Value

/-- The parts of a string: its characters. -/
def characters (s : String) : List Value := s.toList.map fun c => str (String.singleton c)

/-- The parts of a value in order. -/
def elements : Value → Except AccessFault (List Value)
  | tuple items => .ok items
  | list items => .ok items
  | str s => .ok (characters s)
  | v => .error (.notIterable v.typeName)

/-- The part at an index; a negative one counts from the end. -/
def item (v : Value) (index : Int) : Except AccessFault Value :=
  match v.elements with
  | .error _ => .error (.notSubscriptable v.typeName)
  | .ok items =>
    let i := if index < 0 then items.length + index else index
    match if i < 0 then Option.none else items[i.toNat]? with
    | some part => .ok part
    | Option.none => .error (.outOfRange (match v with | str _ => "string" | _ => v.typeName))

/-- The start offset: the last part but one. -/
def start (v : Value) : Except AccessFault Value := v.item (-2)

/-- The stop offset: the last part. -/
def stop (v : Value) : Except AccessFault Value := v.item (-1)

/-- Both offsets. -/
def bounds (v : Value) : Except AccessFault Value := do
  let a ← v.start
  let b ← v.stop
  return tuple [a, b]

/-- A value without its last two parts. -/
def stripBounds : Value → Except AccessFault Value
  | tuple items => .ok (tuple (items.take (items.length - 2)))
  | list items => .ok (list (items.take (items.length - 2)))
  | str s => .ok (str (String.ofList (s.toList.take (s.toList.length - 2))))
  | v => .error (.notSubscriptable v.typeName)

/-- The tuple of a value's parts followed by two offsets. -/
def withBounds (v start stop : Value) : Except AccessFault Value := do
  let items ← v.elements
  return tuple (items ++ [start, stop])

theorem stripBounds_withBounds (items : List Value) (a b : Value) :
    ((tuple items).withBounds a b).bind stripBounds = .ok (tuple items) := by
  change Except.ok (tuple ((items ++ [a, b]).take ((items ++ [a, b]).length - 2))) = _
  rw [List.length_append, List.length_cons, List.length_singleton, Nat.add_sub_cancel,
    List.take_left]

end Value

end Outline
