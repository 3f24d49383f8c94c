import Outline.Value.Bounds

/-!
# Spans

A span is a value of two parts that are offsets; the value that a bracketed group contributes is one.

* `SpanFault`, `SpanFault.message`: why a value is no span;
* `Span.parts`, `Span.interior`, `Span.offsets`: the parts of a value, the parts without a bracket at
  either end, and the parts as offsets. A stop of nothing is the end of the text.
-/

namespace Outline

/-- Why a value is no span. -/
inductive SpanFault where
  | notIterable (type : String)
  | tooFew (count : Nat)
  | tooMany
  | notNumbers (stop start : String)
  | notOrdered (left right : String)
deriving DecidableEq, Repr

/-- What is said about a fault. -/
def SpanFault.message : SpanFault → String
  | notIterable type => s!"cannot unpack non-iterable {type} object"
  | tooFew count => s!"not enough values to unpack (expected 2, got {count})"
  | tooMany => "too many values to unpack (expected 2)"
  | notNumbers stop start => s!"unsupported operand type(s) for -: '{stop}' and '{start}'"
  | notOrdered left right => s!"'<=' not supported between instances of '{left}' and '{right}'"

namespace Span

/-- The two parts of a value. -/
def parts (v : Value) : Except SpanFault (Value × Value) :=
  match v.elements with
  | .error _ => .error (.notIterable v.typeName)
  | .ok [start, stop] => .ok (start, stop)
  | .ok items => .error (if items.length < 2 then .tooFew items.length else .tooMany)

/-- The parts without the first and the last character, if there are two. -/
def interior (start stop : Value) : Except SpanFault (Value × Value) :=
  match start.toInt?, stop.toInt? with
  | some a, some b =>
    .ok (if 2 ≤ b - a then (.int (a + 1), .int (b - 1)) else (start, stop))
  | _, _ => .error (.notNumbers stop.typeName start.typeName)

/-- The parts as offsets; without a stop the span reaches to the end of the text. -/
def offsets (start stop : Value) : Except SpanFault (Int × Option Int) :=
  match start.toInt?, stop with
  | none, _ => .error (.notOrdered "int" start.typeName)
  | some a, .none => .ok (a, none)
  | some a, stop =>
    match stop.toInt? with
    | some b => .ok (a, some b)
    | none => .error (.notOrdered start.typeName stop.typeName)

end Span

end Outline
