import Outline.Value

/-!
# Constructs

What the grammar finds in a text: fields of the grammar's choice, and the stretch of text they come
from. As a value it is a tuple that ends in the two offsets.

* `Construct`, `Construct.toValue`;
* `Construct.Within`: the stretch lies in a text of a given length;
* `Defect`, `Construct.ofValue`: a value read as a construct, or what is wrong with it;
* `ofValue_toValue`, `ofValue_eq_ok_iff`: the values that are constructs, and of which.
-/

namespace Outline

/-- Fields and the stretch of text they describe. -/
structure Construct where
  fields : List Value
  start : Nat
  stop : Nat
deriving Inhabited

namespace Construct

/-- The tuple of the fields followed by the offsets. -/
def toValue (c : Construct) : Value := .tuple (c.fields ++ [.int c.start, .int c.stop])

/-- The stretch is in order and lies within the first `stop` characters, if a bound is given. -/
def Within (c : Construct) (bound : Option Int) : Prop :=
  c.start ≤ c.stop ∧ ∀ b ∈ bound, (c.stop : Int) ≤ b

end Construct

/-- What keeps a value from being a construct. -/
inductive Defect where
  | notBounded
  | notOffsets
  | badSpan (start stop : Int)
deriving DecidableEq, Repr

/-- What is said about a defect. -/
def Defect.message : Defect → String
  | notBounded => "expected a tuple ending in (start, end)"
  | notOffsets => "final two fields must be offsets"
  | badSpan start stop => s!"invalid span ({start}, {stop})"

namespace Construct

/-- Fields and two integers as a construct: the stretch has to be in order and within the bound. -/
def ofBounds (fields : List Value) (start stop : Int) (bound : Option Int) :
    Except Defect Construct :=
  if 0 ≤ start ∧ start ≤ stop ∧ ∀ b ∈ bound, stop ≤ b then
    .ok ⟨fields, start.toNat, stop.toNat⟩
  else .error (.badSpan start stop)

/-- A value as a construct: a tuple that ends in two offsets, in order and within the bound. -/
def ofValue (bound : Option Int) : Value → Except Defect Construct
  | .tuple items =>
    match items.reverse with
    | stop :: start :: rest =>
      match start, stop with
      | .int a, .int b => ofBounds rest.reverse a b bound
      | _, _ => .error .notOffsets
    | _ => .error .notBounded
  | _ => .error .notBounded

theorem ofBounds_eq_ok_iff {fields : List Value} {a b : Int} {bound : Option Int}
    {c : Construct} : ofBounds fields a b bound = .ok c ↔
      c.fields = fields ∧ (c.start : Int) = a ∧ (c.stop : Int) = b ∧ c.Within bound := by
  obtain ⟨f, s, e⟩ := c
  simp only [ofBounds, Within]
  split
  · rename_i h
    simp only [Except.ok.injEq, mk.injEq]
    constructor
    · rintro ⟨rfl, rfl, rfl⟩
      exact ⟨rfl, by omega, by omega, by omega, fun x hx => by have := h.2.2 x hx; omega⟩
    · rintro ⟨rfl, h2, h3, -⟩
      exact ⟨rfl, by omega, by omega⟩
  · rename_i h
    constructor
    · intro e
      cases e
    · rintro ⟨-, rfl, rfl, h4, h5⟩
      exact absurd ⟨by omega, by omega, h5⟩ h

theorem ofValue_toValue {c : Construct} {bound : Option Int} (h : c.Within bound) :
    ofValue bound c.toValue = .ok c := by
  simp only [toValue, ofValue, List.reverse_append, List.reverse_cons, List.reverse_nil,
    List.nil_append, List.cons_append, List.reverse_reverse]
  exact ofBounds_eq_ok_iff.mpr ⟨rfl, rfl, rfl, h⟩

theorem ofValue_eq_ok_iff {v : Value} {c : Construct} {bound : Option Int} :
    ofValue bound v = .ok c ↔ v = c.toValue ∧ c.Within bound := by
  refine ⟨fun h => ?_, fun ⟨h1, h2⟩ => h1 ▸ ofValue_toValue h2⟩
  unfold ofValue at h
  split at h
  · rename_i items
    split at h
    · rename_i stop start rest hr
      split at h
      · rename_i a b
        obtain ⟨h1, h2, h3, h4⟩ := ofBounds_eq_ok_iff.mp h
        have hi : items = rest.reverse ++ [.int a, .int b] := by
          rw [← List.reverse_reverse items, hr]
          simp
        refine ⟨?_, h4⟩
        rw [toValue, h1, h2, h3, hi]
      · cases h
    · cases h
  · cases h

end Construct

end Outline
