import Outline.Engine.Rule

/-!
# Findings

What the items of an alternative find, item by item, and what is collected from that.

* `Finding`, `Finding.start`, `Finding.stop`: what one item contributes, and the bounds of what
  several cover together;
* `Collected.add`, `Collected.addAll`: one finding, and several, behind what has been collected;
* `Collected.span_addAll`: what is collected from nothing covers just what its findings cover.
-/

namespace Outline

/-- What one item has found: a value, and a stretch of text unless nothing was read. -/
structure Finding where
  value : Value
  stretch : Option (Int × Int)

namespace Finding

/-- A lexeme as a finding. -/
def ofLexeme (l : Lexeme) (text : Text) : Finding := ⟨l.value text, some (l.start, l.stop)⟩

/-- A match of a rule from `c` up to `d` as a finding. -/
def ofConstruct (found : Construct) (c d : Cursor) : Finding :=
  ⟨.tuple found.fields, if d.index = c.index then none else some (found.start, found.stop)⟩

/-- The stretches in order. -/
def stretches (fs : List Finding) : List (Int × Int) := fs.filterMap (·.stretch)

/-- Where the first stretch starts; the offset if there is none. -/
def start (offset : Int) (fs : List Finding) : Int :=
  ((stretches fs).head?.map (·.1)).getD offset

/-- Where the last stretch ends; the offset if there is none. -/
def stop (offset : Int) (fs : List Finding) : Int :=
  ((stretches fs).getLast?.map (·.2)).getD offset

@[simp] theorem stretches_nil : stretches [] = [] := rfl

@[simp] theorem stretches_cons (f : Finding) (fs : List Finding) :
    stretches (f :: fs) = f.stretch.toList ++ stretches fs := by
  obtain ⟨v, _ | p⟩ := f <;> rfl

theorem stop_cons (offset : Int) (f : Finding) (fs : List Finding) :
    stop offset (f :: fs) = stop ((f.stretch.map (·.2)).getD offset) fs := by
  unfold stop
  rw [stretches_cons, List.getLast?_append]
  cases (stretches fs).getLast? with
  | some p => rfl
  | none => cases f.stretch <;> rfl

end Finding

namespace Collected

/-- A finding is added, behind which a cursor stands. -/
def add (k : Collected) (f : Finding) (cursor : Cursor) : Collected where
  values := k.values.push f.value
  start := k.start <|> f.stretch.map (·.1)
  stop := (f.stretch.map (·.2)).getD k.stop
  cursor := cursor

/-- Findings are added in order. -/
def addAll (k : Collected) (fs : List Finding) (cursor : Cursor) : Collected where
  values := k.values ++ (fs.map (·.value)).toArray
  start := k.start <|> (Finding.stretches fs).head?.map (·.1)
  stop := Finding.stop k.stop fs
  cursor := cursor

theorem addLexeme_eq (k : Collected) (l : Lexeme) (cursor : Cursor) :
    k.addLexeme l cursor = k.add (.ofLexeme l cursor.text) cursor := by
  unfold addLexeme add
  cases h : k.start <;> rfl

theorem addConstruct_eq (k : Collected) (found : Construct) (cursor : Cursor) :
    k.addConstruct found cursor = k.add (.ofConstruct found k.cursor cursor) cursor := by
  unfold addConstruct add Finding.ofConstruct
  by_cases hi : cursor.index = k.cursor.index
  · simp [hi]
  · cases h : k.start <;> simp [hi]

theorem addAll_nil (k : Collected) : k.addAll [] k.cursor = k := by
  simp [addAll, Finding.stop]

theorem addAll_cons (k : Collected) (f : Finding) (fs : List Finding) (c d : Cursor) :
    (k.add f c).addAll fs d = k.addAll (f :: fs) d := by
  unfold addAll
  rw [Finding.stop_cons, Finding.stretches_cons]
  congr 1
  · simp [add]
  · cases hk : k.start <;> cases hf : f.stretch <;> simp [add, hk, hf]

theorem values_addAll (offset : Int) (c d : Cursor) (fs : List Finding) :
    (({ stop := offset, cursor := c } : Collected).addAll fs d).values.toList =
      fs.map (·.value) := by
  simp [addAll]

theorem span_addAll (offset : Int) (c d : Cursor) (fs : List Finding) :
    let k := ({ stop := offset, cursor := c } : Collected).addAll fs d
    k.start.getD k.stop = Finding.start offset fs ∧ k.stop = Finding.stop offset fs := by
  refine ⟨?_, rfl⟩
  cases h : Finding.stretches fs with
  | nil => simp [addAll, Finding.start, Finding.stop, h]
  | cons p ps => simp [addAll, Finding.start, h]

end Collected

end Outline
