import Outline.Pattern.Fault
import Outline.Pattern.Regex

/-!
# Reading patterns

A pattern is cut into signs (`Sign`), a character or a backslash with the character after it. The signs
are read from left to right; what is not finished yet is a stack of open groups (`Frame`).

* `signsOf`: the signs of a pattern;
* `Reading`: what is left to read. Going on to a lone backslash at the end of the pattern is a fault,
  which therefore comes before any fault of what was just read;
* `readEscape`, `readSet`, `readBounds`, `readOpening`: the parts of several signs;
* `readSign`, `readAll`: one step and all steps;
* `readRegex`: the expression that a text writes.
-/

namespace Outline

/-- A character, or a backslash and a character, with its place. -/
structure Sign where
  place : Nat
  escaped : Bool
  char : Char
deriving DecidableEq

/-- A sign as written. -/
def Sign.text (s : Sign) : String :=
  if s.escaped then String.ofList ['\\', s.char] else String.singleton s.char

/-- A plain character as a sign. -/
def Sign.is (s : Sign) (c : Char) : Bool := !s.escaped && s.char == c

/-- The signs of a pattern, and the place of a lone backslash at its end. -/
def signsOf : (place : Nat) → List Char → List Sign × Option Nat
  | _, [] => ([], none)
  | place, ['\\'] => ([], some place)
  | place, '\\' :: c :: cs =>
    let (signs, lone) := signsOf (place + 2) cs
    (⟨place, true, c⟩ :: signs, lone)
  | place, c :: cs =>
    let (signs, lone) := signsOf (place + 1) cs
    (⟨place, false, c⟩ :: signs, lone)

/-- What is left of a pattern. -/
structure Reading where
  pattern : Text
  signs : List Sign
  /-- The place of a lone backslash at the end. -/
  lone : Option Nat

namespace Reading

/-- The place of the next sign. -/
def place (r : Reading) : Nat :=
  match r.signs with
  | s :: _ => s.place
  | [] => r.pattern.length

/-- Give up for a fault at a place. -/
def fail {α : Type} (r : Reading) (fault : PatternFault) (place : Nat) : Except PatternError α :=
  .error ⟨r.pattern, fault, some place⟩

/-- Go on to the rest. -/
def goOn (r : Reading) (signs : List Sign) : Except PatternError Reading :=
  match signs, r.lone with
  | [], some place => r.fail .endsInEscape place
  | _, _ => .ok { r with signs }

/-- The next sign, if any is left, and what is left behind it. -/
def next (r : Reading) : Except PatternError (Option Sign × Reading) :=
  match r.signs with
  | [] => .ok (none, r)
  | s :: signs => do return (some s, ← r.goOn signs)

/-- What is left behind a character, if it comes next. -/
def skip? (r : Reading) (c : Char) : Except PatternError (Option Reading) :=
  match r.signs with
  | s :: signs => if s.is c then do return some (← r.goOn signs) else .ok none
  | [] => .ok none

/-- At most `limit` plain characters of a kind, and what is left behind them. -/
def run (r : Reading) (p : Char → Bool) : (limit : Nat) → Except PatternError (List Char × Reading)
  | 0 => .ok ([], r)
  | limit + 1 =>
    match r.signs with
    | s :: signs =>
      if !s.escaped && p s.char then do
        let (cs, rest) ← run (← r.goOn signs) p limit
        return (s.char :: cs, rest)
      else .ok ([], r)
    | [] => .ok ([], r)

end Reading

/-! ## Escapes -/

/-- The category that a letter stands for. -/
def categoryOf : Char → Option CharRange
  | 'd' => some (.category .digit false)
  | 'D' => some (.category .digit true)
  | 's' => some (.category .blank false)
  | 'S' => some (.category .blank true)
  | 'w' => some (.category .word false)
  | 'W' => some (.category .word true)
  | _ => none

/-- The anchor that a letter stands for. -/
def anchorOf : Char → Option Anchor
  | 'A' => some .textStart
  | 'Z' => some .textEnd
  | 'b' => some .wordEdge
  | 'B' => some .notWordEdge
  | _ => none

/-- The control character that a letter stands for. -/
def controlOf : Char → Option Char
  | 'a' => some '\x07'
  | 'f' => some '\x0c'
  | 'n' => some '\n'
  | 'r' => some '\r'
  | 't' => some '\t'
  | 'v' => some '\x0b'
  | _ => none

/-- The number of hexadecimal digits that a letter asks for. -/
def hexWidthOf : Char → Option Nat
  | 'x' => some 2
  | 'u' => some 4
  | 'U' => some 8
  | _ => none

/-- A hexadecimal digit. -/
def isHexDigit (c : Char) : Bool := c.isDigit || ('a' ≤ c && c ≤ 'f') || ('A' ≤ c && c ≤ 'F')

/-- The number that hexadecimal digits write. -/
def hexValue (cs : List Char) : Nat :=
  cs.foldl (fun n c =>
    16 * n + (if c.isDigit then c.toNat - 48 else if c.isLower then c.toNat - 87 else c.toNat - 55)) 0

/-- The code point of an escaped character that is neither category nor anchor. -/
def readEscape (r : Reading) (s : Sign) : Except PatternError (Nat × Reading) :=
  match controlOf s.char, hexWidthOf s.char with
  | some c, _ => .ok (c.toNat, r)
  | none, some width => do
    let (digits, rest) ← r.run isHexDigit width
    if digits.length = width then return (hexValue digits, rest)
    else r.fail (.incompleteEscape (s.text ++ String.ofList digits)) s.place
  | none, none =>
    if s.char.isDigit then r.fail (.invalidReference (String.singleton s.char)) (s.place + 1)
    else if s.char.isAlpha then r.fail (.badEscape s.text) s.place
    else .ok (s.char.toNat, r)

/-! ## Sets -/

/-- A member of a set: a category or a code point. -/
def readMember (r : Reading) (s : Sign) : Except PatternError (CharRange × Reading) :=
  if !s.escaped then .ok (.between s.char.toNat s.char.toNat, r)
  else if s.char = 'b' then .ok (.between 8 8, r)
  else match categoryOf s.char with
    | some category => .ok (category, r)
    | none => do
      let (n, rest) ← readEscape r s
      return (.between n n, rest)

/-- The range from one member to another, if both are single characters in order. -/
def CharRange.upTo? : CharRange → CharRange → Option CharRange
  | .between lo _, .between _ hi => if lo ≤ hi then some (.between lo hi) else none
  | _, _ => none

/-- The members of a set up to its end. `found` holds them in reverse. -/
def readMembers (opening : Nat) : (fuel : Nat) → (found : List CharRange) → Reading →
    Except PatternError (List CharRange × Reading)
  | 0, _, r => r.fail .unterminatedSet opening
  | fuel + 1, found, r => do
    let (s?, r) ← r.next
    match s? with
    | none => r.fail .unterminatedSet opening
    | some s =>
      if s.is ']' && !found.isEmpty then return (found.reverse, r)
      else
        let (first, r) ← readMember r s
        match ← r.skip? '-' with
        | none => readMembers opening fuel (first :: found) r
        | some r =>
          let (t?, r) ← r.next
          match t? with
          | none => r.fail .unterminatedSet opening
          | some t =>
            if t.is ']' then return ((.between 45 45 :: first :: found).reverse, r)
            else
              let (last, r) ← readMember r t
              match first.upTo? last with
              | some range => readMembers opening fuel (range :: found) r
              | none =>
                r.fail (.badRange s.text t.text) (r.place - (s.text.length + 1 + t.text.length))

/-- A set, from behind its bracket. -/
def readSet (opening : Nat) (r : Reading) : Except PatternError (CharSet × Reading) := do
  match ← r.skip? '^' with
  | some r =>
    let (parts, r) ← readMembers opening (r.signs.length + 1) [] r
    return (⟨true, parts⟩, r)
  | none =>
    let (parts, r) ← readMembers opening (r.signs.length + 1) [] r
    return (⟨false, parts⟩, r)

/-! ## Repetitions -/

/-- The number that decimal digits write. -/
def decimalValue (cs : List Char) : Nat := cs.foldl (fun n c => 10 * n + (c.toNat - 48)) 0

/-- The bounds of a repetition, from behind the brace; none if the brace stands for itself. -/
def readBounds (r : Reading) : Except PatternError (Option (Nat × Option Nat × Reading)) := do
  let start := r.place
  if r.signs.head?.any (·.is '\x7d') then return none
  let (lo, r) ← r.run Char.isDigit r.signs.length
  let (hi, r) ← match ← r.skip? ',' with
    | some r => r.run Char.isDigit r.signs.length
    | none => pure (lo, r)
  match ← r.skip? '\x7d' with
  | none => return none
  | some r =>
    let min := decimalValue lo
    let max := if hi.isEmpty then none else some (decimalValue hi)
    if max.any (· < min) then r.fail .emptyBounds start
    return some (min, max, r)

/-! ## Groups -/

/-- What a group is for. -/
inductive Opening where
  | group
  | atomic
  | ahead (negated : Bool)
  | behind (negated : Bool)
deriving DecidableEq

/-- The expression that a closed group stands for. -/
def Opening.close : Opening → Regex → Regex
  | group, body => .group body
  | atomic, body => .atomic body
  | ahead negated, body => .ahead negated body
  | behind negated, body => .behind negated body

/-- A group that is still open, or the whole pattern. -/
structure Frame where
  opening : Opening
  /-- The place of its parenthesis. -/
  place : Nat
  /-- The finished choices, in reverse. -/
  choices : List Regex := []
  /-- The expressions of the present choice, in reverse. -/
  items : List Regex := []

namespace Frame

/-- The frame with one more expression. -/
def push (f : Frame) (r : Regex) : Frame := { f with items := r :: f.items }

/-- The frame with its present choice finished. -/
def bar (f : Frame) : Frame :=
  { f with choices := Regex.ofSeq f.items.reverse :: f.choices, items := [] }

/-- The expression that the frame holds. -/
def body (f : Frame) : Regex := Regex.ofEither f.bar.choices.reverse

end Frame

/-- The flags behind `(?`, of which only `m` is known, up to the closing parenthesis. -/
def readFlags : (fuel : Nat) → Reading → Except PatternError Reading
  | 0, r => r.fail .unfinishedFlags r.place
  | fuel + 1, r => do
    let (s?, r) ← r.next
    match s? with
    | none => r.fail .unfinishedFlags r.place
    | some s =>
      if s.is ')' then return r
      else if s.is 'm' then readFlags fuel r
      else if s.char.isAlpha then r.fail .unknownFlag s.place
      else r.fail .unfinishedFlags s.place

/-- What is behind an opening parenthesis: the kind of the group, or nothing for flags. -/
def readOpening (r : Reading) : Except PatternError (Option Opening × Reading) := do
  match ← r.skip? '?' with
  | none => return (some .group, r)
  | some r =>
    let (s?, r) ← r.next
    match s? with
    | none => r.fail .endsEarly r.place
    | some s =>
      if s.is ':' then return (some .group, r)
      else if s.is '>' then return (some .atomic, r)
      else if s.is '=' then return (some (.ahead false), r)
      else if s.is '!' then return (some (.ahead true), r)
      else if s.is '<' then
        let (t?, r) ← r.next
        match t? with
        | none => r.fail .endsEarly r.place
        | some t =>
          if t.is '=' then return (some (.behind false), r)
          else if t.is '!' then return (some (.behind true), r)
          else r.fail (.unknownExtension ("<" ++ t.text)) (r.place - (t.text.length + 2))
      else if s.is 'm' then return (none, ← readFlags (r.signs.length + 1) r)
      else r.fail (.unknownExtension s.text) (r.place - (s.text.length + 1))

/-! ## The whole pattern -/

/-- The state of reading: the flag that lets `^` and `$` stand for lines, and the open groups, the
innermost first, above the frame of the whole pattern. -/
structure Draft where
  byLine : Bool := false
  groups : List Frame := []
  top : Frame := { opening := .group, place := 0 }

namespace Draft

/-- The innermost frame. -/
def frame (d : Draft) : Frame := d.groups.headD d.top

/-- Change the innermost frame. -/
def modify (d : Draft) (f : Frame → Frame) : Draft :=
  match d.groups with
  | [] => { d with top := f d.top }
  | inner :: outer => { d with groups := f inner :: outer }

/-- Nothing has been read yet. -/
def isFresh (d : Draft) : Bool := d.groups.isEmpty && d.top.choices.isEmpty && d.top.items.isEmpty

end Draft

/-- Put a repetition in place of the latest expression. -/
def repeatLast (d : Draft) (place min : Nat) (max : Option Nat) (r : Reading) :
    Except PatternError (Draft × Reading) :=
  match d.frame.items with
  | [] | .anchor _ :: _ => r.fail .nothingToRepeat place
  | .repeated .. :: _ => r.fail .multipleRepeat place
  | item :: items => do
    let (appetite, r) ← match ← r.skip? '?' with
      | some r => pure (Appetite.lazy, r)
      | none => match ← r.skip? '+' with
        | some r => pure (Appetite.possessive, r)
        | none => pure (Appetite.greedy, r)
    return (d.modify ({ · with items := .repeated appetite min max item :: items }), r)

/-- Read on from a sign. -/
def readSign (d : Draft) (s : Sign) (r : Reading) : Except PatternError (Draft × Reading) :=
  let push (item : Regex) : Draft := d.modify (·.push item)
  if s.escaped then
    match anchorOf s.char, categoryOf s.char with
    | some a, _ => .ok (push (.anchor a), r)
    | none, some category => .ok (push (.one ⟨false, [category]⟩), r)
    | none, none => do
      let (n, r) ← readEscape r s
      return (push (.one ⟨false, [.between n n]⟩), r)
  else match s.char with
    | '.' => .ok (push (.one .anyInLine), r)
    | '^' => .ok (push (.anchor (if d.byLine then .lineStart else .textStart)), r)
    | '$' => .ok (push (.anchor (if d.byLine then .lineEnd else .lastLineEnd)), r)
    | '|' => .ok (d.modify Frame.bar, r)
    | '[' => do
      let (set, r) ← readSet s.place r
      return (push (.one set), r)
    | '*' => repeatLast d s.place 0 none r
    | '+' => repeatLast d s.place 1 none r
    | '?' => repeatLast d s.place 0 (some 1) r
    | '\x7b' => do
      match ← readBounds r with
      | some (min, max, r) => repeatLast d s.place min max r
      | none => return (push (.one (.single s.char)), r)
    | '(' => do
      let (opening?, r) ← readOpening r
      match opening? with
      | some opening => return ({ d with groups := { opening, place := s.place } :: d.groups }, r)
      | none => if d.isFresh then return ({ d with byLine := true }, r) else r.fail .lateFlags s.place
    | ')' =>
      match d.groups with
      | inner :: outer =>
        .ok (({ d with groups := outer } : Draft).modify (·.push (inner.opening.close inner.body)), r)
      | [] => r.fail .unbalancedParenthesis s.place
    | c => .ok (push (.one (.single c)), r)

/-- Read all signs; each step takes at least one. -/
def readAll : (fuel : Nat) → Draft → Reading → Except PatternError Draft
  | 0, d, _ => .ok d
  | fuel + 1, d, r =>
    match r.signs with
    | [] => .ok d
    | s :: signs =>
      if s.is ')' && d.groups.isEmpty then r.fail .unbalancedParenthesis s.place
      else do
        let (d, r) ← readSign d s (← r.goOn signs)
        readAll fuel d r

/-- The expression that a text writes. -/
def readRegex (pattern : Text) : Except PatternError Regex := do
  let (signs, lone) := signsOf 0 pattern.toList
  let r ← ({ pattern, signs, lone } : Reading).goOn signs
  let d ← readAll signs.length {} r
  match d.groups with
  | inner :: _ => .error ⟨pattern, .unterminatedGroup, some inner.place⟩
  | [] =>
    if d.top.body.looksBackFixed then return d.top.body
    else .error ⟨pattern, .variableWidth, none⟩

end Outline
