import Outline.Text.Position

/-!
# Faults of patterns

Why a text is not a pattern, and where it goes wrong.

* `PatternFault`, `PatternFault.message`;
* `PatternError`, `PatternError.message`: a fault with its place, given by line and column too if the
  pattern has several lines.
-/

namespace Outline

/-- What is wrong with a pattern. -/
inductive PatternFault where
  | unterminatedGroup
  | unbalancedParenthesis
  | nothingToRepeat
  | multipleRepeat
  | unterminatedSet
  | badRange (lo hi : String)
  | endsEarly
  | badEscape (escape : String)
  | incompleteEscape (escape : String)
  | endsInEscape
  | invalidReference (group : String)
  | emptyBounds
  | unknownExtension (extension : String)
  | lateFlags
  | unknownFlag
  | unfinishedFlags
  | variableWidth
deriving DecidableEq, Repr

/-- What is said about a fault. -/
def PatternFault.message : PatternFault → String
  | unterminatedGroup => "missing ), unterminated subpattern"
  | unbalancedParenthesis => "unbalanced parenthesis"
  | nothingToRepeat => "nothing to repeat"
  | multipleRepeat => "multiple repeat"
  | unterminatedSet => "unterminated character set"
  | badRange lo hi => s!"bad character range {lo}-{hi}"
  | endsEarly => "unexpected end of pattern"
  | badEscape escape => s!"bad escape {escape}"
  | incompleteEscape escape => s!"incomplete escape {escape}"
  | endsInEscape => "bad escape (end of pattern)"
  | invalidReference group => s!"invalid group reference {group}"
  | emptyBounds => "min repeat greater than max repeat"
  | unknownExtension extension => s!"unknown extension ?{extension}"
  | lateFlags => "global flags not at the start of the expression"
  | unknownFlag => "unknown flag"
  | unfinishedFlags => "missing -, : or )"
  | variableWidth => "look-behind requires fixed-width pattern"

/-- A fault and its place in the pattern, if it has one. -/
structure PatternError where
  pattern : Text
  fault : PatternFault
  place : Option Nat
deriving DecidableEq

/-- What is said about a fault and its place. -/
def PatternError.message (e : PatternError) : String :=
  match e.place with
  | none => e.fault.message
  | some place =>
    let brief := s!"{e.fault.message} at position {place}"
    if e.pattern.toList.contains '\n' then
      let p := e.pattern.position place
      s!"{brief} (line {p.line}, column {p.column})"
    else brief

end Outline
