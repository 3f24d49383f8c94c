import Outline.Engine.Run

/-!
# Matchers

A matcher matches rules of a grammar one at a time, outside of any session. It counts the alternatives
it tries over all its matches.

* `Matcher`, `Matcher.match?`;
* `Grammar.matchOnce`: a match by a new matcher, and the place where it leaves off.
-/

namespace Outline

/-- A grammar, the guards, and the work so far. -/
structure Matcher where
  grammar : Grammar
  limits : Limits := {}
  run : Run := {}

/-- Match a rule at a cursor; the matcher can be used again whatever comes out. -/
def Matcher.match? (m : Matcher) (cursor : Cursor) (rule : String) (room : Nat := defaultRoom) :
    Except Failure (Option Match) × Matcher :=
  let (result, s) := Matching.guarded (level room).match? cursor rule
    { grammar := m.grammar, limits := m.limits } { run := m.run }
  (result, { m with run := s.run })

/-- Match a rule once: the cursor behind the match and what it built. The cursor stays where it was
if nothing matches. -/
def Grammar.matchOnce (g : Grammar) (cursor : Cursor) (rule : String) (maxDepth : Int := 200) :
    Except Failure (Option Match) :=
  (({ grammar := g, limits := { maxDepth } } : Matcher).match? cursor rule).1

end Outline
