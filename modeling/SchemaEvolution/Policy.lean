import SchemaEvolution.Failure
import SchemaEvolution.Text.Blank

/-!
Compatibility policies. A mode combines a direction with a breadth: it checks a candidate against
the most recent version only, or against the whole history. Histories are listed most recent first.
-/

namespace SchemaEvolution

/-- Versions of one schema, with the check that `current` reads what was written with
`previous`. -/
class Evolves (S : Type u) where
  backward (current previous : S) : Outcome

inductive Direction
  | backward
  | forward
  | full
  deriving DecidableEq, Repr

namespace Direction

def all : List Direction := [.backward, .forward, .full]

def tag : Direction → String
  | .backward => "BACKWARD"
  | .forward => "FORWARD"
  | .full => "FULL"

/-- Forward is backward with the roles swapped; full runs both and keeps every failure. -/
def outcome {S : Type u} [Evolves S] : Direction → S → S → Outcome
  | .backward, current, previous => Evolves.backward current previous
  | .forward, current, previous => Evolves.backward previous current
  | .full, current, previous =>
    combine [Evolves.backward previous current, Evolves.backward current previous]

end Direction

inductive Breadth
  | latest
  | transitive
  deriving DecidableEq, Repr

inductive Mode
  | checked (direction : Direction) (breadth : Breadth)
  | unchecked
  deriving DecidableEq, Repr

namespace Mode

def all : List Mode :=
  Direction.all.flatMap (fun d => [checked d .latest, checked d .transitive]) ++ [unchecked]

def tag : Mode → String
  | .checked d .latest => d.tag
  | .checked d .transitive => d.tag ++ "_TRANSITIVE"
  | .unchecked => "NONE"

def isTransitive : Mode → Bool
  | .checked _ .transitive => true
  | _ => false

def ofTag (text : String) : Mode := (all.find? (·.tag == text)).getD .unchecked

def ofName (text : String) : Mode := ofTag (Text.trimBlank text).toUpper

variable {S : Type u} [Evolves S]

def check : Mode → S → List S → Outcome
  | .unchecked, _, _ => .ok ()
  | .checked _ .latest, _, [] => .ok ()
  | .checked d .latest, candidate, latest :: _ => d.outcome candidate latest
  | .checked d .transitive, candidate, history => combine (history.map (d.outcome candidate))

end Mode

end SchemaEvolution
