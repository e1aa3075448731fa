import SchemaEvolution.Diff

/-!
Rule sets: which kinds of change fail a check. A comparison finds every change; the rule set in
force decides which of them are reported.
-/

namespace SchemaEvolution

structure RuleSet where
  name : String
  kinds : List DiffKind
  deriving DecidableEq, Repr

namespace RuleSet

def disallows (R : RuleSet) (k : DiffKind) : Bool := k ∈ R.kinds

def everything : RuleSet := ⟨"all", DiffKind.all⟩

/-- Reader safety: the current schema has to read what was written with the previous one. A new
property is the only change that never endangers a reader. -/
def backward : RuleSet := ⟨"backward", DiffKind.all.filter (· ≠ .propertyAddition)⟩

/-- Writer safety: a plain deletion is fine as long as the freed slot is reserved. -/
def forward : RuleSet :=
  ⟨"forward", backward.kinds.filter fun k => k ≠ .fieldDeleted ∧ k ≠ .enumValueDeleted⟩

def full : RuleSet := ⟨"full", backward.kinds⟩

def named : List RuleSet := [backward, forward, full]

def ofName? (text : String) : Option RuleSet := named.find? (·.name == text.toLower)

theorem forward_subset_backward {k : DiffKind} (h : forward.disallows k) :
    backward.disallows k := by
  revert h; cases k <;> decide

end RuleSet

end SchemaEvolution
