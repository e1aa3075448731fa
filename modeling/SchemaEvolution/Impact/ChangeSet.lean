import SchemaEvolution.Names

namespace SchemaEvolution.Impact

structure ChangeSet where
  updated : List String
  members : List (String × List String)
  deriving DecidableEq, Repr

namespace ChangeSet

def empty : ChangeSet := ⟨[], []⟩

def isEmpty (c : ChangeSet) : Bool := c.updated.isEmpty

def record (c : ChangeSet) (name : String) (members : List String) : ChangeSet where
  updated := if name ∈ c.updated then c.updated else c.updated ++ [name]
  members := Names.alter (fun old => old.getD [] ++ members) name c.members

def ofList (changes : List (String × List String)) : ChangeSet :=
  changes.foldl (fun c e => c.record e.1 e.2) empty

end ChangeSet

end SchemaEvolution.Impact
