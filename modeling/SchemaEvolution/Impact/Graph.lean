import SchemaEvolution.Closure
import SchemaEvolution.Names

namespace SchemaEvolution.Impact

structure Graph where
  entries : List (String × List String)
  deriving DecidableEq, Repr

namespace Graph

def empty : Graph := ⟨[]⟩

def addEdge (g : Graph) (referenced referencing : String) : Graph :=
  ⟨Names.alter (fun ds => Names.insert referencing (ds.getD [])) referenced g.entries⟩

def ofEdges (edges : List (String × String)) : Graph :=
  edges.foldl (fun g e => g.addEdge e.1 e.2) empty

def dependents (g : Graph) (name : String) : List String :=
  (Names.find? name g.entries).getD []

def weight (g : Graph) : Nat := g.entries.foldl (fun n e => n + e.2.length) 0

def impactedBy (g : Graph) (start : String) : List String :=
  Names.ofList (Closure.of g.dependents (g.weight + 1) [start])

end Graph

end SchemaEvolution.Impact
