import SchemaEvolution.Names
import SchemaEvolution.Protobuf.Link

namespace SchemaEvolution.Protobuf

structure Interval where
  first : Int
  last : Int
  deriving DecidableEq, Repr

namespace Interval

def isNonempty (i : Interval) : Bool := i.first ≤ i.last

def le (i j : Interval) : Bool :=
  decide (i.first < j.first) || (decide (i.first = j.first) && decide (i.last ≤ j.last))

def merge : List Interval → List Interval
  | [] => []
  | [i] => [i]
  | i :: j :: rest =>
    if j.first ≤ i.last + 1 then merge (⟨i.first, max i.last j.last⟩ :: rest)
    else i :: merge (j :: rest)
termination_by is => is.length

/-- The maximal intervals of the integers in a list of intervals. -/
def normalize (is : List Interval) : List Interval :=
  merge ((is.filter isNonempty).mergeSort le)

def text (i : Interval) : String :=
  if i.first = i.last then toString i.first else s!"{i.first} to {i.last}"

end Interval

structure Reserved where
  intervals : List Interval
  names : List String
  deriving DecidableEq, Repr

namespace Reserved

def of (intervals : List Interval) (names : List String) : Reserved :=
  ⟨Interval.normalize intervals, Names.ofList names⟩

/-- The end of a range of a message does not belong to it. -/
def ofMessage (m : Message) : Reserved :=
  of (m.reservedRanges.map fun r => ⟨r.start, r.stop - 1⟩) m.reservedNames

/-- The end of a range of an enum belongs to it. -/
def ofEnum (e : EnumType) : Reserved :=
  of (e.reservedRanges.map fun r => ⟨r.start, r.stop⟩) e.reservedNames

def coversInterval (r : Reserved) (i : Interval) : Bool :=
  r.intervals.any fun j => j.first ≤ i.first && i.last ≤ j.last

def covers (r : Reserved) (n : Int) : Bool := r.coversInterval ⟨n, n⟩

def hasName (r : Reserved) (name : String) : Bool := r.names.contains name

end Reserved

end SchemaEvolution.Protobuf
