import SchemaEvolution.Impact.Detect

namespace SchemaEvolution.Impact

open Protobuf

structure ChangeRequest where
  namespaceName : String
  schemaName : String
  version : Int
  old : List UInt8
  new : List UInt8

structure Event where
  namespaceName : String
  schemaName : String
  version : Int
  changes : ChangeSet
  impacted : List (String × List String)

inductive EventError
  | emptyPreviousData
  | oldSchema (error : ParseError)
  | newSchema (error : ParseError)
  deriving DecidableEq, Repr

def EventError.message : EventError → String
  | .emptyPreviousData => "no previous schema data to compare against"
  | .oldSchema e => "previous schema could not be parsed: " ++ e.message
  | .newSchema e => "new schema could not be parsed: " ++ e.message

def impactOf (g : Graph) (changes : ChangeSet) : List (String × List String) :=
  changes.updated.foldl (fun entries n => Names.put n (g.impactedBy n) entries) []

def Event.of (q : ChangeRequest) (old new : Registry) : Event :=
  let changes := detectChanges old new
  ⟨q.namespaceName, q.schemaName, q.version, changes, impactOf (.ofRegistry new) changes⟩

def identifyChange (q : ChangeRequest) : Except EventError Event :=
  if q.old.isEmpty then .error .emptyPreviousData
  else
    match Registry.parse q.old with
    | .error e => .error (.oldSchema e)
    | .ok old =>
      match Registry.parse q.new with
      | .error e => .error (.newSchema e)
      | .ok new => .ok (.of q old new)

end SchemaEvolution.Impact
