import SchemaEvolution.Json.Basic
import SchemaEvolution.Text.Split

namespace SchemaEvolution.JsonSchema

inductive Draft
  | draft4
  | draft6
  | draft7
  | draft201909
  | draft202012
  deriving DecidableEq, Repr

namespace Draft

def tag : Draft → String
  | .draft4 => "Draft4"
  | .draft6 => "Draft6"
  | .draft7 => "Draft7"
  | .draft201909 => "Draft201909"
  | .draft202012 => "Draft202012"

def marks : List (String × Draft) :=
  [("draft-04", .draft4), ("draft-06", .draft6), ("draft-07", .draft7), ("2019-09", .draft201909)]

/-- The draft a `$schema` address suggests; without any hint it is the latest one. -/
def ofSchemaUri (uri : Option String) : Draft :=
  match uri with
  | none => .draft202012
  | some u => ((marks.find? fun m => Text.mentions m.1 u).map (·.2)).getD .draft202012

def ofDocument (root : Json) : Draft := ofSchemaUri (root.string? "$schema")

def usesPrefixItems (d : Draft) : Bool := d == .draft202012

def idKeyword : Draft → String
  | .draft4 => "id"
  | _ => "$id"

def hasFragmentIds : Draft → Bool
  | .draft4 | .draft6 | .draft7 => true
  | _ => false

end Draft

end SchemaEvolution.JsonSchema
