import SchemaEvolution.Impact.ChangeSet
import SchemaEvolution.Impact.Graph
import SchemaEvolution.Protobuf.Compare

namespace SchemaEvolution.Impact

open Protobuf

/-- The declared type of a field as far as it is known; an unknown one counts as the first. -/
def knownType (n : Int) : Int := if 1 ≤ n ∧ n ≤ 18 then n else 1

def fieldChanged (old new : Field) : Bool :=
  old.name ≠ new.name || knownType old.type ≠ knownType new.type || old.deprecated ≠ new.deprecated

def messageMembers (new : Message) (old : Option Message) : List String :=
  ((new.fields.filter fun f =>
      match old >>= (·.field? f.number) with
      | none => true
      | some g => fieldChanged g f).map (·.name)) ++
    ((new.enums.filter fun e =>
      match old >>= fun m => m.enums.find? (·.name == e.name) with
      | none => true
      | some d => !d.descriptor.equal e.descriptor).map (·.name))

def enumMembers (new : EnumType) (old : Option EnumType) : List String :=
  (new.values.filter fun v =>
    match old >>= (·.number? v.1) with
    | none => true
    | some n => n ≠ v.2).map (·.1)

def messageChange? (old : Registry) (new : Message) : Option (String × List String) :=
  match old.message? new.fullName with
  | none => some (new.fullName, messageMembers new none)
  | some m =>
    if m.descriptor.equal new.descriptor then none
    else some (new.fullName, messageMembers new (some m))

def enumChange? (old : Registry) (new : EnumType) : Option (String × List String) :=
  match old.enum? new.fullName with
  | none => some (new.fullName, enumMembers new none)
  | some e =>
    if e.descriptor.equal new.descriptor then none
    else some (new.fullName, enumMembers new (some e))

def detectChanges (old new : Registry) : ChangeSet :=
  .ofList (new.allMessages.filterMap (messageChange? old) ++
    (new.files.flatMap (·.enums)).filterMap (enumChange? old))

def withoutDot? (reference : String) : Option String :=
  match reference.toList with
  | '.' :: name => some (String.ofList name)
  | _ => none

def referencedMessage? (r : Registry) (f : Field) : Option String := do
  let t := knownType f.type
  if t = messageType ∨ t = groupType then
    let name ← withoutDot? f.typeName
    let m ← r.message? name
    return m.fullName
  else none

def Graph.ofRegistry (r : Registry) : Graph :=
  .ofEdges (r.allMessages.flatMap fun m =>
    m.fields.filterMap fun f => (referencedMessage? r f).map fun n => (n, m.fullName))

end SchemaEvolution.Impact
