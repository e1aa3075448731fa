import SchemaEvolution.JsonSchema.Compare

/-!
The comparison of two explored documents as one pass. A single collector goes through every
location, every check and every loop inside a check, so a change that the rule set allows is counted
where it is found and never listed.
-/

namespace SchemaEvolution.JsonSchema

abbrev PairPass := (current previous : Node) → Collector → Collector

abbrev NodePass := Node → Collector → Collector

def Node.record (n : Node) (kind : DiffKind) (message : String) (c : Collector) : Collector :=
  c.push (n.found kind message)

def collectEnum : PairPass := fun cur prev c =>
  match prev.value.array? "enum", cur.value.array? "enum" with
  | none, some _ => prev.record .enumCreation "enum was added" c
  | some _, none => prev.record .enumDeletion "enum was removed" c
  | some old, some new =>
    (old.filter fun v => !new.any v.equal).foldl
      (fun c v => prev.record .enumElementDeleted s!"enum value {v.text} was removed" c) c
  | none, none => c

def collectRef : PairPass := fun cur prev c =>
  let old := prev.value.string? "$ref"
  let new := cur.value.string? "$ref"
  if old = new then c
  else
    match old, new with
    | none, some new => prev.record .refChanged s!"$ref '{new}' was added" c
    | some old, none => prev.record .refChanged s!"$ref '{old}' was removed" c
    | some old, some new => prev.record .refChanged s!"$ref changed from '{old}' to '{new}'" c
    | none, none => c

def collectComposition (keyword : String) (kind : DiffKind) : PairPass := fun cur prev c =>
  match prev.value.array? keyword, cur.value.array? keyword with
  | none, some _ => prev.record kind s!"{keyword} was added" c
  | some _, none => prev.record kind s!"{keyword} was removed" c
  | some old, some new =>
    if old.length = new.length then c
    else prev.record kind s!"{keyword} changed from {old.length} to {new.length} schemas" c
  | none, none => c

def collectRequired : PairPass := fun cur prev c =>
  if prev.required = cur.required then c
  else
    let added := Text.quotedList (Names.difference cur.required prev.required)
    let removed := Text.quotedList (Names.difference prev.required cur.required)
    prev.record .requiredFieldChanged
      s!"required properties changed (added {added}, removed {removed})" c

def collectPropertyAddition : PairPass := fun cur prev c =>
  match cur.value.object? "properties" with
  | none => c
  | some new =>
    new.foldl (fun c (name, _) =>
      if (prev.value.object? "properties").any (·.any (·.1 == name)) then c
      else prev.record .propertyAddition s!"property '{name}' was added" c) c

def collectItems : PairPass := fun cur prev c =>
  match prev.items?, cur.items? with
  | none, some _ => prev.record .itemSchemaAdded "item schema was added" c
  | some _, none => prev.record .itemSchemaDeleted "item schema was removed" c
  | some old, some new =>
    if old = new then c
    else
      match old, new with
      | .tuple m, .tuple n =>
        prev.record .itemSchemaModified s!"item tuple changed from {m} to {n} schemas" c
      | _, _ =>
        prev.record .itemSchemaModified "item schema changed between single and tuple form" c
  | none, none => c

def collectAdditionalItems : PairPass := fun cur prev c =>
  match prev.trailingItems?, cur.trailingItems? with
  | none, some _ => prev.record .additionalItemsAdded "additional items schema was added" c
  | some _, none => prev.record .additionalItemsDeleted "additional items schema was removed" c
  | some old, some new =>
    if old.equal new || (old.isObject && new.isObject) then c
    else
      prev.record .additionalItemsModified
        s!"additional items changed from {old.text} to {new.text}" c
  | none, none => c

def collectAdditionalProperties : NodePass := fun n c =>
  match n.value.get? "additionalProperties" with
  | none | some (.bool true) => c
  | some v =>
    n.record .additionalPropertiesNotOpen s!"additionalProperties must be true, found {v.text}" c

inductive Check
  | enum
  | ref
  | allOf
  | anyOf
  | oneOf
  | required
  | propertyAddition
  | items
  | additionalItems
  deriving DecidableEq, Repr

namespace Check

def pass : Check → PairPass
  | .enum => collectEnum
  | .ref => collectRef
  | .allOf => collectComposition "allOf" .allOfModified
  | .anyOf => collectComposition "anyOf" .anyOfModified
  | .oneOf => collectComposition "oneOf" .oneOfModified
  | .required => collectRequired
  | .propertyAddition => collectPropertyAddition
  | .items => collectItems
  | .additionalItems => collectAdditionalItems

def finds : Check → PairCheck
  | .enum => checkEnum
  | .ref => checkRef
  | .allOf => checkAllOf
  | .anyOf => checkAnyOf
  | .oneOf => checkOneOf
  | .required => checkRequired
  | .propertyAddition => checkPropertyAddition
  | .items => checkItems
  | .additionalItems => checkAdditionalItems

end Check

inductive StandaloneCheck
  | additionalProperties
  deriving DecidableEq, Repr

namespace StandaloneCheck

def pass : StandaloneCheck → NodePass
  | .additionalProperties => collectAdditionalProperties

def finds : StandaloneCheck → NodeCheck
  | .additionalProperties => checkAdditionalProperties

end StandaloneCheck

structure Selection where
  untyped : List Check
  object : List Check
  array : List Check
  scalar : List Check
  standalone : List StandaloneCheck
  deriving DecidableEq, Repr

namespace Selection

def standard : Selection where
  untyped := [.enum, .ref, .allOf, .anyOf, .oneOf]
  object := [.required, .propertyAddition]
  array := [.items, .additionalItems]
  scalar := [.enum]
  standalone := [.additionalProperties]

def groups (s : Selection) : CheckGroups where
  untyped := s.untyped.map Check.finds
  object := s.object.map Check.finds
  array := s.array.map Check.finds
  scalar := s.scalar.map Check.finds

def standaloneChecks (s : Selection) : List NodeCheck := s.standalone.map StandaloneCheck.finds

def select (s : Selection) (cur prev : Node) : List Check :=
  let types := prev.types
  if types.isEmpty then
    s.untyped ++
      (if prev.hasAny objectKeywords || cur.hasAny objectKeywords then s.object else []) ++
      (if prev.hasAny arrayKeywords || cur.hasAny arrayKeywords then s.array else [])
  else
    (if "object" ∈ types then s.object else []) ++
      (if "array" ∈ types then s.array else []) ++
      (if types.any fun t => t ≠ "object" ∧ t ≠ "array" then s.scalar else [])

end Selection

/-- A change of type ends the comparison of a node. -/
def collectNode (s : Selection) : PairPass := fun cur prev c =>
  if prev.types ≠ cur.types then
    let old := Text.quotedSet prev.types
    let new := Text.quotedSet cur.types
    prev.record .subschemaTypeChanged s!"type changed from {old} to {new}" c
  else (s.select cur prev).foldl (fun c check => check.pass cur prev c) c

def collectPairs (s : Selection) (current previous : Explored) (c : Collector) : Collector :=
  previous.nodes.foldl (fun c (location, old) =>
    match current.node? location with
    | none => c.push ⟨.schemaDeleted, location, "schema was deleted"⟩
    | some new =>
      collectNode s ⟨location, new, current.draft⟩ ⟨location, old, previous.draft⟩ c) c

def collectStandalone (s : Selection) (current : Explored) (c : Collector) : Collector :=
  current.nodes.foldl (fun c (location, value) =>
    s.standalone.foldl (fun c check => check.pass ⟨location, value, current.draft⟩ c) c) c

def collect (s : Selection) (current previous : Explored) (c : Collector) : Collector :=
  collectStandalone s current (collectPairs s current previous c)

end SchemaEvolution.JsonSchema
