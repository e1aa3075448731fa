import SchemaEvolution.JsonSchema.Explored
import SchemaEvolution.Report
import SchemaEvolution.Text.Quoted

namespace SchemaEvolution.JsonSchema

structure Node where
  location : String
  value : Json
  draft : Draft

namespace Node

def types (n : Node) : List String :=
  match n.value.get? "type" with
  | some (.string t) => [t]
  | some (.array ts) => Names.ofList (ts.filterMap Json.asString?)
  | _ => []

def hasAny (n : Node) (keywords : List String) : Bool := keywords.any n.value.has

def found (n : Node) (kind : DiffKind) (message : String) : Diff := ⟨kind, n.location, message⟩

def required (n : Node) : List String :=
  Names.ofList (((n.value.array? "required").getD []).filterMap Json.asString?)

end Node

inductive ItemForm
  | single
  | tuple (size : Nat)
  deriving DecidableEq, Repr

def Node.items? (n : Node) : Option ItemForm :=
  if n.draft.usesPrefixItems then (n.value.array? "prefixItems").map fun xs => .tuple xs.length
  else match n.value.get? "items" with
    | some (.array xs) => some (.tuple xs.length)
    | some _ => some .single
    | none => none

def Node.trailingItems? (n : Node) : Option Json :=
  n.value.get? (if n.draft.usesPrefixItems then "items" else "additionalItems")

abbrev PairCheck := (current previous : Node) → List Diff

abbrev NodeCheck := Node → List Diff

def checkEnum : PairCheck := fun cur prev =>
  match prev.value.array? "enum", cur.value.array? "enum" with
  | none, some _ => [prev.found .enumCreation "enum was added"]
  | some _, none => [prev.found .enumDeletion "enum was removed"]
  | some old, some new =>
    (old.filter fun v => !new.any v.equal).map fun v =>
      prev.found .enumElementDeleted s!"enum value {v.text} was removed"
  | none, none => []

def checkRef : PairCheck := fun cur prev =>
  match prev.value.string? "$ref", cur.value.string? "$ref" with
  | none, none => []
  | none, some new => [prev.found .refChanged s!"$ref '{new}' was added"]
  | some old, none => [prev.found .refChanged s!"$ref '{old}' was removed"]
  | some old, some new =>
    if old = new then [] else [prev.found .refChanged s!"$ref changed from '{old}' to '{new}'"]

def checkComposition (keyword : String) (kind : DiffKind) : PairCheck := fun cur prev =>
  match prev.value.array? keyword, cur.value.array? keyword with
  | none, none => []
  | none, some _ => [prev.found kind s!"{keyword} was added"]
  | some _, none => [prev.found kind s!"{keyword} was removed"]
  | some old, some new =>
    if old.length = new.length then []
    else [prev.found kind s!"{keyword} changed from {old.length} to {new.length} schemas"]

def checkAllOf : PairCheck := checkComposition "allOf" .allOfModified

def checkAnyOf : PairCheck := checkComposition "anyOf" .anyOfModified

def checkOneOf : PairCheck := checkComposition "oneOf" .oneOfModified

def checkRequired : PairCheck := fun cur prev =>
  if prev.required = cur.required then []
  else
    let added := Text.quotedList (Names.difference cur.required prev.required)
    let removed := Text.quotedList (Names.difference prev.required cur.required)
    [prev.found .requiredFieldChanged
      s!"required properties changed (added {added}, removed {removed})"]

def checkPropertyAddition : PairCheck := fun cur prev =>
  let old := ((prev.value.object? "properties").getD []).map (·.1)
  let new := ((cur.value.object? "properties").getD []).map (·.1)
  (Names.difference new old).map fun name =>
    prev.found .propertyAddition s!"property '{name}' was added"

def checkItems : PairCheck := fun cur prev =>
  match prev.items?, cur.items? with
  | none, none => []
  | none, some _ => [prev.found .itemSchemaAdded "item schema was added"]
  | some _, none => [prev.found .itemSchemaDeleted "item schema was removed"]
  | some (.tuple m), some (.tuple n) =>
    if m = n then []
    else [prev.found .itemSchemaModified s!"item tuple changed from {m} to {n} schemas"]
  | some .single, some .single => []
  | some _, some _ =>
    [prev.found .itemSchemaModified "item schema changed between single and tuple form"]

def checkAdditionalItems : PairCheck := fun cur prev =>
  match prev.trailingItems?, cur.trailingItems? with
  | none, none => []
  | none, some _ => [prev.found .additionalItemsAdded "additional items schema was added"]
  | some _, none => [prev.found .additionalItemsDeleted "additional items schema was removed"]
  | some old, some new =>
    if old.equal new || (old.isObject && new.isObject) then []
    else [prev.found .additionalItemsModified
      s!"additional items changed from {old.text} to {new.text}"]

def checkAdditionalProperties : NodeCheck := fun n =>
  match n.value.get? "additionalProperties" with
  | none | some (.bool true) => []
  | some v => [n.found .additionalPropertiesNotOpen
      s!"additionalProperties must be true, found {v.text}"]

structure CheckGroups where
  untyped : List PairCheck
  object : List PairCheck
  array : List PairCheck
  scalar : List PairCheck

def CheckGroups.standard : CheckGroups where
  untyped := [checkEnum, checkRef, checkAllOf, checkAnyOf, checkOneOf]
  object := [checkRequired, checkPropertyAddition]
  array := [checkItems, checkAdditionalItems]
  scalar := [checkEnum]

def standaloneChecks : List NodeCheck := [checkAdditionalProperties]

def objectKeywords : List String := ["properties", "required"]

def arrayKeywords : List String := ["items", "prefixItems", "additionalItems"]

/-- The checks that apply to a pair. A node without a type may still constrain objects and
arrays. -/
def CheckGroups.select (g : CheckGroups) (cur prev : Node) : List PairCheck :=
  let types := prev.types
  if types.isEmpty then
    g.untyped ++
      (if prev.hasAny objectKeywords || cur.hasAny objectKeywords then g.object else []) ++
      (if prev.hasAny arrayKeywords || cur.hasAny arrayKeywords then g.array else [])
  else
    (if "object" ∈ types then g.object else []) ++
      (if "array" ∈ types then g.array else []) ++
      (if types.any fun t => t ≠ "object" ∧ t ≠ "array" then g.scalar else [])

def nodeDiffs (g : CheckGroups) (cur prev : Node) : List Diff :=
  if prev.types = cur.types then (g.select cur prev).flatMap fun check => check cur prev
  else
    let old := Text.quotedSet prev.types
    let new := Text.quotedSet cur.types
    [prev.found .subschemaTypeChanged s!"type changed from {old} to {new}"]

def pairDiffs (g : CheckGroups) (current previous : Explored) : List Diff :=
  previous.nodes.flatMap fun (location, old) =>
    match current.node? location with
    | none => [⟨.schemaDeleted, location, "schema was deleted"⟩]
    | some new => nodeDiffs g ⟨location, new, current.draft⟩ ⟨location, old, previous.draft⟩

def standaloneDiffs (checks : List NodeCheck) (current : Explored) : List Diff :=
  current.nodes.flatMap fun (location, value) =>
    checks.flatMap fun check => check ⟨location, value, current.draft⟩

def compareWith (R : RuleSet) (g : CheckGroups) (standalone : List NodeCheck)
    (current previous : Explored) : Report :=
  .of R (pairDiffs g current previous ++ standaloneDiffs standalone current)

def compare (R : RuleSet) (current previous : Explored) : Report :=
  compareWith R .standard standaloneChecks current previous

end SchemaEvolution.JsonSchema
