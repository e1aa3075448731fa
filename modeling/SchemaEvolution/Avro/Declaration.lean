import SchemaEvolution.Avro.Canonical
import SchemaEvolution.Avro.Default
import SchemaEvolution.Avro.Name

namespace SchemaEvolution.Avro

/-- What has been declared so far, and the declarations that are open. A later declaration of a name
stands before earlier ones. -/
structure Declared where
  known : Known
  pending : List (String × String)
  depth : Nat

abbrev Declaring := StateT Declared Option

def lookUp (name : String) : Declaring Schema := do
  let d ← get
  if (d.known.lookup name).isSome then return .ref name
  else
    match d.pending.lookup name with
    | some full => return .ref full
    | none => failure

/-- What an object without the `part` of a declaration stands for: the type that goes by the word it
says for its type, open before closed. -/
def declareOrRecall (space word part : String) (v : Json) (declaration : Declaring Schema) :
    Declaring Schema := do
  if (v.get? part).isSome then declaration
  else
    let name ← liftM (mentionedName? space word)
    let d ← get
    match d.pending.lookup name with
    | some full => return .ref full
    | none => liftM (d.known.lookup name)

def announce (name : String) (aliases : List String) : Declaring Unit :=
  modify fun d => { d with pending := (name :: aliases).map (·, name) ++ d.pending }

def finish (name : String) (aliases : List String) (s : Schema) : Declaring Unit :=
  modify fun d => { d with
    known := (name :: aliases).map (·, s) ++ d.known
    pending := d.pending.filter (·.1 ∉ name :: aliases) }

def ensure (condition : Bool) : Declaring Unit := if condition then pure () else failure

def mention (space name : String) : Declaring Schema :=
  match Kind.ofPrimitiveName? name with
  | some k => return .plain k
  | none => do lookUp (← liftM (mentionedName? space name))

/-- A declared type's namespace and its full name. The name's own namespace counts first, then the
declared one, then the surrounding one. -/
def declaredName? (space : String) (v : Json) : Option (String × String) := do
  let n ← v.string? "name" >>= WrittenName.ofText?
  let own := n.space?.getD ((v.string? "namespace").getD space)
  if isNamespace own then return (own, qualify own n.simple) else none

def declaredAliases? (space : String) (v : Json) : Option (List String) :=
  match v.array? "aliases" >>= fun xs => xs.mapM Json.asString? with
  | none => some []
  | some names => names.mapM (mentionedName? space)

def fieldAliases (v : Json) : List String :=
  ((v.array? "aliases").getD []).filterMap Json.asString?

def membersBut (keys : List String) (v : Json) : List (String × Json) :=
  (v.asObject?.getD []).filter (·.1 ∉ keys)

def typeAttributes (content : String) (v : Json) : Attributes where
  members := membersBut (content :: typeKeys) v
  foreign m hm hkey := by
    have hother : m.1 ∉ content :: typeKeys := by simpa using (List.mem_filter.1 hm).2
    exact hother (.tail content hkey)

/-- The attributes of a field. The parts of a type that stands in the field itself are among them,
but for the symbols of an enum and the size of a fixed type. -/
def fieldAttributes (s : Schema) (v : Json) : List (String × Json) :=
  let own := ["type", "name", "doc", "default", "order", "position", "aliases", "logicalType"]
  match s with
  | .enum .. => membersBut ("symbols" :: own) v
  | .fixed .. => membersBut ("size" :: own) v
  | _ => membersBut own v

def natural? : Json → Option Nat
  | .number (.integer (.ofNat n)) => some n
  | _ => none

def decimalDigits? (v : Json) : Option (Nat × Nat) := do
  let precision ← v.get? "precision" >>= natural?
  let scale ← match v.get? "scale" with
    | none => some 0
    | some s => natural? s
  if 1 ≤ precision ∧ scale ≤ precision then return (precision, scale) else none

def Schema.annotate (s : Schema) (logical : String) (v : Json) : Schema :=
  match logical, s with
  | "decimal", .plain .bytes | "decimal", .fixed .. =>
    match decimalDigits? v with
    | some (precision, scale) => .decimal precision scale s
    | none => s
  | "uuid", .fixed _ 16 _ => .plain .uuid
  | "duration", .fixed .. => .plain .duration
  | logical, .plain k =>
    match Kind.ofLogicalName? logical with
    | some (meaning, carrier) => if k = carrier then .plain meaning else s
    | none => s
  | _, s => s

def isLogicalName (name : String) : Bool :=
  name ∈ ["decimal", "duration"] || (Kind.ofLogicalName? name).isSome

def isUnion (members : List Schema) : Bool :=
  let kinds := members.map Schema.kind
  !kinds.contains .union && decide (kinds.filter (!·.isNamed)).Nodup

def declareEnum (space : String) (v : Json) : Declaring Schema := do
  let (own, name) ← liftM (declaredName? space v)
  let aliases ← liftM (declaredAliases? own v)
  let symbols ← liftM (v.array? "symbols" >>= fun xs => xs.mapM Json.asString?)
  ensure (symbols.all fun s => isSimpleName s.toList)
  ensure (decide symbols.Nodup)
  let default ← match v.get? "default" with
    | none => pure none
    | some (.string s) => do ensure (symbols.contains s); pure (some s)
    | some _ => failure
  let s := Schema.enum name symbols default (typeAttributes "symbols" v)
  finish name aliases s
  return s

def declareFixed (space : String) (v : Json) : Declaring Schema := do
  let (own, name) ← liftM (declaredName? space v)
  let aliases ← liftM (declaredAliases? own v)
  let size ← liftM (v.get? "size" >>= natural?)
  ensure ((v.string? "default").all fun s => s.utf8ByteSize == size)
  let s := Schema.fixed name size (typeAttributes "size" v)
  finish name aliases s
  return s

def areDistinct (seen : List String) : List (FieldHead × Schema) → Bool
  | [] => true
  | (f, _) :: fs => !seen.contains f.name && areDistinct (f.name :: f.aliases ++ seen) fs

def declareUnion (declared : Declaring (List Schema)) : Declaring Schema := do
  let members ← declared
  ensure (isUnion members)
  return .union members

mutual

def declare : (fuel : Nat) → (space : String) → Json → Declaring Schema
  | 0, _, _ => failure
  | fuel + 1, space, v =>
    match v with
    | .string name => mention space name
    | .array xs => declareUnion (declareAll fuel space xs)
    | .object ms => declareObject fuel false space (.object ms)
    | _ => failure

def declareAll : (fuel : Nat) → (space : String) → List Json → Declaring (List Schema)
  | _, _, [] => return []
  | 0, _, _ => failure
  | fuel + 1, space, x :: xs => do
    let s ← declare fuel space x
    let rest ← declareAll fuel space xs
    return s :: rest

def declareObject : (fuel : Nat) → (inField : Bool) → (space : String) → Json → Declaring Schema
  | 0, _, _, _ => failure
  | fuel + 1, inField, space, v => do
    let type ← liftM (v.get? "type")
    match v.get? "logicalType" with
    | some (.string logical) =>
      if isLogicalName logical then
        let s ← if type.asString? == some "fixed" then
            declareOrRecall space "fixed" "size" v (declareFixed space v)
          else declare fuel space type
        return s.annotate logical v
      else declareType fuel inField space v type
    | some _ => failure
    | none => declareType fuel inField space v type

def declareType : (fuel : Nat) → (inField : Bool) → (space : String) → (v type : Json) →
    Declaring Schema
  | 0, _, _, _, _ => failure
  | fuel + 1, inField, space, v, type =>
    match type with
    | .string "record" =>
      if inField then mention space "record"
      else declareOrRecall space "record" "fields" v (declareRecord fuel space v)
    | .string "enum" => declareOrRecall space "enum" "symbols" v (declareEnum space v)
    | .string "fixed" => declareOrRecall space "fixed" "size" v (declareFixed space v)
    | .string "array" => do
      let items ← liftM (v.get? "items")
      return .array (← declare fuel space items) (typeAttributes "items" v)
    | .string "map" => do
      let values ← liftM (v.get? "values")
      return .map (← declare fuel space values) (typeAttributes "values" v)
    | .string name => mention space name
    | .array xs => declareUnion (declareAll fuel space xs)
    | .object ms => declareObject fuel false space (.object ms)
    | _ => failure

def declareRecord : (fuel : Nat) → (space : String) → Json → Declaring Schema
  | 0, _, _ => failure
  | fuel + 1, space, v => do
    let (own, name) ← liftM (declaredName? space v)
    let aliases ← liftM (declaredAliases? own v)
    announce name aliases
    let entries ← liftM (v.array? "fields")
    let fields ← declareFields fuel own (entries.filter Json.isObject)
    ensure (areDistinct [] fields)
    let s := Schema.record name fields (typeAttributes "fields" v)
    finish name aliases s
    return s

def declareFields : (fuel : Nat) → (space : String) → List Json →
    Declaring (List (FieldHead × Schema))
  | _, _, [] => return []
  | 0, _, _ => failure
  | fuel + 1, space, v :: vs => do
    let name ← liftM (v.string? "name")
    ensure (isSimpleName name.toList)
    let s ← declareObject fuel true space v
    let default := v.get? "default"
    let d ← get
    ensure (default.all fun x => isDefault d.known d.depth s x)
    let rest ← declareFields fuel space vs
    return (⟨name, fieldAliases v, default, fieldAttributes s v⟩, s) :: rest

end

/-- Every step goes down in the document or along a list in it. A schema without a canonical form is
not read. -/
def Schema.ofJson? (v : Json) : Option Schema :=
  let bound := 4 * v.size + 4
  (((declare bound "" v).run ⟨[], [], bound⟩).map (·.1)).filter (·.canonicalForm?.isSome)

end SchemaEvolution.Avro
