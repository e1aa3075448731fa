import SchemaEvolution.Avro.Schema
import SchemaEvolution.Json.Parser
import SchemaEvolution.Json.Printer
import SchemaEvolution.SchemaFile
import SchemaEvolution.Text.Integer

/-!
Canonical forms. A schema is spelled out as a JSON value, and that value is reduced: only certain
keys stay, in a fixed order, and a type that was written before is only named. The names that a form
lists are looked up in its text.
-/

namespace SchemaEvolution.Avro

inductive Form
  | string (value : String)
  | integer (value : Int)
  | array (items : List Form)
  | object (members : List (String × Form))
  deriving Repr, Inhabited

namespace Form

/-- Nothing in a text is escaped. -/
def quoted (s : String) : List Char := '"' :: s.toList ++ ['"']

mutual

def render : Form → List Char
  | .string s => quoted s
  | .integer n => (Json.Number.integer n).render
  | .array xs => '[' :: renderItems xs ++ [']']
  | .object ms => '\x7b' :: renderMembers ms ++ ['\x7d']

def renderItems : List Form → List Char
  | [] => []
  | [x] => x.render
  | x :: xs => x.render ++ ',' :: renderItems xs

def renderMembers : List (String × Form) → List Char
  | [] => []
  | [(k, x)] => quoted k ++ ':' :: x.render
  | (k, x) :: ms => quoted k ++ ':' :: x.render ++ ',' :: renderMembers ms

end

def text (f : Form) : String := String.ofList f.render

end Form

def durationType : Json :=
  .object [("type", .string "fixed"), ("name", .string "duration"), ("size", .number (.integer 12))]

def Kind.toJson (k : Kind) : Json :=
  match k.primitiveName?, annotated.lookup k with
  | some name, _ => .string name
  | none, some (carrier, meaning) =>
    .object [("type", .string (carrier.primitiveName?.getD "")), ("logicalType", .string meaning)]
  | none, none => .object [("type", durationType), ("logicalType", .string "duration")]

def integerJson (n : Nat) : Json := .number (.integer n)

def fixedMembers (name : String) (size : Nat) (attributes : Attributes) : List (String × Json) :=
  [("type", .string "fixed"), ("name", .string name), ("size", integerJson size)] ++ attributes.members

namespace Schema

mutual

def toJson : Schema → Json
  | .plain k => k.toJson
  | .decimal precision scale carrier =>
    .object ([("logicalType", .string "decimal"), ("precision", integerJson precision),
      ("scale", integerJson scale)] ++
      match carrier with
      | .fixed name size attributes => fixedMembers name size attributes
      | _ => [("type", .string "bytes")])
  | .fixed name size attributes => .object (fixedMembers name size attributes)
  | .enum name symbols _ attributes =>
    .object ([("type", .string "enum"), ("name", .string name),
      ("symbols", .array (symbols.map .string))] ++ attributes.members)
  | .array items attributes =>
    .object ([("type", .string "array"), ("items", items.toJson)] ++ attributes.members)
  | .map values attributes =>
    .object ([("type", .string "map"), ("values", values.toJson)] ++ attributes.members)
  | .union members => .array (membersToJson members)
  | .record name fields attributes =>
    .object ([("type", .string "record"), ("name", .string name),
      ("fields", .array (fieldsToJson fields))] ++ attributes.members)
  | .ref name => .string name

def membersToJson : List Schema → List Json
  | [] => []
  | s :: ss => s.toJson :: membersToJson ss

def fieldsToJson : List (FieldHead × Schema) → List Json
  | [] => []
  | (f, s) :: fs =>
    .object ([("name", .string f.name), ("type", s.toJson)] ++ f.attributes) :: fieldsToJson fs

end

end Schema

structure Written where
  names : List String

/-- There is no form for null, truth values and most numbers. -/
abbrev Writing := StateT Written Option

def namedWords : List String := ["record", "enum", "fixed", "ref"]

def writtenName? (v : Json) : Option String :=
  if (v.string? "type").any (· ∈ namedWords) then
    some (((v.string? "namespace").map (· ++ ".")).getD "" ++ (v.string? "name").getD "")
  else none

def named (name? : Option String) (full : Writing Form) : Writing Form := do
  match name? with
  | none => full
  | some name =>
    let w ← get
    if name ∈ w.names then return .string name
    else
      set { w with names := name :: w.names }
      full

def soleType? : List (String × Json) → Option String
  | [(key, .string type)] => if key = "type" then some type else none
  | _ => none

def integer? : Json → Option Int
  | .number (.integer n) => if Text.fitsWord 64 n then some n else none
  | .string s => Text.integer? 64 s
  | _ => none

def numberAt (key : String) (ms : List (String × Json)) : Writing (Option Form) :=
  match (Json.object ms).get? key with
  | none => return none
  | some x => do return some (.integer (← liftM (integer? x)))

/-- What stays of an object, at each key. -/
structure Parts where
  name : Option Form
  type : Option Form
  fields : Option Form
  symbols : Option Form
  items : Option Form
  values : Option Form
  size : Option Form
  order : Option Form
  precision : Option Form
  scale : Option Form

namespace Parts

def toList (p : Parts) : List (String × Option Form) :=
  [("name", p.name), ("type", p.type), ("fields", p.fields), ("symbols", p.symbols),
    ("items", p.items), ("values", p.values), ("size", p.size), ("order", p.order),
    ("precision", p.precision), ("scale", p.scale)]

def form (p : Parts) : Form :=
  .object (p.toList.filterMap fun part => part.2.map (part.1, ·))

end Parts

def nameAt (visit : String → Writing (Option Form)) (ms : List (String × Json)) :
    Option String → Writing (Option Form)
  | some name => return ((Json.object ms).get? "name").map fun _ => .string name
  | none => visit "name"

/-- The keys of an object are visited in their alphabetical order. -/
def reduce (visit : String → Writing (Option Form)) (name? : Option String)
    (ms : List (String × Json)) : Writing Form := do
  let fields ← visit "fields"
  let items ← visit "items"
  let name ← nameAt visit ms name?
  let order ← visit "order"
  let precision ← numberAt "precision" ms
  let scale ← numberAt "scale" ms
  let size ← numberAt "size" ms
  let symbols ← visit "symbols"
  let type ← visit "type"
  let values ← visit "values"
  return Parts.form ⟨name, type, fields, symbols, items, values, size, order, precision, scale⟩

mutual

def canonical : Json → Writing Form
  | .string s => return .string s
  | .array xs => do return .array (← canonicalAll xs)
  | .object ms =>
    let name? := writtenName? (.object ms)
    named name? <|
      match soleType? ms with
      | some type => return .string type
      | none => reduce (fun key => canonicalAt key ms) name? ms
  | _ => failure

def canonicalAll : List Json → Writing (List Form)
  | [] => return []
  | x :: xs => do
    let form ← canonical x
    return form :: (← canonicalAll xs)

def canonicalAt (key : String) : List (String × Json) → Writing (Option Form)
  | [] => return none
  | (k, x) :: ms => if key = k then do return some (← canonical x) else canonicalAt key ms

end

/-- Full names of types, and names of fields under the full name of their record. -/
structure Listing where
  types : List String
  fields : List String

instance : EmptyCollection Listing := ⟨⟨[], []⟩⟩

instance : Append Listing := ⟨fun a b => ⟨a.types ++ b.types, a.fields ++ b.fields⟩⟩

inductive Role
  | type
  | fields (owner : Option String)
  | field (owner : Option String)
  deriving DecidableEq, Repr

mutual

def listing : Role → Json → Listing
  | .type, .array members => listingAll .type members
  | .type, .object ms =>
    let name := (Json.object ms).string? "name"
    ⟨name.toList, []⟩ ++ listingAt (.fields name) "fields" ms ++ listingAt .type "items" ms ++
      listingAt .type "values" ms
  | .fields owner, .array fields => listingAll (.field owner) fields
  | .field owner, .object ms =>
    let name := do return (← owner) ++ "." ++ (← (Json.object ms).string? "name")
    ⟨[], name.toList⟩ ++ listingAt .type "type" ms
  | _, _ => ∅

def listingAll (role : Role) : List Json → Listing
  | [] => ∅
  | x :: xs => listing role x ++ listingAll role xs

def listingAt (role : Role) (key : String) : List (String × Json) → Listing
  | [] => ∅
  | (k, x) :: ms => if key = k then listing role x else listingAt role key ms

end

namespace Schema

def canonicalForm? (s : Schema) : Option Form := ((canonical s.toJson).run ⟨[]⟩).map (·.1)

def canonicalForm (s : Schema) : Form := s.canonicalForm?.getD (.string "")

/-- A form whose text cannot be read back lists nothing. -/
def schemaFile (s : Schema) : SchemaFile :=
  let text := s.canonicalForm.text
  let names := ((Json.parse? text).map (listing .type)).getD ∅
  ⟨Names.ofList names.types, Names.ofList names.fields, Text.toUtf8 text⟩

end Schema

end SchemaEvolution.Avro
