import SchemaEvolution.Closure
import SchemaEvolution.Protobuf.Declaration
import SchemaEvolution.Protobuf.DefaultValue
import SchemaEvolution.Text.Split

/-!
Linking: every name of a set is entered into one table, and every reference is looked up in it.
-/

namespace SchemaEvolution.Protobuf

inductive Entity
  | package
  | message
  | enum
  | member
  deriving DecidableEq, Repr

structure Definition where
  name : String
  entity : Entity
  file : Nat
  deriving DecidableEq, Repr

def packageNames (package : String) : List String :=
  let parts := Text.splitAt '.' package.toList
  (List.range parts.length).map fun i =>
    String.ofList (['.'].intercalate (parts.take (i + 1)))

def EnumDecl.definitions (file : Nat) (scope : String) (e : EnumDecl) : List Definition :=
  ⟨qualify scope e.name, .enum, file⟩ ::
    e.values.map fun v => ⟨qualify scope v.1, .member, file⟩

mutual

def MessageDecl.definitions (file : Nat) (scope : String) : MessageDecl → List Definition
  | { name, fields, nested, enums, extensions, oneofs, .. } =>
    let full := qualify scope name
    ⟨full, .message, file⟩ ::
      (fields.map (·.name) ++ oneofs ++ extensions.map (·.name)).map
        (fun n => ⟨qualify full n, .member, file⟩) ++
      enums.flatMap (·.definitions file full) ++ definitionsOfAll file full nested

def definitionsOfAll (file : Nat) (scope : String) : List MessageDecl → List Definition
  | [] => []
  | m :: ms => m.definitions file scope ++ definitionsOfAll file scope ms

end

def ServiceDecl.definitions (file : Nat) (scope : String) (s : ServiceDecl) : List Definition :=
  let full := qualify scope s.name
  ⟨full, .member, file⟩ :: s.methods.map fun m => ⟨qualify full m.name, .member, file⟩

def FileDecl.definitions (file : Nat) (f : FileDecl) : List Definition :=
  definitionsOfAll file f.package f.messages ++
    f.enums.flatMap (·.definitions file f.package) ++
    f.services.flatMap (·.definitions file f.package) ++
    f.extensions.map fun x => ⟨qualify f.package x.name, .member, file⟩

def FileDecl.packages (f : FileDecl) : List String :=
  if f.package = "" then [] else packageNames f.package

def definitionsOf (files : List FileDecl) : List Definition :=
  files.zipIdx.flatMap fun f => f.1.definitions f.2

def packagesOf (files : List FileDecl) : List String := files.flatMap FileDecl.packages

structure Table where
  definitions : List Definition
  packages : List String
  files : List Nat

namespace Table

inductive Lookup
  | found (d : Definition)
  | notFound
  | unusable

def absolute (t : Table) (sorts : List Entity) (name : String) : Lookup :=
  match t.definitions.find? (·.name == name) with
  | some d => if d.entity ∈ sorts ∧ d.file ∈ t.files then .found d else .unusable
  | none => if name ∈ t.packages then .unusable else .notFound

def isParent (t : Table) (name : String) : Bool :=
  name ∈ t.packages ||
    t.definitions.any fun d => d.name == name && d.entity != .member && t.files.contains d.file

def scopesOf (scope : String) : List String :=
  if scope = "" then [""] else (packageNames scope).reverse ++ [""]

def relativeIn (t : Table) (sorts : List Entity) (name first : String) :
    List String → Option Definition
  | [] => none
  | scope :: outer =>
    if first = name then
      match t.absolute sorts (qualify scope name) with
      | .found d => some d
      | _ => relativeIn t sorts name first outer
    else if t.isParent (qualify scope first) then
      match t.absolute sorts (qualify scope name) with
      | .found d => some d
      | _ => none
    else relativeIn t sorts name first outer

/-- Looks a reference up. With a leading dot it is a full name; otherwise its first part is searched
from the innermost scope outwards, and the first scope that has it decides. -/
def resolve? (t : Table) (sorts : List Entity) (scope reference : String) : Option Definition :=
  match reference.toList with
  | '.' :: full =>
    match t.absolute sorts (String.ofList full) with
    | .found d => some d
    | _ => none
  | cs =>
    t.relativeIn sorts reference (String.ofList (cs.takeWhile (· != '.'))) (scopesOf scope)

end Table

inductive ScalarKind
  | double
  | float
  | int64
  | uint64
  | int32
  | fixed64
  | fixed32
  | bool
  | string
  | bytes
  | uint32
  | sfixed32
  | sfixed64
  | sint32
  | sint64
  deriving DecidableEq, Repr

namespace ScalarKind

def name : ScalarKind → String
  | .double => "double"
  | .float => "float"
  | .int64 => "int64"
  | .uint64 => "uint64"
  | .int32 => "int32"
  | .fixed64 => "fixed64"
  | .fixed32 => "fixed32"
  | .bool => "bool"
  | .string => "string"
  | .bytes => "bytes"
  | .uint32 => "uint32"
  | .sfixed32 => "sfixed32"
  | .sfixed64 => "sfixed64"
  | .sint32 => "sint32"
  | .sint64 => "sint64"

def numbered : List (Int × ScalarKind) :=
  [(1, .double), (2, .float), (3, .int64), (4, .uint64), (5, .int32), (6, .fixed64),
   (7, .fixed32), (8, .bool), (9, .string), (12, .bytes), (13, .uint32), (15, .sfixed32),
   (16, .sfixed64), (17, .sint32), (18, .sint64)]

def isDefault (k : ScalarKind) (cs : List Char) : Bool :=
  match k with
  | .double | .float => DefaultValue.isFloat cs
  | .int32 | .sint32 | .sfixed32 => DefaultValue.signedFits 32 cs
  | .int64 | .sint64 | .sfixed64 => DefaultValue.signedFits 64 cs
  | .uint32 | .fixed32 => DefaultValue.unsignedFits 32 cs
  | .uint64 | .fixed64 => DefaultValue.unsignedFits 64 cs
  | .bool => ["true", "false"].contains (String.ofList cs)
  | .string => true
  | .bytes => DefaultValue.isEscaped cs

end ScalarKind

def groupType : Int := 10

def messageType : Int := 11

def enumType : Int := 14

inductive Kind
  | scalar (k : ScalarKind)
  | message (fullName : String)
  | enum (fullName : String)
  deriving DecidableEq, Repr

namespace Kind

def name : Kind → String
  | .scalar k => k.name
  | .message _ => "message"
  | .enum _ => "enum"

def reference? : Kind → Option String
  | .scalar _ => none
  | .message n | .enum n => some n

def ofDefinition (d : Definition) : Kind :=
  match d.entity with
  | .enum => .enum d.name
  | _ => .message d.name

end Kind

inductive Cardinality
  | optional
  | required
  | repeated
  deriving DecidableEq, Repr

namespace Cardinality

def ofLabel (n : Int) : Cardinality :=
  if n = 2 then .required else if n = 3 then .repeated else .optional

def name : Cardinality → String
  | .optional => "Optional"
  | .required => "Required"
  | .repeated => "Repeated"

end Cardinality

namespace FieldDecl

/-- A type name decides the kind whatever the declared type says. Without one, a field whose type is
unknown is a double; a message, group or enum needs a name. -/
def kind? (t : Table) (scope : String) (f : FieldDecl) : Option Kind :=
  if f.typeName ≠ "" then
    (t.resolve? [.message, .enum] scope f.typeName).map Kind.ofDefinition
  else if f.type = groupType ∨ f.type = messageType ∨ f.type = enumType then none
  else some (.scalar ((ScalarKind.numbered.lookup f.type).getD .double))

def camelCase (upper : Bool) : List Char → List Char
  | [] => []
  | '_' :: cs => camelCase true cs
  | c :: cs => (if upper then c.toUpper else c) :: camelCase false cs

def jsonName (f : FieldDecl) : String :=
  f.jsonName?.getD (String.ofList (camelCase false f.name.toList))

def linkedType (f : FieldDecl) (k : Kind) : Int :=
  match k with
  | .scalar _ => f.type
  | .message _ => if f.type = groupType then f.type else messageType
  | .enum _ => if f.type = groupType then f.type else enumType

def linkedRecord (t : Table) (scope : String) (f : FieldDecl) : Record :=
  let r := match t.resolve? [.message] scope f.extendee with
    | some d => if f.extendee = "" then f.record else f.record.put 2 (.text ("." ++ d.name))
    | none => f.record
  let r := match f.kind? t scope with
    | none => r
    | some k =>
      match k.reference? with
      | none => r
      | some n => (r.put 6 (.text ("." ++ n))).put 5 (.number (f.linkedType k))
  r.put 10 (.text f.jsonName)

end FieldDecl

structure Field where
  name : String
  fullName : String
  number : Int
  cardinality : Cardinality
  kind : Kind
  jsonName : String
  type : Int
  typeName : String
  deprecated : Bool

structure EnumType where
  name : String
  fullName : String
  values : List (String × Int)
  reservedRanges : List DeclaredRange
  reservedNames : List String
  descriptor : Record

structure Message where
  name : String
  fullName : String
  fields : List Field
  children : List Message
  enums : List EnumType
  reservedRanges : List DeclaredRange
  reservedNames : List String
  descriptor : Record

structure File where
  name : String
  syntaxName : String
  messages : List Message
  enums : List EnumType

namespace Field

def link (t : Table) (scope : String) (f : FieldDecl) : Field :=
  let kind := (f.kind? t scope).getD (.scalar .double)
  { name := f.name
    fullName := qualify scope f.name
    number := f.number
    cardinality := .ofLabel f.label
    kind
    jsonName := f.jsonName
    type := f.linkedType kind
    typeName := (kind.reference?.map ("." ++ ·)).getD ""
    deprecated := f.deprecated }

end Field

def insertValue (v : String × Int) : List (String × Int) → List (String × Int)
  | [] => [v]
  | w :: rest =>
    if v.2 < w.2 ∨ (v.2 = w.2 ∧ rest.head?.all (·.2 ≠ v.2)) then v :: w :: rest
    else w :: insertValue v rest

/-- Values in increasing order of their numbers. Of several names of one number the first declared
comes last. -/
def sortValues (vs : List (String × Int)) : List (String × Int) :=
  vs.foldl (fun sorted v => insertValue v sorted) []

def EnumType.link (scope : String) (e : EnumDecl) : EnumType where
  name := e.name
  fullName := qualify scope e.name
  values := sortValues e.values
  reservedRanges := e.reservedRanges
  reservedNames := e.reservedNames
  descriptor := e.record

def sortFields (fs : List Field) : List Field := fs.mergeSort fun a b => decide (a.number ≤ b.number)

def linkedDescriptor (t : Table) (scope : String) (fields extensions : List FieldDecl)
    (nested : List Record) (record : Record) : Record :=
  let replace (n : Nat) (rs : List Record) (r : Record) : Record :=
    if rs.isEmpty then r else r.alter (fun _ => rs.map .record) n
  replace 2 (fields.map (·.linkedRecord t scope))
    (replace 3 nested (replace 6 (extensions.map (·.linkedRecord t scope)) record))

mutual

def Message.link (t : Table) (scope : String) : MessageDecl → Message
  | { name, fields, nested, enums, extensions, reservedRanges, reservedNames, record, .. } =>
    let full := qualify scope name
    let children := linkAll t full nested
    { name
      fullName := full
      fields := sortFields (fields.map (Field.link t full))
      children
      enums := enums.map (EnumType.link full)
      reservedRanges
      reservedNames
      descriptor := linkedDescriptor t full fields extensions
        (children.map (·.descriptor)) record }

def linkAll (t : Table) (scope : String) : List MessageDecl → List Message
  | [] => []
  | m :: ms => Message.link t scope m :: linkAll t scope ms

end

def visibleFiles (files : List FileDecl) (f : FileDecl) : List String :=
  let passedOn (name : String) : List String :=
    match files.find? (·.name == name) with
    | none => []
    | some g => g.publicImports.filterMap fun i => g.imports[i.toNat]?
  f.name :: Closure.of passedOn files.length f.imports

def tableOf (files : List FileDecl) (f : FileDecl) : Table where
  definitions := definitionsOf files
  packages := packagesOf files
  files := (files.zipIdx.filter fun g => g.1.name ∈ visibleFiles files f).map (·.2)

def File.link (files : List FileDecl) (f : FileDecl) : File :=
  let t := tableOf files f
  { name := f.name
    syntaxName := f.syntaxName
    messages := linkAll t f.package f.messages
    enums := f.enums.map (EnumType.link f.package) }

end SchemaEvolution.Protobuf
