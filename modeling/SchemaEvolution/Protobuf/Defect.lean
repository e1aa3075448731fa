import SchemaEvolution.Protobuf.Link

namespace SchemaEvolution.Protobuf

inductive Defect
  | duplicateFile
  | duplicateName
  | importPosition
  | syntaxName
  | emptyEnum
  | firstEnumNumber
  | duplicateEnumNumber
  | reservedEnumNumber
  | fieldNumber
  | reservedFieldNumber
  | extensionFieldNumber
  | duplicateFieldNumber
  | duplicateJsonName
  | similarFieldNames
  | oneofPosition
  | fieldType
  | defaultValue
  | extendee
  | extensionNumber
  | methodType
  deriving DecidableEq, Repr

def demand (holds : Bool) (d : Defect) : List Defect := if holds then [] else [d]

def isNodup {α : Type u} [DecidableEq α] : List α → Bool
  | [] => true
  | x :: xs => !xs.contains x && isNodup xs

def DeclaredRange.holds (r : DeclaredRange) (n : Int) : Bool := r.start ≤ n && n < r.stop

def DeclaredRange.holdsClosed (r : DeclaredRange) (n : Int) : Bool := r.start ≤ n && n ≤ r.stop

def isFieldNumber (n : Int) : Bool :=
  1 ≤ n && n ≤ 536870911 && !(19000 ≤ n && n ≤ 19999)

def isSyntaxName (name : String) : Bool := ["", "proto2", "proto3"].contains name

def isProto3 (syntaxName : String) : Bool := syntaxName == "proto3"

def EnumDecl.defects (syntaxName : String) (e : EnumDecl) : List Defect :=
  let numbers := e.values.map (·.2)
  demand (!numbers.isEmpty) .emptyEnum ++
    demand (!isProto3 syntaxName || numbers.head?.all (· == 0)) .firstEnumNumber ++
    demand (e.allowAlias || isNodup numbers) .duplicateEnumNumber ++
    demand (numbers.all fun n => !e.reservedRanges.any (·.holdsClosed n)) .reservedEnumNumber

abbrev EnumValues := List (String × List String)

def FieldDecl.defaultIsValid (values : EnumValues) (kind : Kind) (f : FieldDecl) : Bool :=
  match f.default? with
  | none => true
  | some text =>
    match kind with
    | .scalar k => k.isDefault text.toList
    | .enum n => ((values.lookup n).getD []).contains text
    | .message _ => false

def FieldDecl.typeDefects (t : Table) (values : EnumValues) (scope : String) (f : FieldDecl) :
    List Defect :=
  match f.kind? t scope with
  | none => [.fieldType]
  | some k => demand (f.defaultIsValid values k) .defaultValue

def plainName (name : String) : List Char :=
  (name.toList.filter (· != '_')).map Char.toLower

def FieldDecl.numberDefects (oneofs : Nat) (reserved extensions : List DeclaredRange)
    (f : FieldDecl) : List Defect :=
  demand (isFieldNumber f.number) .fieldNumber ++
    demand (!reserved.any (·.holds f.number)) .reservedFieldNumber ++
    demand (!extensions.any (·.holds f.number)) .extensionFieldNumber ++
    demand (f.oneof?.all fun i => 0 ≤ i && i < (oneofs : Int)) .oneofPosition

def FieldDecl.extensionDefects (t : Table) (values : EnumValues)
    (ranges : List (String × List DeclaredRange)) (scope : String) (f : FieldDecl) :
    List Defect :=
  f.typeDefects t values scope ++
    match t.resolve? [.message] scope f.extendee with
    | none => [.extendee]
    | some d =>
      demand (((ranges.lookup d.name).getD []).any (·.holds f.number)) .extensionNumber

structure Surroundings where
  values : EnumValues
  extensionRanges : List (String × List DeclaredRange)

mutual

def MessageDecl.surroundings (scope : String) : MessageDecl → Surroundings
  | { name, nested, enums, extensionRanges, .. } =>
    let full := qualify scope name
    let inner := surroundingsOfAll full nested
    { values := enums.map (fun e => (qualify full e.name, e.values.map (·.1))) ++ inner.values
      extensionRanges := (full, extensionRanges) :: inner.extensionRanges }

def surroundingsOfAll (scope : String) : List MessageDecl → Surroundings
  | [] => ⟨[], []⟩
  | m :: ms =>
    let a := m.surroundings scope
    let b := surroundingsOfAll scope ms
    ⟨a.values ++ b.values, a.extensionRanges ++ b.extensionRanges⟩

end

def Surroundings.of (files : List FileDecl) : Surroundings :=
  files.foldr (fun f s =>
    let a := surroundingsOfAll f.package f.messages
    let own := f.enums.map fun e => (qualify f.package e.name, e.values.map (·.1))
    ⟨own ++ a.values ++ s.values, a.extensionRanges ++ s.extensionRanges⟩) ⟨[], []⟩

mutual

def MessageDecl.defects (t : Table) (around : Surroundings) (syntaxName scope : String) :
    MessageDecl → List Defect
  | { name, fields, nested, enums, extensionRanges, extensions, oneofs, reservedRanges, .. } =>
    let full := qualify scope name
    fields.flatMap (fun f =>
        f.typeDefects t around.values full ++
          f.numberDefects oneofs.length reservedRanges extensionRanges) ++
      demand (isNodup (fields.map (·.number))) .duplicateFieldNumber ++
      demand (isNodup (fields.map (·.jsonName))) .duplicateJsonName ++
      demand (!isProto3 syntaxName || isNodup (fields.map (plainName ·.name))) .similarFieldNames ++
      extensions.flatMap (·.extensionDefects t around.values around.extensionRanges full) ++
      enums.flatMap (·.defects syntaxName) ++
      defectsOfAll t around syntaxName full nested

def defectsOfAll (t : Table) (around : Surroundings) (syntaxName scope : String) :
    List MessageDecl → List Defect
  | [] => []
  | m :: ms => m.defects t around syntaxName scope ++ defectsOfAll t around syntaxName scope ms

end

def MethodDecl.defects (t : Table) (scope : String) (m : MethodDecl) : List Defect :=
  demand ([m.input, m.output].all fun r => (t.resolve? [.message] scope r).isSome) .methodType

def FileDecl.defects (files : List FileDecl) (around : Surroundings) (f : FileDecl) :
    List Defect :=
  let t := tableOf files f
  demand ((f.publicImports ++ f.weakImports).all fun i => 0 ≤ i && i < f.imports.length)
      .importPosition ++
    demand (isSyntaxName f.syntaxName) .syntaxName ++
    defectsOfAll t around f.syntaxName f.package f.messages ++
    f.enums.flatMap (·.defects f.syntaxName) ++
    f.extensions.flatMap (·.extensionDefects t around.values around.extensionRanges f.package) ++
    f.services.flatMap fun s => s.methods.flatMap (·.defects t (qualify f.package s.name))

def nameDefects (files : List FileDecl) : List Defect :=
  let names := (definitionsOf files).map (·.name)
  demand (isNodup (files.map (·.name))) .duplicateFile ++
    demand (isNodup names && names.all (!(packagesOf files).contains ·)) .duplicateName

def defectsOf (files : List FileDecl) : List Defect :=
  nameDefects files ++ files.flatMap (·.defects files (Surroundings.of files))

end SchemaEvolution.Protobuf
