import SchemaEvolution.Protobuf.Declaration

namespace SchemaEvolution.Protobuf

inductive MissingReference
  | importedFile (file missing : String)
  | fieldType (name reference : String)
  | methodType (name reference : String)
  deriving DecidableEq, Repr

namespace MissingReference

def message : MissingReference → String
  | .importedFile file missing => s!"'{file}' imports '{missing}', which is not in the set"
  | .fieldType name reference => s!"field '{name}' references '{reference}', which is not in the set"
  | .methodType name reference => s!"method '{name}' references '{reference}', which is not in the set"

end MissingReference

def rootScope (package : String) : String := if package = "" then "" else "." ++ package

mutual

def MessageDecl.named (scope : String) : MessageDecl → List (String × MessageDecl)
  | m@{ name, nested, .. } => namedAll (scope ++ "." ++ name) nested ++ [(scope ++ "." ++ name, m)]

def namedAll (scope : String) : List MessageDecl → List (String × MessageDecl)
  | [] => []
  | m :: ms => m.named scope ++ namedAll scope ms

end

def FileDecl.namedMessages (f : FileDecl) : List (String × MessageDecl) :=
  namedAll (rootScope f.package) f.messages

def FileDecl.namedEnums (f : FileDecl) : List String :=
  f.enums.map fun e => rootScope f.package ++ "." ++ e.name

def declaredTypes (files : List FileDecl) : List String :=
  files.flatMap FileDecl.namedEnums ++
    (files.flatMap FileDecl.namedMessages).flatMap fun m =>
      m.1 :: m.2.enums.map fun e => m.1 ++ "." ++ e.name

def isGlobal (reference : String) : Bool := reference.toList.head? == some '.'

def withoutDots (s : String) : String := String.ofList (s.toList.dropWhile (· == '.'))

def missingImport? (files : List FileDecl) : Option MissingReference :=
  let names := files.map (·.name)
  files.findSome? fun f => (f.imports.find? (· ∉ names)).map fun d => .importedFile f.name d

def isUnresolved (declared : List String) (reference : String) : Bool :=
  isGlobal reference && !declared.contains reference

def missingFieldType? (declared : List String) (messages : List (String × MessageDecl)) :
    Option MissingReference :=
  messages.findSome? fun m =>
    (m.2.fields.find? fun f => isUnresolved declared f.typeName).map fun f =>
      .fieldType (withoutDots m.1 ++ "." ++ f.name) f.typeName

def missingMethodType? (declared : List String) (files : List FileDecl) :
    Option MissingReference :=
  (files.flatMap (·.services)).flatMap (·.methods) |>.findSome? fun m =>
    ([m.input, m.output].find? (isUnresolved declared ·)).map (.methodType m.name ·)

/-- The first reference that leads out of the set: imports first, then fields, then methods. -/
def missingReference? (files : List FileDecl) : Option MissingReference :=
  let declared := declaredTypes files
  missingImport? files <|>
    missingFieldType? declared (files.flatMap FileDecl.namedMessages) <|>
    missingMethodType? declared files

end SchemaEvolution.Protobuf
