import SchemaEvolution.Protobuf.Defect
import SchemaEvolution.Protobuf.Missing
import SchemaEvolution.Names
import SchemaEvolution.SchemaFile

namespace SchemaEvolution.Protobuf

mutual

def Message.walk : Message → List Message
  | m@{ children, .. } => m :: walkAll children

def walkAll : List Message → List Message
  | [] => []
  | m :: ms => m.walk ++ walkAll ms

end

namespace File

def allMessages (f : File) : List Message := walkAll f.messages

def allEnums (f : File) : List EnumType := f.enums ++ f.allMessages.flatMap (·.enums)

end File

inductive ParseError
  | malformed
  | notFullyContained (missing : MissingReference)
  | invalid (defects : List Defect)
  deriving DecidableEq, Repr

def ParseError.message : ParseError → String
  | .malformed => "malformed descriptor set"
  | .notFullyContained m => "descriptor set is not fully contained: " ++ m.message
  | .invalid _ => "invalid descriptor set"

structure Registry where
  files : List File
  records : List Record

namespace Registry

def fileName (r : Record) : String := r.text 1

def sortFiles (rs : List Record) : List Record :=
  rs.mergeSort fun a b => decide (¬ fileName b < fileName a)

def ofRecords (rs : List Record) : Except ParseError Registry :=
  let decls := rs.map FileDecl.ofRecord
  match missingReference? decls with
  | some m => .error (.notFullyContained m)
  | none =>
    match defectsOf decls with
    | [] =>
      let sorted := sortFiles rs
      .ok ⟨sorted.map fun r => File.link decls (FileDecl.ofRecord r), sorted⟩
    | ds => .error (.invalid ds)

def parse (bytes : List UInt8) : Except ParseError Registry :=
  match MessageType.fileSet.decode? bytes with
  | none => .error .malformed
  | some set => ofRecords (filesOf set)

def canonical (r : Registry) : List UInt8 :=
  MessageType.fileSet.encode (Record.addAll 1 (r.records.map .record) [])

def allMessages (r : Registry) : List Message := r.files.flatMap File.allMessages

def allEnums (r : Registry) : List EnumType := r.files.flatMap File.allEnums

def message? (r : Registry) (fullName : String) : Option Message :=
  r.allMessages.find? (·.fullName == fullName)

def enum? (r : Registry) (fullName : String) : Option EnumType :=
  r.allEnums.find? (·.fullName == fullName)

def fileOf? (r : Registry) (fullName : String) : Option File :=
  r.files.find? fun f => f.allMessages.any (·.fullName == fullName)

def typeNames (r : Registry) : List String :=
  Names.ofList (r.allMessages.map (·.fullName) ++ r.allEnums.map (·.fullName))

def fieldNames (r : Registry) : List String :=
  Names.ofList (r.allMessages.flatMap fun m => m.fields.map (·.fullName))

def schemaFile (r : Registry) : SchemaFile := ⟨r.typeNames, r.fieldNames, r.canonical⟩

end Registry

end SchemaEvolution.Protobuf
