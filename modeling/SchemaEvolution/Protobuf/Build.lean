import SchemaEvolution.Protobuf.Link

namespace SchemaEvolution.Protobuf.Build

def text (n : Nat) (s : String) (r : Record) : Record := r.put n (.text s)

def number (n : Nat) (i : Int) (r : Record) : Record := r.put n (.number i)

def records (n : Nat) (rs : List Record) (r : Record) : Record := r.addAll n (rs.map .record)

def texts (n : Nat) (ss : List String) (r : Record) : Record := r.addAll n (ss.map .text)

def typeNumber? (name : String) : Option Int :=
  match name with
  | "group" => some groupType
  | "message" => some messageType
  | "enum" => some enumType
  | _ => (ScalarKind.numbered.find? (·.2.name == name)).map (·.1)

structure FieldPlan where
  name : String
  number : Int
  type : Int
  typeName : Option String
  jsonName : Option String
  repeated : Bool
  deprecated : Bool

def field (p : FieldPlan) : Record :=
  let r := number 5 p.type (number 4 (if p.repeated then 3 else 1)
    (number 3 p.number (text 1 p.name [])))
  let r := (p.typeName.map (text 6 · r)).getD r
  let r := (p.jsonName.map (text 10 · r)).getD r
  if p.deprecated then r.put 8 (.record (number 3 1 [])) else r

def range (start stop : Int) : Record := number 2 stop (number 1 start [])

def enumValue (name : String) (n : Int) : Record := number 2 n (text 1 name [])

def enumeration (name : String) (values ranges : List Record) (reservedNames : List String) :
    Record :=
  texts 5 reservedNames (records 4 ranges (records 2 values (text 1 name [])))

def message (name : String) (fields messages enums ranges : List Record)
    (reservedNames : List String) : Record :=
  texts 10 reservedNames (records 9 ranges (records 4 enums (records 3 messages
    (records 2 fields (text 1 name [])))))

def file (name package syntaxName : String) (imports : List String) (messages enums : List Record) :
    Record :=
  text 12 syntaxName (records 5 enums (records 4 messages (texts 3 imports
    (text 2 package (text 1 name [])))))

def usualEdition : String := "proto3"

def descriptorSet (files : List Record) : List UInt8 := MessageType.fileSet.encode (records 1 files [])

end SchemaEvolution.Protobuf.Build
