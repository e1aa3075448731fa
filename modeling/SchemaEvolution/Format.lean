namespace SchemaEvolution

inductive Format
  | protobuf
  | json
  | avro
  deriving DecidableEq, Repr

namespace Format

def all : List Format := [.protobuf, .json, .avro]

def tag : Format → String
  | .protobuf => "FORMAT_PROTOBUF"
  | .json => "FORMAT_JSON"
  | .avro => "FORMAT_AVRO"

def spellings : Format → List String
  | .protobuf => ["FORMAT_PROTOBUF", "PROTOBUF", "PROTO"]
  | .json => ["FORMAT_JSON", "JSON"]
  | .avro => ["FORMAT_AVRO", "AVRO"]

def ofName? (text : String) : Option Format := all.find? (text.toUpper ∈ ·.spellings)

def serialSpellings : Format → List String
  | .protobuf => ["FORMAT_PROTOBUF", "protobuf"]
  | .json => ["FORMAT_JSON", "json"]
  | .avro => ["FORMAT_AVRO", "avro"]

def ofSerial? (text : String) : Option Format := all.find? (text ∈ ·.serialSpellings)

def unknownMessage (text : String) : String := "unknown schema format '" ++ text ++ "'"

end Format

end SchemaEvolution
