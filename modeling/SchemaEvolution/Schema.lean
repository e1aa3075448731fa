import SchemaEvolution.Avro.Compare
import SchemaEvolution.JsonSchema.Compare
import SchemaEvolution.JsonSchema.Validity
import SchemaEvolution.Policy
import SchemaEvolution.Protobuf.Compare

namespace SchemaEvolution

inductive Schema
  | protobuf (registry : Protobuf.Registry)
  | json (document : JsonSchema.Explored)
  | avro (schema : Avro.Schema)

inductive ParseError
  | protobuf (error : Protobuf.ParseError)
  | json (error : JsonSchema.ParseError)
  | avro (error : Avro.ParseError)
  deriving DecidableEq, Repr

def ParseError.message : ParseError → String
  | .protobuf e => e.message
  | .json e => e.message
  | .avro e => e.message

namespace Schema

def parse (f : Format) (bytes : List UInt8) : Except ParseError Schema :=
  match f with
  | .protobuf => ((Protobuf.Registry.parse bytes).map .protobuf).mapError .protobuf
  | .json => ((JsonSchema.Explored.parse bytes).map .json).mapError .json
  | .avro => ((Avro.Schema.parse bytes).map .avro).mapError .avro

def format : Schema → Format
  | .protobuf _ => .protobuf
  | .json _ => .json
  | .avro _ => .avro

def schemaFile : Schema → SchemaFile
  | .protobuf r => r.schemaFile
  | .json e => ⟨[], [], e.canonical⟩
  | .avro s => s.schemaFile

def compare (R : RuleSet) (current previous : Schema) : Except Failure Report :=
  match current, previous with
  | .protobuf c, .protobuf p => .ok (Protobuf.compare R c p)
  | .json c, .json p => .ok (JsonSchema.compare R c p)
  | .avro c, .avro p => .ok (Avro.compare R c p)
  | c, p => .error (.formatMismatch c.format p.format)

instance : Evolves Schema where
  backward current previous := compare .backward current previous >>= Report.outcome

end Schema

end SchemaEvolution
