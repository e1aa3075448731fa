import SchemaEvolution.Avro.Declaration
import SchemaEvolution.Avro.Resolution
import SchemaEvolution.Json.Parser

namespace SchemaEvolution.Avro

inductive ParseError
  | notUtf8
  | notSchema
  deriving DecidableEq, Repr

def ParseError.message : ParseError → String
  | .notUtf8 => "avro schema is not UTF-8"
  | .notSchema => "invalid avro schema"

def Schema.parse (bytes : List UInt8) : Except ParseError Schema :=
  match Text.ofUtf8? bytes with
  | none => .error .notUtf8
  | some text =>
    match Json.parse? text >>= Schema.ofJson? with
    | none => .error .notSchema
    | some s => .ok s

def compareDiffs (current previous : Schema) : List Diff :=
  match canRead previous current with
  | .ok () => []
  | .error m =>
    [⟨.avroIncompatible, "#", "reader cannot resolve writer schema: " ++ m.message⟩]

def compare (R : RuleSet) (current previous : Schema) : Report :=
  .of R (compareDiffs current previous)

def collect (current previous : Schema) (c : Collector) : Collector :=
  match canRead previous current with
  | .ok () => c
  | .error m =>
    c.push ⟨.avroIncompatible, "#", "reader cannot resolve writer schema: " ++ m.message⟩

end SchemaEvolution.Avro
