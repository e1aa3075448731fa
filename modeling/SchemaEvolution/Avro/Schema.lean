import SchemaEvolution.Json.Basic

namespace SchemaEvolution.Avro

inductive Kind
  | null
  | boolean
  | int
  | long
  | float
  | double
  | bytes
  | string
  | array
  | map
  | union
  | record
  | enum
  | fixed
  | decimal
  | bigDecimal
  | uuid
  | date
  | timeMillis
  | timeMicros
  | timestampMillis
  | timestampMicros
  | timestampNanos
  | localTimestampMillis
  | localTimestampMicros
  | localTimestampNanos
  | duration
  | ref
  deriving DecidableEq, Repr

namespace Kind

def label : Kind → String
  | .null => "Null"
  | .boolean => "Boolean"
  | .int => "Int"
  | .long => "Long"
  | .float => "Float"
  | .double => "Double"
  | .bytes => "Bytes"
  | .string => "String"
  | .array => "Array"
  | .map => "Map"
  | .union => "Union"
  | .record => "Record"
  | .enum => "Enum"
  | .fixed => "Fixed"
  | .decimal => "Decimal"
  | .bigDecimal => "BigDecimal"
  | .uuid => "Uuid"
  | .date => "Date"
  | .timeMillis => "TimeMillis"
  | .timeMicros => "TimeMicros"
  | .timestampMillis => "TimestampMillis"
  | .timestampMicros => "TimestampMicros"
  | .timestampNanos => "TimestampNanos"
  | .localTimestampMillis => "LocalTimestampMillis"
  | .localTimestampMicros => "LocalTimestampMicros"
  | .localTimestampNanos => "LocalTimestampNanos"
  | .duration => "Duration"
  | .ref => "Ref"

def primitiveName? : Kind → Option String
  | .null => some "null"
  | .boolean => some "boolean"
  | .int => some "int"
  | .long => some "long"
  | .float => some "float"
  | .double => some "double"
  | .bytes => some "bytes"
  | .string => some "string"
  | _ => none

def primitives : List Kind :=
  [.null, .boolean, .int, .long, .float, .double, .bytes, .string]

def isPrimitive (k : Kind) : Bool := k ∈ primitives

def ofPrimitiveName? (name : String) : Option Kind :=
  primitives.find? (·.primitiveName? == some name)

def isNamed (k : Kind) : Bool := k ∈ [record, enum, fixed, ref]

def annotated : List (Kind × Kind × String) :=
  [(.bigDecimal, .bytes, "big-decimal"), (.uuid, .string, "uuid"), (.date, .int, "date"),
    (.timeMillis, .int, "time-millis"), (.timeMicros, .long, "time-micros"),
    (.timestampMillis, .long, "timestamp-millis"), (.timestampMicros, .long, "timestamp-micros"),
    (.timestampNanos, .long, "timestamp-nanos"),
    (.localTimestampMillis, .long, "local-timestamp-millis"),
    (.localTimestampMicros, .long, "local-timestamp-micros"),
    (.localTimestampNanos, .long, "local-timestamp-nanos")]

def carrier? (k : Kind) : Option Kind := (annotated.lookup k).map (·.1)

def ofLogicalName? (name : String) : Option (Kind × Kind) :=
  (annotated.find? (·.2.2 == name)).map fun a => (a.1, a.2.1)

end Kind

def typeKeys : List String := ["type", "name", "namespace", "doc", "aliases"]

/-- What a type says that makes no difference to it. None of it is taken for its type or its name. -/
structure Attributes where
  members : List (String × Json)
  foreign : ∀ m ∈ members, m.1 ∉ typeKeys
  deriving Repr

instance : EmptyCollection Attributes := ⟨⟨[], nofun⟩⟩

structure FieldHead where
  name : String
  aliases : List String
  default : Option Json
  attributes : List (String × Json)
  deriving Repr

inductive Schema
  | plain (kind : Kind)
  | decimal (precision scale : Nat) (carrier : Schema)
  | fixed (name : String) (size : Nat) (attributes : Attributes)
  | enum (name : String) (symbols : List String) (default : Option String)
      (attributes : Attributes)
  | array (items : Schema) (attributes : Attributes)
  | map (values : Schema) (attributes : Attributes)
  | union (members : List Schema)
  | record (name : String) (fields : List (FieldHead × Schema)) (attributes : Attributes)
  | ref (name : String)
  deriving Repr, Inhabited

namespace Schema

def kind : Schema → Kind
  | .plain k => k
  | .decimal .. => .decimal
  | .fixed .. => .fixed
  | .enum .. => .enum
  | .array .. => .array
  | .map .. => .map
  | .union .. => .union
  | .record .. => .record
  | .ref .. => .ref

end Schema

def simpleName (name : String) : String :=
  String.ofList (name.toList.reverse.takeWhile (· != '.')).reverse

end SchemaEvolution.Avro
