import SchemaEvolution.Protobuf.Schema
import SchemaEvolution.Protobuf.Wire

namespace SchemaEvolution.Protobuf

namespace Scalar

def wireType : Scalar → Nat
  | .double => 1
  | .text | .bytes => 2
  | _ => 0

def ofVarint : Scalar → Nat → Value
  | .int32, n => .number ((n : Int).bmod (Nat.pow 2 32))
  | .int64, n => .number ((n : Int).bmod (Nat.pow 2 64))
  | .bool, n => .number (if n = 0 then 0 else 1)
  | _, n => .number n

def isVarint (s : Scalar) : Bool := s.wireType == 0

def ofPayload? : Scalar → Wire.Payload → Option Value
  | .double, .fixed64 n => some (.bits64 n)
  | .text, .bytes b => (Text.ofUtf8? b).map .text
  | .bytes, .bytes b => some (.bytes b)
  | s, .varint n => if s.isVarint then some (s.ofVarint n) else none
  | _, _ => none

def encode : Value → List UInt8
  | .number n => Wire.varint (n % Int.pow 2 64).toNat
  | .bits64 n => Wire.littleEndian n 8
  | .text s => Wire.lengthPrefixed (Text.toUtf8 s)
  | .bytes b => Wire.lengthPrefixed b
  | .record _ => []

def read? (s : Scalar) (shape : Shape) (n : Nat) (r : Record) (p : Wire.Payload) :
    Option Record :=
  match shape, p with
  | .singular, p | .required, p => (s.ofPayload? p).map fun v => r.put n v
  | _, .bytes b =>
    if s.isVarint then (Wire.varints? b).map fun ns => r.addAll n (ns.map s.ofVarint)
    else (s.ofPayload? (.bytes b)).map fun v => r.add n v
  | _, p => (s.ofPayload? p).map fun v => r.add n v

end Scalar

def canSkip (depth : Nat) : Wire.Payload → Bool
  | .group d => d < depth
  | _ => 0 < depth

abbrev InnerDecoder := MessageType → Record → List UInt8 → Option Record

def readField? (depth : Nat) (inner : InnerDecoder) (t : MessageType) (r : Record)
    (f : Nat × Wire.Payload) : Option Record :=
  match t.field? f.1 with
  | none => if canSkip depth f.2 then some r else none
  | some spec =>
    match spec.type, f.2 with
    | .scalar s, p => s.read? spec.shape f.1 r p
    | .message u, .bytes b =>
      match spec.shape with
      | .singular =>
        (inner u ((r.record? f.1).getD u.initial) b).map fun v => r.put f.1 (.record v)
      | _ => (inner u u.initial b).map fun v => r.add f.1 (.record v)
    | .message _, _ => none

def decodeWith? (depth : Nat) (inner : InnerDecoder) (t : MessageType) (start : Record)
    (bytes : List UInt8) : Option Record := do
  let fields ← Wire.fields? bytes
  fields.foldlM (readField? depth inner t) start

/-- Reads a message into a record, with messages nested at most `depth` levels in it. -/
def decode? : (depth : Nat) → InnerDecoder
  | 0 => decodeWith? 0 fun _ _ _ => none
  | depth + 1 => decodeWith? (depth + 1) (decode? depth)

def maxDepth : Nat := 100

def MessageType.decode? (t : MessageType) (bytes : List UInt8) : Option Record :=
  Protobuf.decode? maxDepth t t.initial bytes

mutual

def encodeValue (t : FieldType) : Value → List UInt8
  | .record fields =>
    match t with
    | .message u => Wire.lengthPrefixed (encodeFields u fields)
    | .scalar _ => []
  | v => Scalar.encode v

def encodeValues (spec : FieldSpec) (key : List UInt8) : List Value → List UInt8
  | [] => []
  | v :: vs => key ++ encodeValue spec.type v ++ encodeValues spec key vs

def encodeFields (t : MessageType) : List (Nat × List Value) → List UInt8
  | [] => []
  | (n, vs) :: rest =>
    (match t.field? n with
      | none => []
      | some spec =>
        match spec.shape, spec.type with
        | .packed, _ =>
          (⟨n, 2⟩ : Wire.Key).encode ++ Wire.lengthPrefixed (vs.flatMap Scalar.encode)
        | _, .scalar s => encodeValues spec (⟨n, s.wireType⟩ : Wire.Key).encode vs
        | _, .message _ => encodeValues spec (⟨n, 2⟩ : Wire.Key).encode vs) ++
      encodeFields t rest

end

def MessageType.encode (t : MessageType) (r : Record) : List UInt8 := encodeFields t r

end SchemaEvolution.Protobuf
