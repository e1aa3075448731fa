import SchemaEvolution.Protobuf.Record

namespace SchemaEvolution.Protobuf

inductive Scalar
  | int32
  | int64
  | uint64
  | bool
  | double
  | text
  | bytes
  deriving DecidableEq, Repr

inductive Shape
  | singular
  | required
  | repeated
  | packed
  deriving DecidableEq, Repr

inductive MessageType
  | fileSet
  | file
  | message
  | extensionRange
  | reservedRange
  | field
  | oneof
  | enum
  | enumValue
  | service
  | method
  | fileOptions
  | messageOptions
  | fieldOptions
  | plainOptions
  | enumOptions
  | enumValueOptions
  | serviceOptions
  | methodOptions
  | uninterpretedOption
  | namePart
  | sourceInfo
  | sourceLocation
  deriving DecidableEq, Repr

inductive FieldType
  | scalar (s : Scalar)
  | message (t : MessageType)
  deriving DecidableEq, Repr

structure FieldSpec where
  number : Nat
  shape : Shape
  type : FieldType
  deriving DecidableEq, Repr

namespace FieldSpec

def one (n : Nat) (s : Scalar) : FieldSpec := ⟨n, .singular, .scalar s⟩

def many (n : Nat) (s : Scalar) : FieldSpec := ⟨n, .repeated, .scalar s⟩

def sub (n : Nat) (t : MessageType) : FieldSpec := ⟨n, .singular, .message t⟩

def subs (n : Nat) (t : MessageType) : FieldSpec := ⟨n, .repeated, .message t⟩

end FieldSpec

namespace MessageType

open FieldSpec

def uninterpreted : FieldSpec := subs 999 .uninterpretedOption

def fields : MessageType → List FieldSpec
  | .fileSet => [subs 1 .file]
  | .file =>
    [one 1 .text, one 2 .text, many 3 .text, subs 4 .message, subs 5 .enum, subs 6 .service,
     subs 7 .field, sub 8 .fileOptions, sub 9 .sourceInfo, many 10 .int32, many 11 .int32,
     one 12 .text]
  | .message =>
    [one 1 .text, subs 2 .field, subs 3 .message, subs 4 .enum, subs 5 .extensionRange,
     subs 6 .field, sub 7 .messageOptions, subs 8 .oneof, subs 9 .reservedRange, many 10 .text]
  | .extensionRange => [one 1 .int32, one 2 .int32, sub 3 .plainOptions]
  | .reservedRange => [one 1 .int32, one 2 .int32]
  | .field =>
    [one 1 .text, one 2 .text, one 3 .int32, one 4 .int32, one 5 .int32, one 6 .text, one 7 .text,
     sub 8 .fieldOptions, one 9 .int32, one 10 .text, one 17 .bool]
  | .oneof => [one 1 .text, sub 2 .plainOptions]
  | .enum =>
    [one 1 .text, subs 2 .enumValue, sub 3 .enumOptions, subs 4 .reservedRange, many 5 .text]
  | .enumValue => [one 1 .text, one 2 .int32, sub 3 .enumValueOptions]
  | .service => [one 1 .text, subs 2 .method, sub 3 .serviceOptions]
  | .method =>
    [one 1 .text, one 2 .text, one 3 .text, sub 4 .methodOptions, one 5 .bool, one 6 .bool]
  | .fileOptions =>
    [one 1 .text, one 8 .text, one 9 .int32, one 10 .bool, one 11 .text, one 16 .bool,
     one 17 .bool, one 18 .bool, one 20 .bool, one 23 .bool, one 27 .bool, one 31 .bool,
     one 36 .text, one 37 .text, one 39 .text, one 40 .text, one 41 .text, one 42 .bool,
     one 44 .text, one 45 .text, uninterpreted]
  | .messageOptions => [one 1 .bool, one 2 .bool, one 3 .bool, one 7 .bool, uninterpreted]
  | .fieldOptions =>
    [one 1 .int32, one 2 .bool, one 3 .bool, one 5 .bool, one 6 .int32, one 10 .bool,
     uninterpreted]
  | .plainOptions => [uninterpreted]
  | .enumOptions => [one 2 .bool, one 3 .bool, uninterpreted]
  | .enumValueOptions => [one 1 .bool, uninterpreted]
  | .serviceOptions => [one 33 .bool, uninterpreted]
  | .methodOptions => [one 33 .bool, one 34 .int32, uninterpreted]
  | .uninterpretedOption =>
    [subs 2 .namePart, one 3 .text, one 4 .uint64, one 5 .int64, one 6 .double, one 7 .bytes,
     one 8 .text]
  | .namePart => [⟨1, .required, .scalar .text⟩, ⟨2, .required, .scalar .bool⟩]
  | .sourceInfo => [subs 1 .sourceLocation]
  | .sourceLocation =>
    [⟨1, .packed, .scalar .int32⟩, ⟨2, .packed, .scalar .int32⟩, one 3 .text, one 4 .text,
     many 6 .text]

def field? (t : MessageType) (n : Nat) : Option FieldSpec := t.fields.find? (·.number == n)

end MessageType

def Scalar.default : Scalar → Value
  | .int32 | .int64 | .uint64 | .bool => .number 0
  | .double => .bits64 0
  | .text => .text ""
  | .bytes => .bytes []

def MessageType.initial (t : MessageType) : Record :=
  t.fields.filterMap fun f =>
    match f.shape, f.type with
    | .required, .scalar s => some (f.number, [s.default])
    | _, _ => none

end SchemaEvolution.Protobuf
