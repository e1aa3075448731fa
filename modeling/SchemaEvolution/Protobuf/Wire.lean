namespace SchemaEvolution.Protobuf.Wire

def varint (n : Nat) : List UInt8 :=
  if n < 128 then [UInt8.ofNat n] else UInt8.ofNat (n % 128 + 128) :: varint (n / 128)

def takeVarintFrom? (seen : Nat) : List UInt8 → Option (Nat × List UInt8)
  | [] => none
  | b :: rest =>
    if seen = 9 then if b.toNat < 2 then some (b.toNat, rest) else none
    else if b.toNat < 128 then some (b.toNat, rest)
    else (takeVarintFrom? (seen + 1) rest).map fun r => (b.toNat - 128 + 128 * r.1, r.2)

def takeVarint? : List UInt8 → Option (Nat × List UInt8) := takeVarintFrom? 0

def take? (n : Nat) (bytes : List UInt8) : Option (List UInt8 × List UInt8) :=
  let front := bytes.take n
  if front.length = n then some (front, bytes.drop n) else none

def ofLittleEndian : List UInt8 → Nat
  | [] => 0
  | b :: bs => b.toNat + 256 * ofLittleEndian bs

def littleEndian (n : Nat) : (width : Nat) → List UInt8
  | 0 => []
  | width + 1 => UInt8.ofNat (n % 256) :: littleEndian (n / 256) width

inductive Payload
  | varint (n : Nat)
  | fixed64 (n : Nat)
  | fixed32 (n : Nat)
  | bytes (b : List UInt8)
  | group (depth : Nat)
  deriving DecidableEq, Repr

structure Key where
  number : Nat
  wireType : Nat
  deriving DecidableEq, Repr

def Key.encode (k : Key) : List UInt8 := Wire.varint (8 * k.number + k.wireType)

def takeKey? (bytes : List UInt8) : Option (Key × List UInt8) := do
  let (n, rest) ← takeVarint? bytes
  if n < Nat.pow 2 32 ∧ 0 < n / 8 ∧ n % 8 ≤ 5 then some (⟨n / 8, n % 8⟩, rest) else none

def takeBytes? (bytes : List UInt8) : Option (List UInt8 × List UInt8) := do
  let (n, rest) ← takeVarint? bytes
  take? n rest

mutual

def takePayload? : (fuel : Nat) → Key → List UInt8 → Option (Payload × List UInt8)
  | 0, _, _ => none
  | fuel + 1, k, bytes =>
    match k.wireType with
    | 0 => (takeVarint? bytes).map fun r => (.varint r.1, r.2)
    | 1 => (take? 8 bytes).map fun r => (.fixed64 (ofLittleEndian r.1), r.2)
    | 2 => (takeBytes? bytes).map fun r => (.bytes r.1, r.2)
    | 3 => (skipGroup? fuel k.number 0 bytes).map fun r => (.group r.1, r.2)
    | 5 => (take? 4 bytes).map fun r => (.fixed32 (ofLittleEndian r.1), r.2)
    | _ => none

def skipGroup? : (fuel number depth : Nat) → List UInt8 → Option (Nat × List UInt8)
  | 0, _, _, _ => none
  | fuel + 1, number, depth, bytes => do
    let (k, rest) ← takeKey? bytes
    if k.wireType = 4 then
      if k.number = number then some (depth, rest) else none
    else
      let (p, rest) ← takePayload? fuel k rest
      let inner := match p with
        | .group d => d + 1
        | _ => 1
      skipGroup? fuel number (max depth inner) rest

end

def takeFields? : (fuel : Nat) → List UInt8 → Option (List (Nat × Payload))
  | _, [] => some []
  | 0, _ => none
  | fuel + 1, bytes => do
    let (k, rest) ← takeKey? bytes
    let (p, rest) ← takePayload? fuel k rest
    let fields ← takeFields? fuel rest
    return (k.number, p) :: fields

def fields? (bytes : List UInt8) : Option (List (Nat × Payload)) :=
  takeFields? (2 * bytes.length + 1) bytes

def takeVarints? : (fuel : Nat) → List UInt8 → Option (List Nat)
  | _, [] => some []
  | 0, _ => none
  | fuel + 1, bytes => do
    let (n, rest) ← takeVarint? bytes
    let ns ← takeVarints? fuel rest
    return n :: ns

def varints? (bytes : List UInt8) : Option (List Nat) := takeVarints? bytes.length bytes

def lengthPrefixed (bytes : List UInt8) : List UInt8 := varint bytes.length ++ bytes

end SchemaEvolution.Protobuf.Wire
