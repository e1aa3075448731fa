import SchemaEvolution.Text.Utf8

namespace SchemaEvolution.Protobuf

inductive Value
  | number (n : Int)
  | bits64 (n : Nat)
  | text (s : String)
  | bytes (b : List UInt8)
  | record (fields : List (Nat × List Value))
  deriving Repr, Inhabited

abbrev Record := List (Nat × List Value)

namespace Value

mutual

def equal : Value → Value → Bool
  | .number a, .number b => a == b
  | .bits64 a, .bits64 b => a == b
  | .text a, .text b => a == b
  | .bytes a, .bytes b => a == b
  | .record a, .record b => equalFields a b
  | _, _ => false

def equalFields : List (Nat × List Value) → List (Nat × List Value) → Bool
  | [], [] => true
  | (m, xs) :: a, (n, ys) :: b => m == n && equalAll xs ys && equalFields a b
  | _, _ => false

def equalAll : List Value → List Value → Bool
  | [], [] => true
  | x :: xs, y :: ys => x.equal y && equalAll xs ys
  | _, _ => false

end

def asNumber? : Value → Option Int
  | .number n => some n
  | _ => none

def asText? : Value → Option String
  | .text s => some s
  | _ => none

def asRecord? : Value → Option Record
  | .record r => some r
  | _ => none

end Value

namespace Record

def equal (r s : Record) : Bool := Value.equalFields r s

def alter (f : List Value → List Value) (n : Nat) : Record → Record
  | [] => [(n, f [])]
  | (m, vs) :: rest =>
    if n < m then (n, f []) :: (m, vs) :: rest
    else if n = m then (m, f vs) :: rest
    else (m, vs) :: alter f n rest

def put (n : Nat) (v : Value) (r : Record) : Record := r.alter (fun _ => [v]) n

def add (n : Nat) (v : Value) (r : Record) : Record := r.alter (· ++ [v]) n

def addAll (n : Nat) (vs : List Value) (r : Record) : Record :=
  if vs.isEmpty then r else r.alter (· ++ vs) n

def values (r : Record) (n : Nat) : List Value := (r.lookup n).getD []

def number? (r : Record) (n : Nat) : Option Int := (r.values n).head? >>= Value.asNumber?

def text? (r : Record) (n : Nat) : Option String := (r.values n).head? >>= Value.asText?

def record? (r : Record) (n : Nat) : Option Record := (r.values n).head? >>= Value.asRecord?

def number (r : Record) (n : Nat) : Int := (r.number? n).getD 0

def text (r : Record) (n : Nat) : String := (r.text? n).getD ""

def flag (r : Record) (n : Nat) : Bool := r.number n ≠ 0

def numbers (r : Record) (n : Nat) : List Int := (r.values n).filterMap Value.asNumber?

def texts (r : Record) (n : Nat) : List String := (r.values n).filterMap Value.asText?

def records (r : Record) (n : Nat) : List Record := (r.values n).filterMap Value.asRecord?

end Record

end SchemaEvolution.Protobuf
