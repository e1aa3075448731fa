import SchemaEvolution.Decimal.Shortest
import SchemaEvolution.Names

namespace SchemaEvolution

open Decimal (Binary64)

namespace Json

/-- An integer is never equal to a number in floating point. -/
inductive Number
  | integer (value : Int)
  | float (value : Binary64)
  deriving DecidableEq, Repr

def Number.equal : Number → Number → Bool
  | .integer a, .integer b => a == b
  | .float a, .float b => a.equal b
  | _, _ => false

def Number.layout : Decimal.Layout := ⟨-4, 16⟩

def Number.render : Number → List Char
  | .integer (.ofNat n) => Nat.toDigits 10 n
  | .integer (.negSucc n) => '-' :: Nat.toDigits 10 (n + 1)
  | .float x => x.render layout

end Json

inductive Json
  | null
  | bool (value : Bool)
  | number (value : Json.Number)
  | string (value : String)
  | array (items : List Json)
  | object (members : List (String × Json))
  deriving Repr, Inhabited

namespace Json

mutual

def equal : Json → Json → Bool
  | .null, .null => true
  | .bool a, .bool b => a == b
  | .number a, .number b => a.equal b
  | .string a, .string b => a == b
  | .array xs, .array ys => equalItems xs ys
  | .object xs, .object ys => equalMembers xs ys
  | _, _ => false

def equalItems : List Json → List Json → Bool
  | [], [] => true
  | x :: xs, y :: ys => x.equal y && equalItems xs ys
  | _, _ => false

def equalMembers : List (String × Json) → List (String × Json) → Bool
  | [], [] => true
  | (k, x) :: xs, (l, y) :: ys => k == l && x.equal y && equalMembers xs ys
  | _, _ => false

end

mutual

def size : Json → Nat
  | .array xs => sizeItems xs + 1
  | .object ms => sizeMembers ms + 1
  | _ => 1

def sizeItems : List Json → Nat
  | [] => 0
  | x :: xs => x.size + sizeItems xs

def sizeMembers : List (String × Json) → Nat
  | [] => 0
  | (_, x) :: ms => x.size + sizeMembers ms

end

def ofMembers (members : List (String × Json)) : Json :=
  .object (members.foldl (fun ms m => Names.put m.1 m.2 ms) [])

def get? (key : String) : Json → Option Json
  | .object ms => Names.find? key ms
  | _ => none

def asString? : Json → Option String
  | .string s => some s
  | _ => none

def asArray? : Json → Option (List Json)
  | .array xs => some xs
  | _ => none

def asObject? : Json → Option (List (String × Json))
  | .object ms => some ms
  | _ => none

def asBool? : Json → Option Bool
  | .bool b => some b
  | _ => none

def isObject (v : Json) : Bool := v.asObject?.isSome

def has (key : String) (v : Json) : Bool := (v.get? key).isSome

def string? (key : String) (v : Json) : Option String := v.get? key >>= asString?

def array? (key : String) (v : Json) : Option (List Json) := v.get? key >>= asArray?

def object? (key : String) (v : Json) : Option (List (String × Json)) := v.get? key >>= asObject?

end Json

end SchemaEvolution
