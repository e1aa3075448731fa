import SchemaEvolution.Avro.Schema
import SchemaEvolution.Text.Integer
import SchemaEvolution.Text.Utf8

namespace SchemaEvolution.Avro

abbrev Known := List (String × Schema)

def kindOfJson : Json → Kind
  | .null => .null
  | .bool _ => .boolean
  | .number (.integer n) => if Text.fitsWord 32 n then .int else .long
  | .number (.float _) => .double
  | .string _ => .string
  | .array _ => .array
  | .object _ => .map

def signed (n : Int) : Int := if Int.pow 2 63 ≤ n then n - Int.pow 2 64 else n

def isSpecialFloat (s : String) : Bool :=
  s ∈ ["NaN", "INF", "Infinity", "-INF", "-Infinity"]

def isHexRun (count : Nat) (cs : List Char) : Bool :=
  cs.length == count && cs.all fun c => (Text.hexValue? c).isSome

def isHyphenated (cs : List Char) : Bool :=
  let rec go : List Nat → List Char → Bool
    | [], cs => cs.isEmpty
    | [n], cs => isHexRun n cs
    | n :: ns, cs =>
      isHexRun n (cs.take n) && (cs.drop n).head? == some '-' && go ns (cs.drop (n + 1))
  go [8, 4, 4, 4, 12] cs

def isUuidText (s : String) : Bool :=
  let cs := s.toList
  isHexRun 32 cs || isHyphenated cs ||
    (cs.length == 38 && cs.head? == some '\x7b' && cs.getLast? == some '\x7d' &&
      isHyphenated (cs.drop 1).dropLast) ||
    ("urn:uuid:".toList.isPrefixOf cs && isHyphenated (cs.drop 9))

def isByte : Json → Bool
  | .number (.integer n) => 0 ≤ signed n && signed n < 256
  | _ => false

def Kind.admits (k : Kind) (v : Json) : Bool :=
  match k, v with
  | .null, .null => true
  | .boolean, .bool _ => true
  | .int, .number (.integer n) => Text.fitsWord 32 (signed n)
  | .float, .number _ | .double, .number _ => true
  | .float, .string s | .double, .string s => isSpecialFloat s
  | .bytes, .string _ => true
  | .bytes, .array xs => xs.all isByte
  | .string, .string _ => true
  | .uuid, .string s => isUuidText s
  | .date, .number (.integer n) | .timeMillis, .number (.integer n) => Text.fitsWord 32 n
  | .long, .number (.integer _) => true
  | k, .number (.integer _) => k.carrier? == some .long
  | _, _ => false

/-- Whether a value is a default. Fields that an object leaves out take their own defaults, and a
union takes its first member for them. -/
def admits (known : Known) : (fuel : Nat) → Schema → Json → Bool
  | 0, _, _ => false
  | fuel + 1, s, v =>
    match s, v with
    | .plain k, v => k.admits v
    | .fixed .., .string _ => true
    | .enum _ symbols default _, .string x => symbols.contains x || default.isSome
    | .array items _, .array xs => xs.all (admits known fuel items)
    | .map values _, .object ms => ms.all fun m => admits known fuel values m.2
    | .union members, v =>
      match members.find? fun m => !m.kind.isNamed && m.kind == kindOfJson v with
      | some m => admits known fuel m v
      | none => members.any (admits known fuel · v)
    | .record _ fields _, .object ms =>
      fields.all fun f =>
        match Names.find? f.1.name ms, f.1.default with
        | some x, _ => admits known fuel f.2 x
        | none, none => false
        | none, some d =>
          match f.2 with
          | .union (m :: _) => m.kind == .null || admits known fuel m d
          | s => admits known fuel s d
    | .ref name, v =>
      match known.lookup name with
      | some s => admits known fuel s v
      | none => false
    | _, _ => false

def isDefault (known : Known) (fuel : Nat) (s : Schema) (v : Json) : Bool :=
  match s with
  | .union members => members.any (admits known fuel · v)
  | s => admits known fuel s v

end SchemaEvolution.Avro
