import SchemaEvolution.Json.Basic
import SchemaEvolution.Text.Utf8

/-!
Reading JSON texts. The whole text has to be one value. An integer that fits a 64-bit word, signed
or not, stays an integer; every other number is taken in floating point.
-/

namespace SchemaEvolution.Json

def isBlank (c : Char) : Bool := c == ' ' || c == '\n' || c == '\t' || c == '\r'

def skipBlank (cs : List Char) : List Char := cs.dropWhile isBlank

def takeDigits (cs : List Char) : List Nat × List Char :=
  ((cs.takeWhile Char.isDigit).map fun c => c.toNat - '0'.toNat, cs.dropWhile Char.isDigit)

def ofDigits (ds : List Nat) : Nat := ds.foldl (fun n d => 10 * n + d) 0

structure Literal where
  negative : Bool
  whole : List Nat
  fraction : Option (List Nat)
  exponent : Option Int
  deriving DecidableEq, Repr

namespace Literal

def greatestWord : Nat := Nat.pow 2 64 - 1

def extend (n : Nat) : List Nat → Nat × List Nat
  | [] => (n, [])
  | d :: ds => if greatestWord < 10 * n + d then (n, d :: ds) else extend (10 * n + d) ds

def significand (l : Literal) : Nat × Int :=
  let (n, surplus) := extend 0 l.whole
  let fraction := l.fraction.getD []
  let (m, dropped) := extend n fraction
  (m, surplus.length - ((fraction.length - dropped.length : Nat) : Int))

def float? (l : Literal) : Option Number := do
  let (n, e) := l.significand
  let x ← Decimal.Magnitude.ofDecimal? n (e + l.exponent.getD 0)
  return .float ⟨l.negative, x⟩

def number? (l : Literal) : Option Number :=
  let n := ofDigits l.whole
  if l.fraction.isSome || l.exponent.isSome then l.float?
  else if l.negative then
    if 0 < n ∧ n ≤ Nat.pow 2 63 then some (.integer (-n)) else l.float?
  else if n ≤ greatestWord then some (.integer n) else l.float?

end Literal

def takeWhole? (cs : List Char) : Option (List Nat × List Char) :=
  match takeDigits cs with
  | ([], _) => none
  | (0 :: _ :: _, _) => none
  | r => some r

def takeFraction? : List Char → Option (Option (List Nat) × List Char)
  | '.' :: cs =>
    match takeDigits cs with
    | ([], _) => none
    | (ds, rest) => some (some ds, rest)
  | cs => some (none, cs)

def takeSign : List Char → Bool × List Char
  | '-' :: cs => (true, cs)
  | '+' :: cs => (false, cs)
  | cs => (false, cs)

def takeExponent? : List Char → Option (Option Int × List Char)
  | [] => some (none, [])
  | c :: cs =>
    if c == 'e' || c == 'E' then
      let (negative, cs) := takeSign cs
      match takeDigits cs with
      | ([], _) => none
      | (ds, rest) =>
        let n : Int := ofDigits ds
        some (some (if negative then -n else n), rest)
    else some (none, c :: cs)

def takeLiteral? (cs : List Char) : Option (Literal × List Char) := do
  let (negative, cs) := match cs with
    | '-' :: cs => (true, cs)
    | cs => (false, cs)
  let (whole, cs) ← takeWhole? cs
  let (fraction, cs) ← takeFraction? cs
  let (exponent, cs) ← takeExponent? cs
  return (⟨negative, whole, fraction, exponent⟩, cs)

def simpleEscape? : Char → Option Char
  | '"' => some '"'
  | '\\' => some '\\'
  | '/' => some '/'
  | 'b' => some '\x08'
  | 'f' => some '\x0c'
  | 'n' => some '\n'
  | 'r' => some '\r'
  | 't' => some '\t'
  | _ => none

def hexFour? (a b c d : Char) : Option Nat := do
  let a ← Text.hexValue? a
  let b ← Text.hexValue? b
  let c ← Text.hexValue? c
  let d ← Text.hexValue? d
  return ((a * 16 + b) * 16 + c) * 16 + d

def isHighSurrogate (n : Nat) : Bool := 0xd800 ≤ n && n < 0xdc00

def isLowSurrogate (n : Nat) : Bool := 0xdc00 ≤ n && n < 0xe000

def joinSurrogates (hi lo : Nat) : Char :=
  Char.ofNat (0x10000 + (hi - 0xd800) * 0x400 + (lo - 0xdc00))

def consChar (c : Char) : List Char × List Char → List Char × List Char
  | (s, rest) => (c :: s, rest)

def takeString? : List Char → Option (List Char × List Char)
  | [] => none
  | '"' :: rest => some ([], rest)
  | '\\' :: 'u' :: a :: b :: c :: d :: rest =>
    match hexFour? a b c d with
    | none => none
    | some n =>
      if isHighSurrogate n then
        match rest with
        | '\\' :: 'u' :: e :: f :: g :: h :: rest =>
          match hexFour? e f g h with
          | none => none
          | some m =>
            if isLowSurrogate m then (takeString? rest).map (consChar (joinSurrogates n m))
            else none
        | _ => none
      else if isLowSurrogate n then none
      else (takeString? rest).map (consChar (Char.ofNat n))
  | '\\' :: c :: rest =>
    match simpleEscape? c with
    | none => none
    | some x => (takeString? rest).map (consChar x)
  | c :: rest =>
    if c.toNat < 0x20 || c == '\\' then none else (takeString? rest).map (consChar c)

def takeKey? : List Char → Option (String × List Char)
  | '"' :: cs => (takeString? cs).map fun r => (String.ofList r.1, r.2)
  | _ => none

def takeColon? (cs : List Char) : Option (List Char) :=
  match skipBlank cs with
  | ':' :: cs => some (skipBlank cs)
  | _ => none

def maxDepth : Nat := 127

mutual

def takeValue? : (fuel depth : Nat) → List Char → Option (Json × List Char)
  | 0, _, _ => none
  | fuel + 1, depth, cs =>
    match cs with
    | 'n' :: 'u' :: 'l' :: 'l' :: rest => some (.null, rest)
    | 't' :: 'r' :: 'u' :: 'e' :: rest => some (.bool true, rest)
    | 'f' :: 'a' :: 'l' :: 's' :: 'e' :: rest => some (.bool false, rest)
    | '"' :: rest => (takeString? rest).map fun r => (.string (String.ofList r.1), r.2)
    | '[' :: rest =>
      match depth with
      | 0 => none
      | depth + 1 =>
        match skipBlank rest with
        | ']' :: rest => some (.array [], rest)
        | rest => (takeItems? fuel depth rest).map fun r => (.array r.1, r.2)
    | '\x7b' :: rest =>
      match depth with
      | 0 => none
      | depth + 1 =>
        match skipBlank rest with
        | '\x7d' :: rest => some (.object [], rest)
        | rest => (takeMembers? fuel depth rest).map fun r => (ofMembers r.1, r.2)
    | cs => do
      let (l, rest) ← takeLiteral? cs
      let n ← l.number?
      return (.number n, rest)

def takeItems? : (fuel depth : Nat) → List Char → Option (List Json × List Char)
  | 0, _, _ => none
  | fuel + 1, depth, cs => do
    let (x, rest) ← takeValue? fuel depth cs
    match skipBlank rest with
    | ']' :: rest => return ([x], rest)
    | ',' :: rest =>
      let (xs, rest) ← takeItems? fuel depth (skipBlank rest)
      return (x :: xs, rest)
    | _ => none

def takeMembers? : (fuel depth : Nat) → List Char → Option (List (String × Json) × List Char)
  | 0, _, _ => none
  | fuel + 1, depth, cs => do
    let (k, rest) ← takeKey? cs
    let rest ← takeColon? rest
    let (x, rest) ← takeValue? fuel depth rest
    match skipBlank rest with
    | '\x7d' :: rest => return ([(k, x)], rest)
    | ',' :: rest =>
      let (ms, rest) ← takeMembers? fuel depth (skipBlank rest)
      return ((k, x) :: ms, rest)
    | _ => none

end

def ofChars? (cs : List Char) : Option Json := do
  let (v, rest) ← takeValue? (2 * cs.length + 2) maxDepth (skipBlank cs)
  if (skipBlank rest).isEmpty then some v else none

def parse? (s : String) : Option Json := ofChars? s.toList

def ofUtf8? (bytes : List UInt8) : Option Json := Text.ofUtf8? bytes >>= parse?

end SchemaEvolution.Json
