import SchemaEvolution.Text.Utf8

namespace SchemaEvolution.Protobuf.DefaultValue

def unsigned? (cs : List Char) : Option Nat :=
  if !cs.isEmpty && cs.all Char.isDigit then some (Nat.ofDigitChars 10 cs 0) else none

def unsignedFits (bits : Nat) : List Char → Bool
  | '+' :: cs => (unsigned? cs).any (· < Nat.pow 2 bits)
  | cs => (unsigned? cs).any (· < Nat.pow 2 bits)

def signedFits (bits : Nat) : List Char → Bool
  | '-' :: cs => (unsigned? cs).any (· ≤ Nat.pow 2 (bits - 1))
  | '+' :: cs => (unsigned? cs).any (· < Nat.pow 2 (bits - 1))
  | cs => (unsigned? cs).any (· < Nat.pow 2 (bits - 1))

def isExponent : List Char → Bool
  | [] => true
  | c :: cs =>
    (c == 'e' || c == 'E') &&
      match cs with
      | '+' :: ds | '-' :: ds => (unsigned? ds).isSome
      | ds => (unsigned? ds).isSome

def isDecimal (cs : List Char) : Bool :=
  let whole := cs.takeWhile Char.isDigit
  let (fraction, rest) := match cs.dropWhile Char.isDigit with
    | '.' :: rest => (rest.takeWhile Char.isDigit, rest.dropWhile Char.isDigit)
    | rest => ([], rest)
  !(whole.isEmpty && fraction.isEmpty) && isExponent rest

def isFloat (cs : List Char) : Bool :=
  let body := match cs with
    | '+' :: cs | '-' :: cs => cs
    | cs => cs
  ["inf", "infinity", "nan"].contains (String.ofList body).toLower || isDecimal body

def isOctal (c : Char) : Bool := '0' ≤ c && c ≤ '7'

def isEscaped : List Char → Bool
  | [] => true
  | '\\' :: 'x' :: a :: b :: cs | '\\' :: 'X' :: a :: b :: cs =>
    (Text.hexValue? a).isSome && (Text.hexValue? b).isSome && isEscaped cs
  | '\\' :: c :: cs => ("abfnrtv\\?\x27\"".toList.contains c || isOctal c) && isEscaped cs
  | '\\' :: [] => false
  | _ :: cs => isEscaped cs

end SchemaEvolution.Protobuf.DefaultValue
