import SchemaEvolution.Text.Utf8

namespace SchemaEvolution.Text.Percent

def upperHexDigit (n : Nat) : Char := (hexDigit n).toUpper

def encodeByte (b : UInt8) : List Char :=
  ['%', upperHexDigit (b.toNat / 16), upperHexDigit b.toNat]

def encodeChar (c : Char) : List Char := (toUtf8 c.toString).flatMap encodeByte

def encode (escaped : Char → Bool) (cs : List Char) : List Char :=
  cs.flatMap fun c => if escaped c then encodeChar c else [c]

def decode : List Char → List UInt8
  | [] => []
  | '%' :: a :: b :: rest =>
    match hexValue? a, hexValue? b with
    | some x, some y => UInt8.ofNat (16 * x + y) :: decode rest
    | _, _ => toUtf8 "%" ++ decode (a :: b :: rest)
  | c :: rest => toUtf8 c.toString ++ decode rest

def decodeUtf8? (s : String) : Option String := ofUtf8? (decode s.toList)

end SchemaEvolution.Text.Percent
