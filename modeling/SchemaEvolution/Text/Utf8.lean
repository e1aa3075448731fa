namespace SchemaEvolution.Text

def toUtf8 (s : String) : List UInt8 := s.toUTF8.data.toList

def ofUtf8? (bytes : List UInt8) : Option String := String.fromUTF8? ⟨bytes.toArray⟩

def hexDigit (n : Nat) : Char := Nat.digitChar (n % 16)

def toHex : List UInt8 → String
  | bytes => String.ofList (bytes.flatMap fun b => [hexDigit (b.toNat / 16), hexDigit b.toNat])

def hexValue? (c : Char) : Option Nat :=
  if '0' ≤ c ∧ c ≤ '9' then some (c.toNat - '0'.toNat)
  else if 'a' ≤ c ∧ c ≤ 'f' then some (c.toNat - 'a'.toNat + 10)
  else if 'A' ≤ c ∧ c ≤ 'F' then some (c.toNat - 'A'.toNat + 10)
  else none

def ofHexDigits (cs : List Char) : Nat := cs.foldl (fun n c => 16 * n + (hexValue? c).getD 0) 0

def bytesOfHexDigits? : List Char → Option (List UInt8)
  | [] => some []
  | [_] => none
  | a :: b :: rest => do
    let hi ← hexValue? a
    let lo ← hexValue? b
    let bytes ← bytesOfHexDigits? rest
    return UInt8.ofNat (16 * hi + lo) :: bytes

def ofHex? (s : String) : Option (List UInt8) := bytesOfHexDigits? s.toList

def hexNumeral (n : Nat) : List Char := Nat.toDigits 16 n

end SchemaEvolution.Text
