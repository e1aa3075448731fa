import SchemaEvolution.Text.Printable
import SchemaEvolution.Text.Utf8

namespace SchemaEvolution.Text

def escapedChar (c : Char) : List Char :=
  match c with
  | '"' => ['\\', '"']
  | '\\' => ['\\', '\\']
  | '\t' => ['\\', 't']
  | '\r' => ['\\', 'r']
  | '\n' => ['\\', 'n']
  | '\x00' => ['\\', '0']
  | c => if standsAlone c then [c] else ['\\', 'u', '\x7b'] ++ hexNumeral c.toNat ++ ['\x7d']

def quoted (s : String) : String := String.ofList ('"' :: s.toList.flatMap escapedChar ++ ['"'])

def quotedItems (xs : List String) : String := ", ".intercalate (xs.map quoted)

def quotedList (xs : List String) : String := "[" ++ quotedItems xs ++ "]"

def quotedSet (xs : List String) : String := "\x7b" ++ quotedItems xs ++ "\x7d"

end SchemaEvolution.Text
