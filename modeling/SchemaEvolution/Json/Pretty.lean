import SchemaEvolution.Json.Printer

namespace SchemaEvolution.Json

def newLine (level : Nat) : List Char := '\n' :: List.replicate (2 * level) ' '

mutual

def pretty (level : Nat) : Json → List Char
  | .array [] => ['[', ']']
  | .object [] => ['\x7b', '\x7d']
  | .array xs => '[' :: prettyItems (level + 1) xs ++ newLine level ++ [']']
  | .object ms => '\x7b' :: prettyMembers (level + 1) ms ++ newLine level ++ ['\x7d']
  | v => v.render

def prettyItems (level : Nat) : List Json → List Char
  | [] => []
  | [x] => newLine level ++ pretty level x
  | x :: xs => newLine level ++ pretty level x ++ ',' :: prettyItems level xs

def prettyMembers (level : Nat) : List (String × Json) → List Char
  | [] => []
  | [(k, x)] => newLine level ++ renderString k ++ ':' :: ' ' :: pretty level x
  | (k, x) :: ms =>
    newLine level ++ renderString k ++ ':' :: ' ' :: pretty level x ++ ',' :: prettyMembers level ms

end

def prettyText (members : List (String × Json)) : String :=
  String.ofList (pretty 0 (.object members))

end SchemaEvolution.Json
