import SchemaEvolution.Json.Basic
import SchemaEvolution.Text.Utf8

namespace SchemaEvolution.Json

def escapedChar (c : Char) : List Char :=
  match c with
  | '"' => ['\\', '"']
  | '\\' => ['\\', '\\']
  | '\x08' => ['\\', 'b']
  | '\x0c' => ['\\', 'f']
  | '\n' => ['\\', 'n']
  | '\r' => ['\\', 'r']
  | '\t' => ['\\', 't']
  | c =>
    if c.toNat < 0x20 then
      ['\\', 'u', '0', '0', Text.hexDigit (c.toNat / 16), Text.hexDigit c.toNat]
    else [c]

def renderString (s : String) : List Char := '"' :: s.toList.flatMap escapedChar ++ ['"']

mutual

def render : Json → List Char
  | .null => "null".toList
  | .bool true => "true".toList
  | .bool false => "false".toList
  | .number n => n.render
  | .string s => renderString s
  | .array xs => '[' :: renderItems xs ++ [']']
  | .object ms => '\x7b' :: renderMembers ms ++ ['\x7d']

def renderItems : List Json → List Char
  | [] => []
  | [x] => x.render
  | x :: xs => x.render ++ ',' :: renderItems xs

def renderMembers : List (String × Json) → List Char
  | [] => []
  | [(k, x)] => renderString k ++ ':' :: x.render
  | (k, x) :: ms => renderString k ++ ':' :: x.render ++ ',' :: renderMembers ms

end

def text (v : Json) : String := String.ofList v.render

end SchemaEvolution.Json
