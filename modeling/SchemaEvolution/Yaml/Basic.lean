namespace SchemaEvolution

inductive Yaml
  | scalar (text : String) (plain : Bool)
  | sequence (items : List Yaml)
  | mapping (entries : List (Yaml × Yaml))
  deriving Repr, Inhabited

namespace Yaml

def empty : Yaml := .scalar "" true

def tagged : Yaml → Yaml
  | .scalar text _ => .scalar text false
  | v => v

structure Cursor where
  rest : List Char
  column : Nat
  fresh : Bool
  anchors : List (String × Yaml)

abbrev Reading := StateT Cursor Option

def isSpace (c : Char) : Bool := c == ' ' || c == '\t'

def isGap (c : Char) : Bool := isSpace c || c == '\n'

def endsWord : List Char → Bool
  | [] => true
  | c :: _ => isGap c

def columnAfter (column : Nat) : List Char → Nat
  | [] => column
  | '\n' :: cs => columnAfter 0 cs
  | _ :: cs => columnAfter (column + 1) cs

namespace Cursor

def advance (c : Cursor) (rest : List Char) : Cursor :=
  let passed := c.rest.take (c.rest.length - rest.length)
  { c with rest, column := columnAfter c.column passed, fresh := false }

def atMarker (c : Cursor) : Bool :=
  c.column == 0 &&
    match c.rest with
    | '-' :: '-' :: '-' :: rest | '.' :: '.' :: '.' :: rest => endsWord rest
    | _ => false

def atEnd (c : Cursor) : Bool := c.rest.isEmpty || c.atMarker

def atItem (c : Cursor) : Bool :=
  match c.rest with
  | '-' :: rest => endsWord rest && !c.atMarker
  | _ => false

end Cursor

def skipGap (flow comment : Bool) (c : Cursor) : List Char → Cursor
  | [] => { c with rest := [] }
  | '\n' :: cs => skipGap flow false { c with column := 0, fresh := true } cs
  | x :: cs =>
    if comment || x == '#' then skipGap flow true { c with column := c.column + 1 } cs
    else if x == ' ' || (x == '\t' && (flow || !c.fresh)) then
      skipGap flow false { c with column := c.column + 1 } cs
    else { c with rest := x :: cs }

def gap (flow : Bool) : Reading Unit := modify fun c => skipGap flow false c c.rest

def pass (count : Nat) (fresh : Bool) : Reading Unit :=
  modify fun c => { c.advance (c.rest.drop count) with fresh }

def foldBreaks (count : Nat) : List Char :=
  if count ≤ 1 then [' '] else List.replicate (count - 1) '\n'

end Yaml

end SchemaEvolution
