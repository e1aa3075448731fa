import SchemaEvolution.Text.Split

namespace SchemaEvolution.Avro

def isNameStart (c : Char) : Bool := c.isAlpha || c == '_'

def isSimpleName : List Char → Bool
  | [] => false
  | c :: cs => isNameStart c && cs.all fun c => isNameStart c || c.isDigit

def isNamespace (s : String) : Bool :=
  s.isEmpty || (Text.splitAt '.' s.toList).all isSimpleName

structure WrittenName where
  space? : Option String
  simple : String
  deriving DecidableEq, Repr

namespace WrittenName

def ofText? (s : String) : Option WrittenName :=
  let n : WrittenName :=
    match Text.cutLast? '.' s.toList with
    | some (space, simple) => ⟨some (String.ofList space), String.ofList simple⟩
    | none => ⟨none, s⟩
  if isSimpleName n.simple.toList && n.space?.all isNamespace then some n else none

end WrittenName

def qualify (space simple : String) : String :=
  if space.isEmpty then simple else space ++ "." ++ simple

def mentionedName? (space : String) (s : String) : Option String := do
  let n ← WrittenName.ofText? s
  match n.space? with
  | some own => return qualify (if own.isEmpty then space else own) n.simple
  | none => return qualify space n.simple

end SchemaEvolution.Avro
