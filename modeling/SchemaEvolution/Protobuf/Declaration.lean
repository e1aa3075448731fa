import SchemaEvolution.Protobuf.Codec

namespace SchemaEvolution.Protobuf

structure DeclaredRange where
  start : Int
  stop : Int
  deriving DecidableEq, Repr

def DeclaredRange.ofRecord (r : Record) : DeclaredRange := ⟨r.number 1, r.number 2⟩

structure FieldDecl where
  name : String
  extendee : String
  number : Int
  label : Int
  type : Int
  typeName : String
  default? : Option String
  oneof? : Option Int
  jsonName? : Option String
  deprecated : Bool
  record : Record

def FieldDecl.ofRecord (r : Record) : FieldDecl where
  name := r.text 1
  extendee := r.text 2
  number := r.number 3
  label := r.number 4
  type := r.number 5
  typeName := r.text 6
  default? := r.text? 7
  oneof? := r.number? 9
  jsonName? := r.text? 10
  deprecated := ((r.record? 8).map (·.flag 3)).getD false
  record := r

structure EnumDecl where
  name : String
  values : List (String × Int)
  allowAlias : Bool
  reservedRanges : List DeclaredRange
  reservedNames : List String
  record : Record

def EnumDecl.ofRecord (r : Record) : EnumDecl where
  name := r.text 1
  values := (r.records 2).map fun v => (v.text 1, v.number 2)
  allowAlias := ((r.record? 3).map (·.flag 2)).getD false
  reservedRanges := (r.records 4).map DeclaredRange.ofRecord
  reservedNames := r.texts 5
  record := r

structure MessageDecl where
  name : String
  fields : List FieldDecl
  nested : List MessageDecl
  enums : List EnumDecl
  extensionRanges : List DeclaredRange
  extensions : List FieldDecl
  oneofs : List String
  reservedRanges : List DeclaredRange
  reservedNames : List String
  record : Record

mutual

def MessageDecl.ofFields (all : Record) : List (Nat × List Value) → MessageDecl
  | [] => {
      name := all.text 1
      fields := (all.records 2).map FieldDecl.ofRecord
      nested := []
      enums := (all.records 4).map EnumDecl.ofRecord
      extensionRanges := (all.records 5).map DeclaredRange.ofRecord
      extensions := (all.records 6).map FieldDecl.ofRecord
      oneofs := (all.records 8).map (·.text 1)
      reservedRanges := (all.records 9).map DeclaredRange.ofRecord
      reservedNames := all.texts 10
      record := all }
  | (n, vs) :: rest =>
    let m := ofFields all rest
    if n = 3 then { m with nested := MessageDecl.ofValues vs ++ m.nested } else m

def MessageDecl.ofValues : List Value → List MessageDecl
  | [] => []
  | .record fields :: vs => MessageDecl.ofFields fields fields :: MessageDecl.ofValues vs
  | _ :: vs => MessageDecl.ofValues vs

end

structure MethodDecl where
  name : String
  input : String
  output : String
  deriving DecidableEq, Repr

structure ServiceDecl where
  name : String
  methods : List MethodDecl
  deriving DecidableEq, Repr

def ServiceDecl.ofRecord (r : Record) : ServiceDecl where
  name := r.text 1
  methods := (r.records 2).map fun m => ⟨m.text 1, m.text 2, m.text 3⟩

structure FileDecl where
  name : String
  package : String
  imports : List String
  messages : List MessageDecl
  enums : List EnumDecl
  services : List ServiceDecl
  extensions : List FieldDecl
  publicImports : List Int
  weakImports : List Int
  syntaxName : String

def FileDecl.ofRecord (r : Record) : FileDecl where
  name := r.text 1
  package := r.text 2
  imports := r.texts 3
  messages := MessageDecl.ofValues (r.values 4)
  enums := (r.records 5).map EnumDecl.ofRecord
  services := (r.records 6).map ServiceDecl.ofRecord
  extensions := (r.records 7).map FieldDecl.ofRecord
  publicImports := r.numbers 10
  weakImports := r.numbers 11
  syntaxName := r.text 12

def filesOf (set : Record) : List Record := set.records 1

def qualify (scope name : String) : String := if scope = "" then name else scope ++ "." ++ name

end SchemaEvolution.Protobuf
