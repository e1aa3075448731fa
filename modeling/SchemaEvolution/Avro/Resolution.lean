import SchemaEvolution.Avro.Schema
import SchemaEvolution.Report

namespace SchemaEvolution.Avro

inductive Mismatch
  | readerKind (expected : List Kind)
  | writerKind (expected : List Kind)
  | fieldType (field : String)
  | missingDefault (field : String)
  | symbols
  | unionMembers
  | fixed
  | names (writer reader : String)
  | unknownWriter
  | unknownReader
  deriving DecidableEq, Repr

def kindList (ks : List Kind) : String := "[" ++ ", ".intercalate (ks.map Kind.label) ++ "]"

def Mismatch.message : Mismatch → String
  | .readerKind ks =>
    "Incompatible schema types! The readers_schema should have been " ++ kindList ks
  | .writerKind ks =>
    "Incompatible schema types! The writers_schema should have been " ++ kindList ks
  | .fieldType f =>
    s!"Incompatible schemata! Field '{f}' in reader schema does not match the type in the writer schema"
  | .missingDefault f =>
    s!"Incompatible schemata! Field '{f}' in reader schema must have a default value"
  | .symbols => "Incompatible schemata! Reader's symbols must contain all writer's symbols"
  | .unionMembers => "Incompatible schemata! All elements in union must match for both schemas"
  | .fixed => "Incompatible schemata! Name and size don't match for fixed"
  | .names w r =>
    s!"Incompatible schemata! The name must be the same for both schemas. Writer's name {w} and reader's name {r}"
  | .unknownWriter =>
    "Incompatible schemata! Unknown type for 'writers_schema'. Make sure that the type is a valid one"
  | .unknownReader =>
    "Incompatible schemata! Unknown type for 'readers_schema'. Make sure that the type is a valid one"

abbrev Verdict := Except Mismatch Unit

def require (condition : Bool) (otherwise : Mismatch) : Verdict :=
  if condition then .ok () else .error otherwise

namespace Kind

def times (carrier : Kind) : List Kind :=
  (annotated.filter fun a => a.1 ≠ .bigDecimal ∧ a.1 ≠ .uuid ∧ a.2.1 = carrier).map (·.1)

def promotions : Kind → List Kind
  | .int => [.long, .float, .double] ++ times .int
  | .long => [.float, .double] ++ times .long
  | .float => [.float, .double]
  | .string => [.bytes, .uuid]
  | .bytes => [.string]
  | .bigDecimal => []
  | k => k.carrier?.toList

def isLeaf (k : Kind) : Bool :=
  k.isPrimitive || k = .fixed || (k.carrier?.isSome && k ≠ .bigDecimal)

def promote (writer reader : Kind) : Verdict :=
  if writer.promotions.isEmpty then .error .unknownWriter
  else require (writer.promotions.contains reader) (.readerKind (writer :: writer.promotions))

end Kind

def sameName (writer reader : String) : Verdict :=
  require (simpleName writer = simpleName reader) (.names (simpleName writer) (simpleName reader))

def shapesFit : (writer reader : Schema) → Verdict
  | .union _, _ | _, .union _ => .ok ()
  | .record w _ _, .record r _ _ => sameName w r
  | .enum w _ _ _, .enum r _ _ _ => sameName w r
  | .fixed w n _, .fixed r m _ => require (simpleName w = simpleName r && n = m) .fixed
  | .map w _, .map r _ => shapesFit w r
  | .array w _, .array r _ => shapesFit w r
  | .ref w, .ref r => require (w = r) (.names w r)
  | w, r =>
    if w.kind = r.kind then
      require (w.kind ≠ .decimal && w.kind ≠ .bigDecimal) .unknownReader
    else w.kind.promote r.kind

/-- The field that a name leads to. An alias of a later field hides an earlier field of that name,
and an alias alone leads to none. -/
def fieldNamed? (fields : List (FieldHead × Schema)) (name : String) : Option (FieldHead × Schema) :=
  (fields.reverse.find? fun f => f.1.name == name || f.1.aliases.contains name).filter
    (·.1.name == name)

theorem mem_of_fieldNamed? {fields : List (FieldHead × Schema)} {name : String}
    {w : FieldHead × Schema} (h : fieldNamed? fields name = some w) : w ∈ fields := by
  obtain ⟨h, -⟩ := Option.filter_eq_some_iff.1 h
  exact List.mem_reverse.1 (List.mem_of_find?_eq_some h)

def writerField? (fields : List (FieldHead × Schema)) (f : FieldHead) : Option (FieldHead × Schema) :=
  (f.name :: f.aliases).findSome? (fieldNamed? fields)

theorem sizeOf_of_writerField? {fields : List (FieldHead × Schema)} {f : FieldHead}
    {w : FieldHead × Schema} (h : writerField? fields f = some w) :
    sizeOf w.2 < sizeOf fields := by
  obtain ⟨name, -, h⟩ := List.exists_of_findSome?_eq_some h
  have h₁ := List.sizeOf_lt_of_mem (mem_of_fieldNamed? h)
  obtain ⟨a, b⟩ := w
  simp only [Prod.mk.sizeOf_spec] at h₁
  change sizeOf b < _
  omega

theorem sizeOf_lt_sizeOf_cons {α : Type u} [SizeOf α] (x : α) (xs : List α) :
    sizeOf xs < sizeOf (x :: xs) := by
  rw [List.cons.sizeOf_spec]
  omega

theorem sizeOf_add_lt {n m : Nat} (h : n < m) (f : FieldHead) (r : Schema)
    (rs : List (FieldHead × Schema)) : n + sizeOf r < m + sizeOf ((f, r) :: rs) := by
  rw [List.cons.sizeOf_spec, Prod.mk.sizeOf_spec]
  omega

mutual

/-- The reader can take what was written. A union of one member is read as that member where the
reader is not itself made of parts. -/
def canRead (writer reader : Schema) : Verdict := do
  shapesFit writer reader
  match writer, reader with
  | .union ws, .union rs => require (allRead ws (.union rs)) .unionMembers
  | w, .union rs => require (anyReads w rs) .unionMembers
  | .union _, .record .. | .union _, .map .. => .error (.writerKind [.record])
  | .union _, .array .. => .error (.writerKind [.array])
  | .union _, .enum .. => .error .symbols
  | .union [w], r => canRead w r
  | .union _, _ => .error .unknownWriter
  | .record _ ws _, .record _ rs _ => fieldsRead ws rs
  | .map w _, .map r _ => canRead w r
  | .array w _, .array r _ => canRead w r
  | .enum _ ws _ _, .enum _ rs _ _ => require (ws.all fun x => rs.contains x) .symbols
  | .ref _, .ref _ => .ok ()
  | _, r => require r.kind.isLeaf .unknownWriter
termination_by sizeOf writer + sizeOf reader

def allRead (ws : List Schema) (reader : Schema) : Bool :=
  match ws with
  | [] => true
  | w :: ws => (canRead w reader).isOk && allRead ws reader
termination_by sizeOf ws + sizeOf reader

def anyReads (writer : Schema) (rs : List Schema) : Bool :=
  match rs with
  | [] => false
  | r :: rs => (canRead writer r).isOk || anyReads writer rs
termination_by sizeOf writer + sizeOf rs

def fieldsRead (ws rs : List (FieldHead × Schema)) : Verdict :=
  match rs with
  | [] => .ok ()
  | (f, r) :: rs =>
    match _found : writerField? ws f with
    | some w =>
      if (canRead w.2 r).isOk then fieldsRead ws rs else .error (.fieldType f.name)
    | none => if f.default.isSome then fieldsRead ws rs else .error (.missingDefault f.name)
termination_by sizeOf ws + sizeOf rs
decreasing_by
  · exact sizeOf_add_lt (sizeOf_of_writerField? _found) f r rs
  · exact Nat.add_lt_add_left (sizeOf_lt_sizeOf_cons (f, r) rs) (sizeOf ws)
  · exact Nat.add_lt_add_left (sizeOf_lt_sizeOf_cons (f, r) rs) (sizeOf ws)

end

end SchemaEvolution.Avro
