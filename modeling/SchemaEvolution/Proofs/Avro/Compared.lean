import SchemaEvolution.Avro.Resolution

/-!
What a comparison reads of Avro schemas. Attributes, the digits of decimals, the
defaults of enums and the values of field defaults are not among it.
-/

namespace SchemaEvolution.Avro

def FieldHead.compared (f : FieldHead) : FieldHead where
  name := f.name
  aliases := f.aliases
  default := f.default.map fun _ => .null
  attributes := []

mutual

/-- The schema without what no comparison reads. -/
def Schema.compared : Schema → Schema
  | .plain k => .plain k
  | .decimal .. => .decimal 0 0 (.plain .bytes)
  | .fixed name size _ => .fixed name size ∅
  | .enum name symbols _ _ => .enum name symbols none ∅
  | .array items _ => .array items.compared ∅
  | .map values _ => .map values.compared ∅
  | .union members => .union (comparedMembers members)
  | .record name fields _ => .record name (comparedFields fields) ∅
  | .ref name => .ref name

def comparedMembers : List Schema → List Schema
  | [] => []
  | s :: ss => s.compared :: comparedMembers ss

def comparedFields : List (FieldHead × Schema) → List (FieldHead × Schema)
  | [] => []
  | (f, s) :: fs => (f.compared, s.compared) :: comparedFields fs

end

theorem comparedFields_eq_map (fields : List (FieldHead × Schema)) :
    comparedFields fields = fields.map fun f => (f.1.compared, f.2.compared) := by
  induction fields with
  | nil => rfl
  | cons f fs ih => rw [comparedFields, ih, List.map_cons]

@[simp] theorem fieldNamed?_compared (fields : List (FieldHead × Schema)) (name : String) :
    fieldNamed? (comparedFields fields) name =
      (fieldNamed? fields name).map fun f => (f.1.compared, f.2.compared) := by
  rw [comparedFields_eq_map, fieldNamed?, fieldNamed?, ← List.map_reverse, List.find?_map,
    Option.filter_map]
  rfl

@[simp] theorem writerField?_compared (fields : List (FieldHead × Schema)) (f : FieldHead) :
    writerField? (comparedFields fields) f.compared =
      (writerField? fields f).map fun w => (w.1.compared, w.2.compared) := by
  rw [writerField?, writerField?, List.map_findSome?]
  exact congrArg (List.findSome? · (f.name :: f.aliases)) (funext (fieldNamed?_compared fields))

theorem shapesFit_compared (w r : Schema) : shapesFit w.compared r.compared = shapesFit w r := by
  cases w with
  | map w _ =>
    cases r with
    | map r _ => exact shapesFit_compared w r
    | _ => rfl
  | array w _ =>
    cases r with
    | array r _ => exact shapesFit_compared w r
    | _ => rfl
  | _ => cases r <;> rfl

@[simp] theorem fieldsRead_nil (ws : List (FieldHead × Schema)) : fieldsRead ws [] = .ok () := by
  rw [fieldsRead]

@[simp] theorem fieldsRead_cons (ws rs : List (FieldHead × Schema)) (f : FieldHead) (r : Schema) :
    fieldsRead ws ((f, r) :: rs) =
      match writerField? ws f with
      | some w => if (canRead w.2 r).isOk then fieldsRead ws rs else .error (.fieldType f.name)
      | none => if f.default.isSome then fieldsRead ws rs else .error (.missingDefault f.name) := by
  rw [fieldsRead]
  split
  next h => rw [h]
  next h => rw [h]

theorem canRead_of_shapesFit {w r : Schema} {m : Mismatch} (h : shapesFit w r = .error m) :
    canRead w r = .error m := by
  rw [canRead.eq_def, h]
  rfl

@[simp] theorem canRead_record {w r : String} (h : simpleName w = simpleName r)
    (ws rs : List (FieldHead × Schema)) (a b : Attributes) :
    canRead (.record w ws a) (.record r rs b) = fieldsRead ws rs := by
  rw [canRead, shapesFit, sameName, require, decide_eq_true h]
  rfl

@[simp] theorem canRead_fixed (w r : String) (n m : Nat) (a b : Attributes) :
    canRead (.fixed w n a) (.fixed r m b) =
      require (simpleName w = simpleName r && n = m) .fixed := by
  rw [canRead.eq_def, shapesFit]
  cases require (simpleName w = simpleName r && n = m) .fixed with
  | ok => rfl
  | error => rfl

theorem canRead_plain (w r : Kind) :
    canRead (.plain w) (.plain r) =
      (shapesFit (.plain w) (.plain r) >>= fun _ => require r.isLeaf .unknownWriter) := by
  rw [canRead.eq_def]
  rfl

@[simp] theorem canRead_ref (w r : String) :
    canRead (.ref w) (.ref r) = require (w = r) (.names w r) := by
  rw [canRead.eq_def, shapesFit]
  cases require (w = r) (.names w r) with
  | ok => rfl
  | error => rfl

@[simp] theorem canRead_int : canRead (.plain .int) (.plain .int) = .ok () := by
  rw [canRead_plain]
  rfl

mutual

theorem canRead_compared (w r : Schema) : canRead w.compared r.compared = canRead w r := by
  rw [canRead.eq_def, canRead.eq_def w, shapesFit_compared]
  refine congrArg (shapesFit w r >>= ·) (funext ?_)
  intro _
  cases r with
  | union rs =>
    have hany := congrArg (require · .unionMembers) (anyReads_compared w rs)
    cases w with
    | union ws => exact congrArg (require · .unionMembers) (allRead_compared ws (.union rs))
    | _ => exact hany
  | record _ rs _ =>
    cases w with
    | record _ ws _ => exact fieldsRead_compared ws rs
    | _ => rfl
  | map r _ =>
    cases w with
    | map w _ => exact canRead_compared w r
    | _ => rfl
  | array r _ =>
    cases w with
    | array w _ => exact canRead_compared w r
    | _ => rfl
  | enum => cases w <;> rfl
  | plain | decimal | fixed | ref =>
    cases w with
    | union ws =>
      -- a union of one member is read as this member
      match ws with
      | [] => rfl
      | [w] => exact canRead_compared w _
      | _ :: _ :: _ => rfl
    | _ => rfl
termination_by sizeOf w + sizeOf r

@[simp] theorem allRead_compared (ws : List Schema) (r : Schema) :
    allRead (comparedMembers ws) r.compared = allRead ws r := by
  match ws with
  | [] => rw [comparedMembers, allRead, allRead]
  | w :: ws =>
    rw [comparedMembers, allRead, allRead, canRead_compared w r, allRead_compared ws r]
termination_by sizeOf ws + sizeOf r

@[simp] theorem anyReads_compared (w : Schema) (rs : List Schema) :
    anyReads w.compared (comparedMembers rs) = anyReads w rs := by
  match rs with
  | [] => rw [comparedMembers, anyReads, anyReads]
  | r :: rs =>
    rw [comparedMembers, anyReads, anyReads, canRead_compared w r, anyReads_compared w rs]
termination_by sizeOf w + sizeOf rs

@[simp] theorem fieldsRead_compared (ws rs : List (FieldHead × Schema)) :
    fieldsRead (comparedFields ws) (comparedFields rs) = fieldsRead ws rs := by
  match rs with
  | [] => rw [comparedFields, fieldsRead_nil, fieldsRead_nil]
  | (f, r) :: rs =>
    rw [comparedFields, fieldsRead_cons, fieldsRead_cons, writerField?_compared,
      fieldsRead_compared ws rs]
    cases hw : writerField? ws f with
    | none => simp [FieldHead.compared]
    | some w =>
      have := sizeOf_of_writerField? hw
      simp [FieldHead.compared, canRead_compared w.2 r]
termination_by sizeOf ws + sizeOf rs

end

end SchemaEvolution.Avro
