import SchemaEvolution.Proofs.Avro.Compared
import SchemaEvolution.Proofs.Avro.Document
import SchemaEvolution.Proofs.Avro.Formed
import SchemaEvolution.Proofs.Avro.Printing
import SchemaEvolution.Schema

namespace SchemaEvolution.Avro

mutual

/-- What a comparison reads of a schema and its form does not tell: the kind of each type, and of
each field its aliases and whether it has a default. All that is read of a type that the form only
names stays. -/
def Schema.unwritten : Schema → Form → Schema
  | .plain k, _ => .plain k
  | .decimal .., _ => .decimal 0 0 (.plain .bytes)
  | .fixed _ size _, f => .fixed "" (f.ifNamed size 0) ∅
  | .enum _ symbols _ _, f => .enum "" (f.ifNamed symbols []) none ∅
  | .array items _, f => .array (items.unwritten (f.part "items")) ∅
  | .map values _, f => .map (values.unwritten (f.part "values")) ∅
  | .union members, f => .union (unwrittenMembers members f.items)
  | .record _ fields _, f =>
    .record "" (f.ifNamed (comparedFields fields) (unwrittenFields fields (f.part "fields").items)) ∅
  | .ref _, _ => .ref ""

def unwrittenMembers : List Schema → List Form → List Schema
  | [], _ => []
  | s :: ss, fs => s.unwritten (fs.headD (.string "")) :: unwrittenMembers ss fs.tail

def unwrittenFields : List (FieldHead × Schema) → List Form → List (FieldHead × Schema)
  | [], _ => []
  | (head, s) :: fields, fs =>
    (if s.isWordRef then (head.compared, s.compared)
      else ({ head.compared with name := "" }, s.unwritten ((fs.headD (.string "")).part "type"))) ::
      unwrittenFields fields fs.tail

end

@[simp] theorem Schema.isWordRef_compared (s : Schema) : s.compared.isWordRef = s.isWordRef := by
  cases s <;> rfl

@[simp] theorem Schema.isWordRef_unwritten {s : Schema} (f : Form) : (s.unwritten f).isWordRef = false := by
  cases s <;> rfl

theorem FieldHead.compared_eq {f g : FieldHead} (hname : f.name = g.name)
    (h : { f.compared with name := "" } = { g.compared with name := "" }) :
    f.compared = g.compared := by
  obtain ⟨-, haliases, hdefault, -⟩ := FieldHead.mk.inj h
  exact FieldHead.mk.injEq .. ▸ ⟨hname, haliases, hdefault, rfl⟩

mutual

/-- A form and what it does not tell make up all that a comparison reads. -/
theorem compared_eq_of_hasForm {x y : Schema} {f : Form} (hx : x.HasForm f) (hy : y.HasForm f)
    (hrest : x.unwritten f = y.unwritten f) : x.compared = y.compared := by
  cases x with
  | plain k =>
    cases y with
    | plain k' => exact hrest
    | _ => cases hrest
  | decimal =>
    cases y with
    | decimal => rfl
    | _ => cases hrest
  | fixed name size attributes =>
    cases y with
    | fixed name' size' attributes' =>
      obtain ⟨rfl, rfl | hsize⟩ := hx.fixed.eq hy.fixed
      · have hsize : size = size' := (Schema.fixed.inj hrest).2.1
        rw [Schema.compared, Schema.compared, hsize]
      · obtain rfl : size = size' := Int.ofNat.inj (Form.integer.inj hsize)
        rfl
    | _ => cases hrest
  | enum name symbols default attributes =>
    cases y with
    | enum name' symbols' default' attributes' =>
      obtain ⟨rfl, rfl | hsymbols⟩ := hx.enum.eq hy.enum
      · have hsymbols : symbols = symbols' := (Schema.enum.inj hrest).2.1
        rw [Schema.compared, Schema.compared, hsymbols]
      · obtain rfl : symbols = symbols' :=
          List.map_injective_iff.2 (fun _ _ => Form.string.inj) (Form.array.inj hsymbols)
        rfl
    | _ => cases hrest
  | array items attributes =>
    cases y with
    | array items' attributes' =>
      have hitems := compared_eq_of_hasForm hx.array hy.array (Schema.array.inj hrest).1
      rw [Schema.compared, Schema.compared, hitems]
    | _ => cases hrest
  | map values attributes =>
    cases y with
    | map values' attributes' =>
      have hvalues := compared_eq_of_hasForm hx.map hy.map (Schema.map.inj hrest).1
      rw [Schema.compared, Schema.compared, hvalues]
    | _ => cases hrest
  | union members =>
    cases y with
    | union members' =>
      have hmembers := comparedMembers_eq_of_haveForms hx.union hy.union (Schema.union.inj hrest)
      rw [Schema.compared, Schema.compared, hmembers]
    | _ => cases hrest
  | record name fields attributes =>
    cases y with
    | record name' fields' attributes' =>
      have hparts := (Schema.record.inj hrest).2.1
      obtain rfl | ⟨gs, hname, hfields, hgs⟩ := hx.record
      · obtain hname' | ⟨_, hname', -⟩ := hy.record
        · obtain rfl := Form.string.inj hname'
          have hsame : comparedFields fields = comparedFields fields' := hparts
          rw [Schema.compared, Schema.compared, hsame]
        · cases hname'
      · obtain rfl | ⟨gs', hname', hfields', hgs'⟩ := hy.record
        · cases hname
        · rw [hname] at hname'
          rw [hfields] at hfields'
          cases hname'
          cases hfields'
          have hfull {part blank : List (FieldHead × Schema)} : f.ifNamed part blank = blank := by
            cases f with
            | string => cases hname
            | _ => rfl
          rw [hfull, hfull, Form.part, hfields] at hparts
          have hsame := comparedFields_eq_of_haveForms hgs hgs' hparts
          rw [Schema.compared, Schema.compared, hsame]
    | _ => cases hrest
  | ref name =>
    cases y with
    | ref name' =>
      obtain rfl := Form.string.inj (hx.ref.symm.trans hy.ref)
      rfl
    | _ => cases hrest

theorem comparedMembers_eq_of_haveForms {xs ys : List Schema} {fs : List Form}
    (hx : HaveForms (Schema.membersToJson xs) fs) (hy : HaveForms (Schema.membersToJson ys) fs)
    (hrest : unwrittenMembers xs fs = unwrittenMembers ys fs) :
    comparedMembers xs = comparedMembers ys := by
  match xs, ys with
  | [], [] => rfl
  | [], _ :: _ => cases hrest
  | _ :: _, [] => cases hrest
  | x :: xs, y :: ys =>
    obtain ⟨g, gs, w, w', rfl, hg, hgs⟩ := hx.cons
    obtain ⟨g', gs', v, v', hsame, hg', hgs'⟩ := hy.cons
    obtain ⟨rfl, rfl⟩ := List.cons.inj hsame
    obtain ⟨hhead, htail⟩ := List.cons.inj hrest
    have hcompared := compared_eq_of_hasForm ⟨w, w', hg⟩ ⟨v, v', hg'⟩ hhead
    have hcompareds := comparedMembers_eq_of_haveForms hgs hgs' htail
    rw [comparedMembers, comparedMembers, hcompared, hcompareds]

theorem comparedFields_eq_of_haveForms {xs ys : List (FieldHead × Schema)} {fs : List Form}
    (hx : HaveForms (Schema.fieldsToJson xs) fs) (hy : HaveForms (Schema.fieldsToJson ys) fs)
    (hrest : unwrittenFields xs fs = unwrittenFields ys fs) :
    comparedFields xs = comparedFields ys := by
  match xs, ys with
  | [], [] => rfl
  | [], _ :: _ => cases hrest
  | _ :: _, [] => cases hrest
  | (a, x) :: xs, (b, y) :: ys =>
    obtain ⟨g, gs, w, w', rfl, hg, hgs⟩ := hx.cons
    obtain ⟨g', gs', v, v', hsame, hg', hgs'⟩ := hy.cons
    obtain ⟨rfl, rfl⟩ := List.cons.inj hsame
    obtain ⟨hhead, htail⟩ := List.cons.inj hrest
    have hcompareds := comparedFields_eq_of_haveForms hgs hgs' htail
    have hwords := congrArg (fun field => field.2.isWordRef) hhead
    simp only [apply_ite Prod.snd, apply_ite Schema.isWordRef, Schema.isWordRef_compared,
      Schema.isWordRef_unwritten] at hwords
    cases hxword : x.isWordRef with
    | false =>
      obtain hyword : y.isWordRef = false := by simpa [hxword] using hwords
      rw [hxword, hyword] at hhead
      obtain ⟨hfield, htype⟩ := Prod.mk.inj hhead
      obtain ⟨hname, hform⟩ := hasForm_of_field hxword hg
      obtain ⟨hname', hform'⟩ := hasForm_of_field hyword hg'
      rw [hname] at hname'
      have hcompared := compared_eq_of_hasForm hform hform' htype
      have hheads := FieldHead.compared_eq (Form.string.inj (Option.some.inj hname')) hfield
      rw [comparedFields, comparedFields, hheads, hcompared, hcompareds]
    | true =>
      obtain hyword : y.isWordRef = true := by simpa [hxword] using hwords
      rw [hxword, hyword] at hhead
      obtain ⟨hheads, hcompared⟩ := Prod.mk.inj hhead
      rw [comparedFields, comparedFields, hheads, hcompared, hcompareds]

end

/-- What the canonical form leaves out of a whole document. -/
def Schema.leftOut (s : Schema) : Schema := s.unwritten s.canonicalForm

theorem hasForm_of_parse {bytes : List UInt8} {s : Schema} (h : Schema.parse bytes = .ok s) :
    s.HasForm s.canonicalForm := by
  obtain ⟨v, -, hs⟩ := exists_of_parse h
  obtain ⟨w, hrun⟩ := Schema.exists_run_canonicalForm (isSome_canonicalForm?_of_ofJson? hs)
  exact ⟨_, w, hrun⟩

theorem canonicalForm_eq_of_data_eq {x y : Schema} (hx : x.canonicalForm.Unquoted)
    (hy : y.canonicalForm.Unquoted) (h : x.schemaFile.data = y.schemaFile.data) :
    x.canonicalForm = y.canonicalForm := by
  apply Form.eq_of_text_eq hx hy
  exact Text.toUtf8_injective h

theorem canRead_eq_of_compared_eq {x y : Schema} (h : x.compared = y.compared) (z : Schema) :
    canRead x z = canRead y z ∧ canRead z x = canRead z y := by
  rw [← canRead_compared x, ← canRead_compared y, ← canRead_compared z x, ← canRead_compared z y, h]
  exact ⟨rfl, rfl⟩

theorem compare_eq_of_compared_eq {x y : Schema} (h : x.compared = y.compared) (R : RuleSet)
    (z : Schema) : compare R x z = compare R y z ∧ compare R z x = compare R z y := by
  obtain ⟨hwriter, hreader⟩ := canRead_eq_of_compared_eq h z
  simp only [compare, compareDiffs, hwriter, hreader, and_self]

def Schema.verdict (d : Direction) (current previous : Schema) : Outcome :=
  d.outcome (SchemaEvolution.Schema.avro current) (.avro previous)

@[simp] theorem verdict_backward (current previous : Schema) :
    Schema.verdict .backward current previous = (compare .backward current previous).outcome := rfl

@[simp] theorem verdict_forward (current previous : Schema) :
    Schema.verdict .forward current previous = (compare .backward previous current).outcome := rfl

@[simp] theorem verdict_full (current previous : Schema) : Schema.verdict .full current previous =
    combine [(compare .backward previous current).outcome,
      (compare .backward current previous).outcome] := rfl

theorem verdict_backward_eq_ok_iff {current previous : Schema} :
    Schema.verdict .backward current previous = .ok () ↔ canRead previous current = .ok () := by
  rw [verdict_backward, compare, compareDiffs, Report.outcome_eq_ok_iff]
  cases canRead previous current with
  | ok => exact iff_of_true rfl rfl
  | error m => exact iff_of_false (by simp [Report.of]; decide) nofun

/-- Three documents, the first two with one canonical form, of which only the first can follow the
third. -/
def Parted (x y z : Json) : Prop :=
  ∃ a b c, Schema.parse (Text.toUtf8 x.text) = .ok a ∧ Schema.parse (Text.toUtf8 y.text) = .ok b ∧
    Schema.parse (Text.toUtf8 z.text) = .ok c ∧ a.schemaFile.data = b.schemaFile.data ∧
    Schema.verdict .backward a c = .ok () ∧ Schema.verdict .backward b c ≠ .ok ()

theorem Parted.of_canRead {x y z : Json} {a b c : Schema}
    (hx : Schema.parse (Text.toUtf8 x.text) = .ok a)
    (hy : Schema.parse (Text.toUtf8 y.text) = .ok b)
    (hz : Schema.parse (Text.toUtf8 z.text) = .ok c)
    (htext : a.canonicalForm.text = b.canonicalForm.text)
    (hfollows : canRead c a = .ok ()) (hnot : canRead c b ≠ .ok ()) : Parted x y z := by
  refine ⟨a, b, c, hx, hy, hz, congrArg Text.toUtf8 htext, verdict_backward_eq_ok_iff.2 hfollows, ?_⟩
  intro h
  exact hnot (verdict_backward_eq_ok_iff.1 h)

def recordOf (fields : List Json) : Json :=
  .object [("fields", .array fields), ("name", .string "R"), ("type", .string "record")]

def fieldOf (name : String) (type : Json) : Json :=
  .object [("name", .string name), ("type", type)]

def fixedOf (size : Int) : Json :=
  .object [("name", .string "F"), ("size", .number (.integer size)), ("type", .string "fixed")]

def logicalInt (meaning : String) : Json :=
  .object [("logicalType", .string meaning), ("type", .string "int")]

def digitsOf (logical : List (String × Json)) : Json :=
  .object (logical ++ [("name", .string "F"), ("precision", .number (.integer 2)),
    ("scale", .number (.integer 0)), ("size", .number (.integer 4)), ("type", .string "fixed")])

def defaultField (default : Int) : Json :=
  .object [("default", .number (.integer default)), ("name", .string "b"), ("type", .string "int")]

def aliasField : Json :=
  .object [("aliases", .array [.string "a"]), ("name", .string "b"), ("type", .string "int")]

theorem ofJson?_int_field : Schema.ofJson? (recordOf [fieldOf "b" (.string "int")]) =
    some (.record "R" [(⟨"b", [], none, []⟩, .plain .int)] ∅) := by rfl

theorem ofJson?_default_field : Schema.ofJson? (recordOf [defaultField 0]) =
    some (.record "R" [(⟨"b", [], some (.number (.integer 0)), []⟩, .plain .int)] ∅) := by rfl

theorem ofJson?_empty_record : Schema.ofJson? (recordOf []) = some (.record "R" [] ∅) := by rfl

theorem ofJson?_date : Schema.ofJson? (logicalInt "date") = some (.plain .date) := by rfl

theorem parted_by_default :
    Parted (recordOf [defaultField 0]) (recordOf [fieldOf "b" (.string "int")]) (recordOf []) := by
  apply Parted.of_canRead (parse_text rfl rfl ofJson?_default_field)
    (parse_text rfl rfl ofJson?_int_field) (parse_text rfl rfl ofJson?_empty_record)
  · rfl
  · simp [writerField?, fieldNamed?]
  · simp [writerField?, fieldNamed?]

theorem parted_by_aliases : Parted (recordOf [aliasField])
    (recordOf [fieldOf "b" (.string "int")]) (recordOf [fieldOf "a" (.string "int")]) := by
  have hx : Schema.ofJson? (recordOf [aliasField]) = some
      (.record "R" [(⟨"b", ["a"], none, []⟩, .plain .int)] ∅) := by rfl
  have hz : Schema.ofJson? (recordOf [fieldOf "a" (.string "int")]) = some
      (.record "R" [(⟨"a", [], none, []⟩, .plain .int)] ∅) := by rfl
  apply Parted.of_canRead (parse_text rfl rfl hx) (parse_text rfl rfl ofJson?_int_field)
    (parse_text rfl rfl hz)
  · rfl
  · simp [writerField?, fieldNamed?, Option.filter_some, Except.isOk, Except.toBool]
  · simp [writerField?, fieldNamed?]

theorem parted_by_logicalType :
    Parted (logicalInt "date") (logicalInt "time-millis") (logicalInt "date") := by
  have hy : Schema.ofJson? (logicalInt "time-millis") = some (.plain .timeMillis) := by rfl
  apply Parted.of_canRead (parse_text rfl rfl ofJson?_date) (parse_text rfl rfl hy)
    (parse_text rfl rfl ofJson?_date)
  · rfl
  · rw [canRead_plain]
    rfl
  · rw [canRead_of_shapesFit rfl]
    simp

theorem parted_by_decimal :
    Parted (digitsOf []) (digitsOf [("logicalType", .string "decimal")]) (digitsOf []) := by
  have hx : Schema.ofJson? (digitsOf []) =
      some (.fixed "F" 4 (typeAttributes "size" (digitsOf []))) := by rfl
  have hy : Schema.ofJson? (digitsOf [("logicalType", .string "decimal")]) =
      some (.decimal 2 0 (.fixed "F" 4
        (typeAttributes "size" (digitsOf [("logicalType", .string "decimal")])))) := by rfl
  apply Parted.of_canRead (parse_text rfl rfl hx) (parse_text rfl rfl hy) (parse_text rfl rfl hx)
  · apply congrArg String.ofList
    decide +kernel
  · simp [require]
  · rw [canRead_of_shapesFit rfl]
    simp

theorem ofJson?_repetition :
    Schema.ofJson? (recordOf [fieldOf "a" (fixedOf 4), fieldOf "b" (fixedOf 4)]) =
      some (.record "R" [(⟨"a", [], none, []⟩, .fixed "F" 4 ∅),
        (⟨"b", [], none, []⟩, .fixed "F" 4 ∅)] ∅) := by rfl

theorem parted_by_repetition : Parted (recordOf [fieldOf "a" (fixedOf 4), fieldOf "b" (fixedOf 4)])
    (recordOf [fieldOf "a" (fixedOf 4), fieldOf "b" (fixedOf 8)])
    (recordOf [fieldOf "a" (fixedOf 4), fieldOf "b" (fixedOf 4)]) := by
  have hy : Schema.ofJson? (recordOf [fieldOf "a" (fixedOf 4), fieldOf "b" (fixedOf 8)]) =
      some (.record "R" [(⟨"a", [], none, []⟩, .fixed "F" 4 ∅),
        (⟨"b", [], none, []⟩, .fixed "F" 8 ∅)] ∅) := by rfl
  apply Parted.of_canRead (parse_text rfl rfl ofJson?_repetition) (parse_text rfl rfl hy)
    (parse_text rfl rfl ofJson?_repetition)
  · apply congrArg String.ofList
    decide +kernel
  · simp [writerField?, fieldNamed?, Option.filter_some, require, Except.isOk, Except.toBool]
  · simp [writerField?, fieldNamed?, Option.filter_some, require, Except.isOk, Except.toBool]

theorem parted_by_reference : Parted (recordOf [fieldOf "a" (fixedOf 4), fieldOf "b" (fixedOf 4)])
    (recordOf [fieldOf "a" (fixedOf 4), fieldOf "b" (.string "F")])
    (recordOf [fieldOf "a" (fixedOf 4), fieldOf "b" (fixedOf 4)]) := by
  have hy : Schema.ofJson? (recordOf [fieldOf "a" (fixedOf 4), fieldOf "b" (.string "F")]) =
      some (.record "R" [(⟨"a", [], none, []⟩, .fixed "F" 4 ∅),
        (⟨"b", [], none, []⟩, .ref "F")] ∅) := by rfl
  apply Parted.of_canRead (parse_text rfl rfl ofJson?_repetition) (parse_text rfl rfl hy)
    (parse_text rfl rfl ofJson?_repetition)
  · apply congrArg String.ofList
    decide +kernel
  · simp [writerField?, fieldNamed?, Option.filter_some, require, Except.isOk, Except.toBool]
  · have hb : canRead (.fixed "F" 4 ∅) (.ref "F") = .error _ := canRead_of_shapesFit rfl
    simp [hb, writerField?, fieldNamed?, Option.filter_some, require, Except.isOk, Except.toBool]

def itemsField (name : String) (items : Json) : Json :=
  .object [("items", items), ("name", .string name), ("type", .string "int")]

theorem parted_by_attribute :
    Parted (recordOf [itemsField "a" (fixedOf 4), fieldOf "b" (fixedOf 4)])
      (recordOf [itemsField "a" (fixedOf 4), fieldOf "b" (fixedOf 8)])
      (recordOf [itemsField "a" (fixedOf 4), fieldOf "b" (fixedOf 4)]) := by
  have hx : Schema.ofJson? (recordOf [itemsField "a" (fixedOf 4), fieldOf "b" (fixedOf 4)]) =
      some (.record "R" [(⟨"a", [], none, [("items", fixedOf 4)]⟩, .plain .int),
        (⟨"b", [], none, []⟩, .fixed "F" 4 ∅)] ∅) := by rfl
  have hy : Schema.ofJson? (recordOf [itemsField "a" (fixedOf 4), fieldOf "b" (fixedOf 8)]) =
      some (.record "R" [(⟨"a", [], none, [("items", fixedOf 4)]⟩, .plain .int),
        (⟨"b", [], none, []⟩, .fixed "F" 8 ∅)] ∅) := by rfl
  apply Parted.of_canRead (parse_text rfl rfl hx) (parse_text rfl rfl hy) (parse_text rfl rfl hx)
  · apply congrArg String.ofList
    decide +kernel
  · simp [writerField?, fieldNamed?, Option.filter_some, require, Except.isOk, Except.toBool]
  · simp [writerField?, fieldNamed?, Option.filter_some, require, Except.isOk, Except.toBool]

def fixedNamed (name : String) : Json :=
  .object [("name", .string name), ("size", .number (.integer 4)), ("type", .string "fixed")]

def wordRecord (word : String) : Json :=
  recordOf [fieldOf "a" (fixedNamed "record"), fieldOf "b" (fixedNamed "ref"),
    fieldOf "R" (.string word)]

theorem parted_by_word : Parted (wordRecord "record") (wordRecord "ref") (wordRecord "record") := by
  have hx : Schema.ofJson? (wordRecord "record") =
      some (.record "R" [(⟨"a", [], none, []⟩, .fixed "record" 4 ∅),
        (⟨"b", [], none, []⟩, .fixed "ref" 4 ∅), (⟨"R", [], none, []⟩, .ref "record")] ∅) := by rfl
  have hy : Schema.ofJson? (wordRecord "ref") =
      some (.record "R" [(⟨"a", [], none, []⟩, .fixed "record" 4 ∅),
        (⟨"b", [], none, []⟩, .fixed "ref" 4 ∅), (⟨"R", [], none, []⟩, .ref "ref")] ∅) := by rfl
  apply Parted.of_canRead (parse_text rfl rfl hx) (parse_text rfl rfl hy) (parse_text rfl rfl hx)
  · apply congrArg String.ofList
    decide +kernel
  · simp [writerField?, fieldNamed?, Option.filter_some, require, Except.isOk, Except.toBool]
  · simp [writerField?, fieldNamed?, Option.filter_some, require, Except.isOk, Except.toBool]

def openedB : Json :=
  .string "\"\x7d,\x7b\"name\":\"b\",\"type\":\"int\",\"items\":\""

def openedC : Json :=
  .string "\"\x7d,\x7b\"name\":\"c\",\"type\":\"int\",\"items\":\""

theorem parted_by_quotes :
    Parted (recordOf [itemsField "a" openedC, itemsField "b" (.string "")])
      (recordOf [itemsField "a" (.string ""), itemsField "c" openedB])
      (recordOf [itemsField "a" openedC, itemsField "b" (.string "")]) := by
  have hx : Schema.ofJson? (recordOf [itemsField "a" openedC, itemsField "b" (.string "")]) =
      some (.record "R" [(⟨"a", [], none, [("items", openedC)]⟩, .plain .int),
        (⟨"b", [], none, [("items", .string "")]⟩, .plain .int)] ∅) := by rfl
  have hy : Schema.ofJson? (recordOf [itemsField "a" (.string ""), itemsField "c" openedB]) =
      some (.record "R" [(⟨"a", [], none, [("items", .string "")]⟩, .plain .int),
        (⟨"c", [], none, [("items", openedB)]⟩, .plain .int)] ∅) := by rfl
  apply Parted.of_canRead (parse_text rfl rfl hx) (parse_text rfl rfl hy) (parse_text rfl rfl hx)
  · apply congrArg String.ofList
    decide +kernel
  · simp [writerField?, fieldNamed?, Option.filter_some, Except.isOk, Except.toBool]
  · simp [writerField?, fieldNamed?, Option.filter_some, Except.isOk, Except.toBool]

end SchemaEvolution.Avro
