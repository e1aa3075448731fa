import SchemaEvolution.Proofs.Protobuf.Record
import SchemaEvolution.Proofs.Protobuf.Resolved

/-!
Descriptors of linked types. A message is what its descriptor says, and so is all that is declared in
it; only whether a group is a message or an enum is up to the rest of the set. So types that share a
name and a descriptor are alike, whatever sets they come from.
-/

namespace SchemaEvolution.Protobuf

namespace MessageDecl

def ofRecord (r : Record) : MessageDecl := ofFields r r

theorem ofFields_eq (all : Record) (fields : List (Nat × List Value)) : ofFields all fields = {
    name := all.text 1
    fields := (all.records 2).map FieldDecl.ofRecord
    nested := fields.flatMap fun e => if e.1 = 3 then ofValues e.2 else []
    enums := (all.records 4).map EnumDecl.ofRecord
    extensionRanges := (all.records 5).map DeclaredRange.ofRecord
    extensions := (all.records 6).map FieldDecl.ofRecord
    oneofs := (all.records 8).map (·.text 1)
    reservedRanges := (all.records 9).map DeclaredRange.ofRecord
    reservedNames := all.texts 10
    record := all } := by
  induction fields with
  | nil => rw [ofFields, List.flatMap_nil]
  | cons e fields ih =>
    obtain ⟨n, vs⟩ := e
    rw [ofFields, ih, List.flatMap_cons]
    by_cases h : n = 3 <;> simp [h]

theorem ofValues_eq (vs : List Value) :
    ofValues vs = (vs.filterMap Value.asRecord?).map ofRecord := by
  induction vs with
  | nil => simp [ofValues]
  | cons v vs ih =>
    cases v <;> simp [ofValues, List.filterMap_cons, Value.asRecord?, ofRecord, ih]

section OfRecord

variable (r : Record)

@[simp] theorem ofRecord_name : (ofRecord r).name = r.text 1 := by rw [ofRecord, ofFields_eq]

@[simp] theorem ofRecord_fields :
    (ofRecord r).fields = (r.records 2).map FieldDecl.ofRecord := by rw [ofRecord, ofFields_eq]

@[simp] theorem ofRecord_enums :
    (ofRecord r).enums = (r.records 4).map EnumDecl.ofRecord := by rw [ofRecord, ofFields_eq]

@[simp] theorem ofRecord_reservedRanges :
    (ofRecord r).reservedRanges = (r.records 9).map DeclaredRange.ofRecord := by
  rw [ofRecord, ofFields_eq]

@[simp] theorem ofRecord_reservedNames : (ofRecord r).reservedNames = r.texts 10 := by
  rw [ofRecord, ofFields_eq]

@[simp] theorem ofRecord_record : (ofRecord r).record = r := by rw [ofRecord, ofFields_eq]

theorem ofRecord_nested : (ofRecord r).nested =
    (r.flatMap fun e => if e.1 = 3 then e.2.filterMap Value.asRecord? else []).map ofRecord := by
  rw [ofRecord, ofFields_eq, List.map_flatMap]
  refine congrArg (List.flatMap · r) (funext ?_)
  intro e
  split
  · exact ofValues_eq e.2
  · rfl

theorem ofRecord_eq : ofRecord r = {
    name := r.text 1
    fields := (r.records 2).map FieldDecl.ofRecord
    nested := (r.flatMap fun e =>
      if e.1 = 3 then e.2.filterMap Value.asRecord? else []).map ofRecord
    enums := (r.records 4).map EnumDecl.ofRecord
    extensionRanges := (r.records 5).map DeclaredRange.ofRecord
    extensions := (r.records 6).map FieldDecl.ofRecord
    oneofs := (r.records 8).map (·.text 1)
    reservedRanges := (r.records 9).map DeclaredRange.ofRecord
    reservedNames := r.texts 10
    record := r } := by
  rw [← ofRecord_nested, ofRecord, ofFields_eq]

theorem eq_ofRecord_of_mem_nested {d : MessageDecl} (h : d ∈ (ofRecord r).nested) :
    d = ofRecord d.record := by
  rw [ofRecord_nested] at h
  obtain ⟨s, -, rfl⟩ := List.mem_map.1 h
  rw [ofRecord_record]

theorem records_eq_nil_of_nested (h : (ofRecord r).nested = []) : r.records 3 = [] := by
  rw [ofRecord_nested, List.map_eq_nil_iff, List.flatMap_eq_nil_iff] at h
  rw [Record.records, Record.values]
  cases hr : r.lookup 3 with
  | none => rfl
  | some vs => exact (if_pos rfl).symm.trans (h (3, vs) (Names.mem_of_lookup_eq_some hr))

end OfRecord

mutual

theorem eq_ofRecord_of_mem_placed (scope : String) (m : MessageDecl) (hm : m = ofRecord m.record)
    {x : String × MessageDecl} (h : x ∈ m.placed scope) : x.2 = ofRecord x.2.record := by
  cases m with
  | mk name fields nested =>
    rw [placed, List.mem_cons] at h
    obtain rfl | h := h
    · exact hm
    · refine eq_ofRecord_of_mem_placedAll (qualify scope name) nested (?_) h
      intro d hd
      have hnested : nested = _ := congrArg MessageDecl.nested hm
      exact eq_ofRecord_of_mem_nested _ (hnested ▸ hd)

theorem eq_ofRecord_of_mem_placedAll (scope : String) (ms : List MessageDecl)
    (hms : ∀ m ∈ ms, m = ofRecord m.record) {x : String × MessageDecl}
    (h : x ∈ placedAll scope ms) : x.2 = ofRecord x.2.record := by
  match ms with
  | [] => cases h
  | m :: ms =>
    rw [placedAll, List.mem_append] at h
    obtain h | h := h
    · exact eq_ofRecord_of_mem_placed scope m (hms m (.head ms)) h
    · exact eq_ofRecord_of_mem_placedAll scope ms (fun d hd => hms d (.tail m hd)) h

end

end MessageDecl

theorem FileDecl.eq_ofRecord_of_mem_placed {r : Record} {x : String × MessageDecl}
    (h : x ∈ (FileDecl.ofRecord r).placed) : x.2 = .ofRecord x.2.record := by
  refine MessageDecl.eq_ofRecord_of_mem_placedAll _ _ (?_) h
  intro m hm
  rw [FileDecl.ofRecord, MessageDecl.ofValues_eq] at hm
  obtain ⟨s, -, rfl⟩ := List.mem_map.1 hm
  rw [MessageDecl.ofRecord_record]

section Linking

variable {t : Table} {scope : String}

theorem FieldDecl.values_linkedRecord {f : FieldDecl} {k : Kind} (hk : f.kind? t scope = some k)
    {n : Nat} (hn : n ≠ 2) : (f.linkedRecord t scope).values n =
      if n = 10 then [.text f.jsonName]
      else match k.reference? with
        | none => f.record.values n
        | some name =>
          if n = 5 then [.number (f.linkedType k)]
          else if n = 6 then [.text ("." ++ name)] else f.record.values n := by
  have hextendee : ∀ v, (if f.extendee = "" then f.record else f.record.put 2 v).values n =
      f.record.values n := by
    intro v
    split
    · rfl
    · rw [Record.values_put, if_neg hn]
  cases hd : t.resolve? [.message] scope f.extendee <;> cases hr : k.reference? <;>
    simp [linkedRecord, hk, hd, hr, hextendee]

def Field.read (scope : String) (kind : Kind) (r : Record) : Field where
  name := r.text 1
  fullName := qualify scope (r.text 1)
  number := r.number 3
  cardinality := .ofLabel (r.number 4)
  kind
  jsonName := r.text 10
  type := r.number 5
  typeName := r.text 6
  deprecated := ((r.record? 8).map (·.flag 3)).getD false

theorem FieldDecl.typeName_of_kind?_scalar {f : FieldDecl} {k : Kind}
    (hk : f.kind? t scope = some k) (hr : k.reference? = none) : f.typeName = "" := by
  by_contra hname
  rw [kind?, if_pos hname] at hk
  obtain ⟨d, -, rfl⟩ := Option.map_eq_some_iff.1 hk
  unfold Kind.ofDefinition at hr
  split at hr <;> cases hr

theorem Field.link_eq_read {r : Record} {k : Kind}
    (hk : (FieldDecl.ofRecord r).kind? t scope = some k) :
    Field.link t scope (.ofRecord r) =
      .read scope k ((FieldDecl.ofRecord r).linkedRecord t scope) := by
  generalize hR : (FieldDecl.ofRecord r).linkedRecord t scope = R
  have hvalues : ∀ n, n ≠ 2 → R.values n = _ := fun n hn => hR ▸ FieldDecl.values_linkedRecord hk hn
  have hkept : ∀ n, n ∉ [2, 5, 6, 10] → R.values n = r.values n := by
    intro n hn
    simp only [List.mem_cons, List.not_mem_nil, or_false, not_or] at hn
    rw [hvalues n hn.1, if_neg hn.2.2.2]
    cases k.reference? with
    | none => rfl
    | some name => exact (if_neg hn.2.1).trans (if_neg hn.2.2.1)
  have hjson : R.text 10 = (FieldDecl.ofRecord r).jsonName := by
    simp [Record.text, Record.text?, hvalues, Value.asText?]
  have htype : R.number 5 = (FieldDecl.ofRecord r).linkedType k := by
    rw [Record.number, Record.number?, hvalues 5 (by decide), if_neg (by decide)]
    cases k with
    | scalar k => rfl
    | message n | enum n => rfl
  have hname : R.text 6 = (k.reference?.map ("." ++ ·)).getD "" := by
    rw [Record.text, Record.text?, hvalues 6 (by decide), if_neg (by decide)]
    cases hr : k.reference? with
    | none => exact FieldDecl.typeName_of_kind?_scalar hk hr
    | some n => rfl
  simp only [link, hk, Option.getD_some, read, hjson, htype, hname]
  simp only [Record.text, Record.text?, Record.number, Record.number?, Record.record?,
    hkept 1 (by decide), hkept 3 (by decide), hkept 4 (by decide), hkept 8 (by decide)]
  rfl

/-- The kinds that go with a declared type and the name of a type. A group is a message or an enum. -/
def Kind.DeclaredAs (type : Int) (typeName : String) : Kind → Prop
  | .scalar k => typeName = "" ∧ type ∉ [groupType, messageType, enumType] ∧
      k = (ScalarKind.numbered.lookup type).getD .double
  | .message n => typeName = "." ++ n ∧ (type = messageType ∨ type = groupType)
  | .enum n => typeName = "." ++ n ∧ (type = enumType ∨ type = groupType)

theorem Field.declaredAs_link {f : FieldDecl} {k : Kind} (hk : f.kind? t scope = some k) :
    k.DeclaredAs (Field.link t scope f).type (Field.link t scope f).typeName := by
  have hlink : (Field.link t scope f).kind = k := by simp only [link, hk, Option.getD_some]
  have hdescribes := Field.describes_link t scope f
  simp only [Describes, hlink] at hdescribes
  cases k with
  | message n => exact hdescribes
  | enum n => exact hdescribes
  | scalar k =>
    refine ⟨hdescribes, ?_⟩
    have hname := FieldDecl.typeName_of_kind?_scalar hk rfl
    simp only [FieldDecl.kind?, hname, ne_eq, not_true_eq_false, if_false] at hk
    split at hk
    · cases hk
    next hsort =>
      cases hk
      simp only [link, FieldDecl.kind?, hname, ne_eq, not_true_eq_false, if_false, if_neg hsort,
        Option.getD_some, FieldDecl.linkedType]
      exact ⟨by simpa using hsort, trivial⟩

variable {fields extensions : List FieldDecl} {nested : List Record} {record : Record}

@[simp] theorem values_ite_alter (rs : List Record) (r : Record) (n m : Nat) :
    (if rs.isEmpty then r else r.alter (fun _ => rs.map .record) n).values m =
      if m = n ∧ rs ≠ [] then rs.map .record else r.values m := by
  cases rs with
  | nil => simp
  | cons s rs => simp [Record.values_alter_const]

theorem records_ite_alter (rs : List Record) (r : Record) (n m : Nat) :
    (if rs.isEmpty then r else r.alter (fun _ => rs.map .record) n).records m =
      if m = n ∧ rs ≠ [] then rs else r.records m := by
  rw [Record.records, values_ite_alter]
  split
  · rw [List.filterMap_map]
    exact List.filterMap_some
  · rfl

/-- Linking changes nothing of a message but its fields, its extensions and the messages in it. -/
theorem values_linkedDescriptor {n : Nat} (hn : n ∉ [2, 3, 6]) :
    (linkedDescriptor t scope fields extensions nested record).values n = record.values n := by
  simp only [List.mem_cons, List.not_mem_nil, or_false, not_or] at hn
  simp only [linkedDescriptor, values_ite_alter, hn, false_and, if_false]

theorem fields_linkedDescriptor (h : fields = [] → record.records 2 = []) :
    (linkedDescriptor t scope fields extensions nested record).records 2 =
      fields.map (·.linkedRecord t scope) := by
  simp only [linkedDescriptor, records_ite_alter, ne_eq, List.map_eq_nil_iff, true_and]
  split
  · rfl
  next hfields =>
    rw [not_not.1 hfields]
    exact h (not_not.1 hfields)

theorem nested_linkedDescriptor (h : nested = [] → record.records 3 = []) :
    (linkedDescriptor t scope fields extensions nested record).records 3 = nested := by
  simp only [linkedDescriptor, records_ite_alter, ne_eq, true_and, Nat.reduceEqDiff, false_and,
    if_false]
  split
  · rfl
  next hnested =>
    rw [not_not.1 hnested]
    exact h (not_not.1 hnested)

end Linking

@[simp] theorem Message.link_children (t : Table) (scope : String) (m : MessageDecl) :
    (Message.link t scope m).children = linkAll t (qualify scope m.name) m.nested := by
  cases m; rfl

@[simp] theorem Message.link_reservedRanges (t : Table) (scope : String) (m : MessageDecl) :
    (Message.link t scope m).reservedRanges = m.reservedRanges := by
  cases m; rfl

@[simp] theorem Message.link_reservedNames (t : Table) (scope : String) (m : MessageDecl) :
    (Message.link t scope m).reservedNames = m.reservedNames := by
  cases m; rfl

theorem Message.link_descriptor (t : Table) (scope : String) (m : MessageDecl) :
    (Message.link t scope m).descriptor =
      linkedDescriptor t (qualify scope m.name) m.fields m.extensions
        ((Message.link t scope m).children.map (·.descriptor)) m.record := by
  cases m; rfl

theorem linkAll_eq_map (t : Table) (scope : String) (ms : List MessageDecl) :
    linkAll t scope ms = ms.map (Message.link t scope) := by
  induction ms with
  | nil => rfl
  | cons m ms ih => rw [linkAll, ih, List.map_cons]

structure Message.Described (m : Message) : Prop where
  enums : m.enums = (m.descriptor.records 4).map fun r => .link m.fullName (.ofRecord r)
  reservedRanges : m.reservedRanges = (m.descriptor.records 9).map .ofRecord
  reservedNames : m.reservedNames = m.descriptor.texts 10
  children : m.children.map (·.descriptor) = m.descriptor.records 3
  childNames : ∀ c ∈ m.children, c.fullName = qualify m.fullName (c.descriptor.text 1)
  fields : ∀ f ∈ m.fields, ∃ r ∈ m.descriptor.records 2, f = .read m.fullName f.kind r
  mem_fields : ∀ r ∈ m.descriptor.records 2, ∃ k, .read m.fullName k r ∈ m.fields

section Described

variable {t : Table} {scope : String} {r : Record}

theorem Message.values_descriptor_link {n : Nat} (hn : n ∉ [2, 3, 6]) :
    (Message.link t scope (.ofRecord r)).descriptor.values n = r.values n := by
  simp [link_descriptor, values_linkedDescriptor hn]

theorem Message.fields_descriptor_link :
    (Message.link t scope (.ofRecord r)).descriptor.records 2 =
      ((r.records 2).map .ofRecord).map
        (FieldDecl.linkedRecord t (qualify scope (r.text 1))) := by
  rw [link_descriptor, fields_linkedDescriptor, MessageDecl.ofRecord_fields,
    MessageDecl.ofRecord_name]
  intro h
  rwa [MessageDecl.ofRecord_fields, List.map_eq_nil_iff, ← MessageDecl.ofRecord_record r] at h

theorem Message.children_descriptor_link :
    (Message.link t scope (.ofRecord r)).descriptor.records 3 =
      (Message.link t scope (.ofRecord r)).children.map (·.descriptor) := by
  rw [link_descriptor, nested_linkedDescriptor]
  intro h
  rw [List.map_eq_nil_iff, link_children, linkAll_eq_map, List.map_eq_nil_iff] at h
  rw [MessageDecl.ofRecord_record]
  exact MessageDecl.records_eq_nil_of_nested r h

theorem Message.described_link (hk : ∀ f ∈ (MessageDecl.ofRecord r).fields,
    (f.kind? t (qualify scope (r.text 1))).isSome) :
    (Message.link t scope (.ofRecord r)).Described := by
  have hread : ∀ s ∈ r.records 2, ∃ k, Field.link t (qualify scope (r.text 1)) (.ofRecord s) =
      .read (qualify scope (r.text 1)) k
        ((FieldDecl.ofRecord s).linkedRecord t (qualify scope (r.text 1))) := by
    intro s hs
    have hmem : FieldDecl.ofRecord s ∈ (MessageDecl.ofRecord r).fields := by
      rw [MessageDecl.ofRecord_fields]
      exact List.mem_map_of_mem hs
    obtain ⟨k, hk⟩ := Option.isSome_iff_exists.1 (hk _ hmem)
    exact ⟨k, Field.link_eq_read hk⟩
  constructor
  case enums =>
    rw [link_enums, Record.records, values_descriptor_link (by decide), link_fullName,
      MessageDecl.ofRecord_enums, List.map_map]
    rfl
  case reservedRanges =>
    rw [link_reservedRanges, Record.records, values_descriptor_link (by decide),
      MessageDecl.ofRecord_reservedRanges]
    rfl
  case reservedNames =>
    rw [link_reservedNames, Record.texts, values_descriptor_link (by decide),
      MessageDecl.ofRecord_reservedNames]
    rfl
  case children => exact children_descriptor_link.symm
  case childNames =>
    intro c hc
    rw [link_children, linkAll_eq_map] at hc
    obtain ⟨d, hd, rfl⟩ := List.mem_map.1 hc
    rw [MessageDecl.eq_ofRecord_of_mem_nested r hd, link_fullName, link_fullName, Record.text,
      Record.text?, values_descriptor_link (by decide), MessageDecl.ofRecord_name,
      MessageDecl.ofRecord_name]
    rfl
  case fields =>
    intro f hf
    rw [link_fields, sortFields, List.mem_mergeSort, MessageDecl.ofRecord_name,
      MessageDecl.ofRecord_fields, List.map_map] at hf
    obtain ⟨s, hs, rfl⟩ := List.mem_map.1 hf
    obtain ⟨k, hk⟩ := hread s hs
    rw [fields_descriptor_link, List.map_map, link_fullName, MessageDecl.ofRecord_name]
    refine ⟨_, List.mem_map_of_mem hs, ?_⟩
    simp only [Function.comp_apply, hk]
    rfl
  case mem_fields =>
    intro d hd
    rw [fields_descriptor_link, List.map_map] at hd
    obtain ⟨s, hs, rfl⟩ := List.mem_map.1 hd
    obtain ⟨k, hk⟩ := hread s hs
    refine ⟨k, ?_⟩
    rw [link_fields, sortFields, List.mem_mergeSort, link_fullName, MessageDecl.ofRecord_name,
      MessageDecl.ofRecord_fields, List.map_map]
    exact List.mem_map.2 ⟨s, hs, hk⟩

end Described

theorem kind?_isSome_of_placed {files : List FileDecl} (h : defectsOf files = []) {f : FileDecl}
    (hf : f ∈ files) {x : String × MessageDecl} (hx : x ∈ f.placed) {d : FieldDecl}
    (hd : d ∈ x.2.fields) : (d.kind? (tableOf files f) (qualify x.1 x.2.name)).isSome := by
  have hown := ownDefects_eq_nil h hf hx
  simp only [MessageDecl.ownDefects, List.append_eq_nil_iff, List.flatMap_eq_nil_iff] at hown
  have htype := (hown.1.1.1.1.1 d hd).1
  unfold FieldDecl.typeDefects at htype
  split at htype
  · cases htype
  next k hk => exact hk ▸ rfl

namespace Registry

/-- All types are what their descriptors say. -/
structure Described (r : Registry) : Prop where
  messages : ∀ m ∈ r.allMessages, m.Described
  kinds : ∀ m ∈ r.allMessages, ∀ f ∈ m.fields, f.kind.DeclaredAs f.type f.typeName
  enums : ∀ e ∈ r.allEnums, ∃ scope, e = .link scope (.ofRecord e.descriptor)

theorem exists_record_of_mem_allMessages {rs : List Record} {r : Registry} (h : ofRecords rs = .ok r)
    {m : Message} (hm : m ∈ r.allMessages) : ∃ t scope d, m = Message.link t scope (.ofRecord d) ∧
      ∀ f ∈ (MessageDecl.ofRecord d).fields, (f.kind? t (qualify scope (d.text 1))).isSome := by
  obtain ⟨-, hdefects, -⟩ := ofRecords_eq_ok_iff.1 h
  obtain ⟨f, hf, ⟨scope, d⟩, hx, rfl⟩ := exists_link_of_mem_allMessages h hm
  obtain ⟨s, -, rfl⟩ := List.mem_map.1 hf
  have hread : d = .ofRecord d.record := FileDecl.eq_ofRecord_of_mem_placed hx
  refine ⟨_, scope, d.record, congrArg _ hread, ?_⟩
  intro g hg
  rw [← hread] at hg
  rw [← MessageDecl.ofRecord_name, ← hread]
  exact kind?_isSome_of_placed hdefects hf hx hg

theorem described_of_ofRecords {rs : List Record} {r : Registry} (h : ofRecords rs = .ok r) :
    r.Described := by
  have hmessages : ∀ m ∈ r.allMessages, m.Described := by
    intro m hm
    obtain ⟨t, scope, d, rfl, hkinds⟩ := exists_record_of_mem_allMessages h hm
    exact Message.described_link hkinds
  constructor
  case messages => exact hmessages
  case kinds =>
    intro m hm f hf
    obtain ⟨t, scope, d, rfl, hkinds⟩ := exists_record_of_mem_allMessages h hm
    rw [Message.link_fields, sortFields, List.mem_mergeSort, MessageDecl.ofRecord_name] at hf
    obtain ⟨g, hg, rfl⟩ := List.mem_map.1 hf
    obtain ⟨k, hk⟩ := Option.isSome_iff_exists.1 (hkinds g hg)
    have hkind : (Field.link t (qualify scope (d.text 1)) g).kind = k := by
      simp only [Field.link, hk, Option.getD_some]
    exact hkind ▸ Field.declaredAs_link hk
  case enums =>
    intro e he
    obtain ⟨f, hf, hef⟩ := mem_allEnums.1 he
    rw [File.allEnums, List.mem_append, List.mem_flatMap] at hef
    obtain hef | ⟨m, hm, hem⟩ := hef
    · obtain ⟨-, -, rfl⟩ := ofRecords_eq_ok_iff.1 h
      obtain ⟨s, -, rfl⟩ := List.mem_map.1 hf
      obtain ⟨d, hd, rfl⟩ := List.mem_map.1 hef
      obtain ⟨c, -, rfl⟩ := List.mem_map.1 hd
      exact ⟨_, rfl⟩
    · rw [(hmessages m (mem_allMessages.2 ⟨f, hf, hm⟩)).enums] at hem
      obtain ⟨c, -, rfl⟩ := List.mem_map.1 hem
      exact ⟨_, rfl⟩

theorem described_of_parse {bytes : List UInt8} {r : Registry} (h : parse bytes = .ok r) :
    r.Described := by
  obtain ⟨set, -, hr⟩ := parse_eq_ok_iff.1 h
  exact described_of_ofRecords hr

end Registry

namespace Kind.DeclaredAs

variable {type : Int} {typeName typeName' : String} {k l : Kind}

theorem typeName_eq (h : k.DeclaredAs type typeName) {n : String} (hn : k.reference? = some n) :
    typeName = "." ++ n := by
  cases k with
  | scalar k => cases hn
  | message m | enum m => exact Option.some.inj hn ▸ h.1

theorem name_eq_or_group (hk : k.DeclaredAs type typeName) (hl : l.DeclaredAs type typeName') :
    k.name = l.name ∨ type = groupType ∧
      ∃ m n, (k = .message m ∧ l = .enum n) ∨ (k = .enum m ∧ l = .message n) := by
  cases k with
  | scalar k =>
    have htype := hk.2.1
    cases l with
    | scalar l => exact .inl (congrArg ScalarKind.name (hk.2.2.trans hl.2.2.symm))
    | message n => obtain ⟨-, rfl | rfl⟩ := hl <;> exact absurd htype (by decide)
    | enum n => obtain ⟨-, rfl | rfl⟩ := hl <;> exact absurd htype (by decide)
  | message m =>
    cases l with
    | scalar l =>
      have htype := hl.2.1
      obtain ⟨-, rfl | rfl⟩ := hk <;> exact absurd htype (by decide)
    | message n => exact .inl rfl
    | enum n =>
      obtain ⟨-, rfl | rfl⟩ := hk
      · exact absurd hl.2 (by decide)
      · exact .inr ⟨rfl, m, n, .inl ⟨rfl, rfl⟩⟩
  | enum m =>
    cases l with
    | scalar l =>
      have htype := hl.2.1
      obtain ⟨-, rfl | rfl⟩ := hk <;> exact absurd htype (by decide)
    | enum n => exact .inl rfl
    | message n =>
      obtain ⟨-, rfl | rfl⟩ := hk
      · exact absurd hl.2 (by decide)
      · exact .inr ⟨rfl, m, n, .inr ⟨rfl, rfl⟩⟩

theorem reference_eq (hk : k.DeclaredAs type typeName) (hl : l.DeclaredAs type typeName)
    {m n : String} (hm : k.reference? = some m) (hn : l.reference? = some n) : m = n :=
  (String.append_right_inj ".").1 ((hk.typeName_eq hm).symm.trans (hl.typeName_eq hn))

theorem eq_or_group (hk : k.DeclaredAs type typeName) (hl : l.DeclaredAs type typeName) :
    k = l ∨ type = groupType ∧
      ∃ n, (k = .message n ∧ l = .enum n) ∨ (k = .enum n ∧ l = .message n) := by
  obtain hname | ⟨htype, m, n, h⟩ := hk.name_eq_or_group hl
  · exact .inl (eq_of_name_of_reference hname fun m n hm hn => hk.reference_eq hl hm hn)
  · obtain rfl : m = n := by
      obtain ⟨rfl, rfl⟩ | ⟨rfl, rfl⟩ := h <;> exact hk.reference_eq hl rfl rfl
    exact .inr ⟨htype, m, h⟩

end Kind.DeclaredAs

theorem Registry.Described.enum_eq {r s : Registry} {d e : EnumType} (hr : r.Described)
    (hs : s.Described) (hd : d ∈ r.allEnums) (he : e ∈ s.allEnums) (hname : d.fullName = e.fullName)
    (hdescriptor : d.descriptor = e.descriptor) : d = e := by
  obtain ⟨scope, hd⟩ := hr.enums d hd
  obtain ⟨scope', he⟩ := hs.enums e he
  rw [hd, he, hdescriptor] at hname ⊢
  simp only [EnumType.link] at hname ⊢
  rw [hname]

namespace Message.Described

variable {m n : Message} (hm : m.Described) (hn : n.Described) (hname : m.fullName = n.fullName)
  (hdescriptor : m.descriptor = n.descriptor)

include hm hn hdescriptor

theorem reserved_eq : Reserved.ofMessage m = .ofMessage n := by
  rw [Reserved.ofMessage, hm.reservedRanges, hm.reservedNames, hdescriptor, ← hn.reservedRanges,
    ← hn.reservedNames, Reserved.ofMessage]

include hname

theorem enums_eq : m.enums = n.enums := by
  rw [hm.enums, hn.enums, hname, hdescriptor]

theorem exists_child {c : Message} (hc : c ∈ m.children) :
    ∃ d ∈ n.children, d.fullName = c.fullName ∧ d.descriptor = c.descriptor := by
  have hmem : c.descriptor ∈ n.children.map (·.descriptor) := by
    rw [hn.children, ← hdescriptor, ← hm.children]
    exact List.mem_map_of_mem hc
  obtain ⟨d, hd, hdc⟩ := List.mem_map.1 hmem
  exact ⟨d, hd, by rw [hn.childNames d hd, hm.childNames c hc, hname, hdc], hdc⟩

theorem exists_field {f : Field} (hf : f ∈ m.fields) : ∃ k, { f with kind := k } ∈ n.fields := by
  obtain ⟨d, hd, hfd⟩ := hm.fields f hf
  obtain ⟨k, hk⟩ := hn.mem_fields d (hdescriptor ▸ hd)
  refine ⟨k, ?_⟩
  rw [hfd]
  exact hname ▸ hk

end Message.Described

end SchemaEvolution.Protobuf
