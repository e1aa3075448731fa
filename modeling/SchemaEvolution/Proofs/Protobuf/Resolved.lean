import SchemaEvolution.Proofs.Protobuf.Accepted

namespace SchemaEvolution.Protobuf

namespace Table

variable {t : Table} {sorts : List Entity} {d : Definition}

theorem absolute_eq_found {name : String} (h : t.absolute sorts name = .found d) :
    d ∈ t.definitions ∧ d.name = name ∧ d.entity ∈ sorts ∧ d.file ∈ t.files := by
  unfold absolute at h
  split at h
  next e he =>
    split at h
    next hsort =>
      cases h
      exact ⟨List.mem_of_find?_eq_some he, by simpa using List.find?_some he, hsort⟩
    next => cases h
  next =>
    split at h <;> cases h

theorem absolute_of_relativeIn {name first : String} {scopes : List String}
    (h : t.relativeIn sorts name first scopes = some d) : ∃ n, t.absolute sorts n = .found d := by
  induction scopes with
  | nil => simp [relativeIn] at h
  | cons scope outer ih =>
    simp only [relativeIn] at h
    split at h
    · split at h
      next e he => cases h; exact ⟨_, he⟩
      next => exact ih h
    · split at h
      · split at h
        next e he => cases h; exact ⟨_, he⟩
        next => cases h
      · exact ih h

theorem absolute_of_resolve? {scope reference : String}
    (h : t.resolve? sorts scope reference = some d) : ∃ n, t.absolute sorts n = .found d := by
  unfold resolve? at h
  split at h
  next full _ =>
    split at h
    next e he => cases h; exact ⟨_, he⟩
    next => cases h
  next => exact absolute_of_relativeIn h

theorem mem_of_resolve? {scope reference : String}
    (h : t.resolve? sorts scope reference = some d) : d ∈ t.definitions ∧ d.entity ∈ sorts := by
  obtain ⟨n, hn⟩ := absolute_of_resolve? h
  exact ⟨(absolute_eq_found hn).1, (absolute_eq_found hn).2.2.1⟩

end Table

theorem EnumDecl.entity_of_mem_definitions {file : Nat} {scope : String} {e : EnumDecl}
    {d : Definition} (h : d ∈ e.definitions file scope) :
    d.entity = .enum ∧ d.name = qualify scope e.name ∨ d.entity = .member := by
  rw [definitions, List.mem_cons, List.mem_map] at h
  rcases h with rfl | ⟨v, -, rfl⟩
  · exact .inl ⟨rfl, rfl⟩
  · exact .inr rfl

theorem type_of_mem_definitions {file : Nat} {f : FileDecl} {d : Definition}
    (h : d ∈ f.definitions file) :
    (d.entity = .message ∧ ∃ x ∈ f.placed, d.name = qualify x.1 x.2.name) ∨
    (d.entity = .enum ∧ ((∃ e ∈ f.enums, d.name = qualify f.package e.name) ∨
      ∃ x ∈ f.placed, ∃ e ∈ x.2.enums, d.name = qualify (qualify x.1 x.2.name) e.name)) ∨
    d.entity = .member := by
  simp only [FileDecl.definitions, definitionsOfAll_eq, MessageDecl.ownDefinitions,
    ServiceDecl.definitions, List.mem_append, List.mem_flatMap, List.mem_cons, List.mem_map] at h
  obtain ((⟨x, hx, (rfl | ⟨_, _, rfl⟩) | ⟨e, he, hd⟩⟩ | ⟨e, he, hd⟩) | ⟨_, _, rfl | ⟨_, _, rfl⟩⟩) |
    ⟨_, _, rfl⟩ := h
  · exact .inl ⟨rfl, x, hx, rfl⟩
  · exact .inr (.inr rfl)
  · exact .inr ((EnumDecl.entity_of_mem_definitions hd).imp_left fun hd =>
      ⟨hd.1, .inr ⟨x, hx, e, he, hd.2⟩⟩)
  · exact .inr ((EnumDecl.entity_of_mem_definitions hd).imp_left fun hd =>
      ⟨hd.1, .inl ⟨e, he, hd.2⟩⟩)
  · exact .inr (.inr rfl)
  · exact .inr (.inr rfl)
  · exact .inr (.inr rfl)

theorem mem_of_mem_definitionsOf {files : List FileDecl} {d : Definition}
    (h : d ∈ definitionsOf files) : ∃ f ∈ files, ∃ i, d ∈ f.definitions i := by
  obtain ⟨⟨f, i⟩, hf, hd⟩ := List.mem_flatMap.1 h
  exact ⟨f, List.fst_mem_of_mem_zipIdx hf, i, hd⟩

def Kind.NamesType (r : Registry) : Kind → Prop
  | .scalar _ => True
  | .message n => ∃ m ∈ r.allMessages, m.fullName = n
  | .enum n => ∃ e ∈ r.allEnums, e.fullName = n

def Field.Describes (f : Field) : Prop :=
  match f.kind with
  | .scalar _ => f.typeName = ""
  | .message n => f.typeName = "." ++ n ∧ (f.type = messageType ∨ f.type = groupType)
  | .enum n => f.typeName = "." ++ n ∧ (f.type = enumType ∨ f.type = groupType)

theorem FieldDecl.linkedType_message (f : FieldDecl) (n : String) :
    f.linkedType (.message n) = messageType ∨ f.linkedType (.message n) = groupType := by
  rw [linkedType]
  split
  next h => exact .inr h
  next => exact .inl rfl

theorem FieldDecl.linkedType_enum (f : FieldDecl) (n : String) :
    f.linkedType (.enum n) = enumType ∨ f.linkedType (.enum n) = groupType := by
  rw [linkedType]
  split
  next h => exact .inr h
  next => exact .inl rfl

theorem Field.describes_link (t : Table) (scope : String) (f : FieldDecl) :
    (Field.link t scope f).Describes := by
  simp only [Describes, link]
  generalize (f.kind? t scope).getD (.scalar .double) = kind
  cases kind with
  | scalar k => rfl
  | message n => exact ⟨rfl, f.linkedType_message n⟩
  | enum n => exact ⟨rfl, f.linkedType_enum n⟩

theorem FieldDecl.definition_of_kind? {t : Table} {scope : String} {f : FieldDecl} {k : Kind}
    (h : f.kind? t scope = some k) (href : k.reference?.isSome) : ∃ d ∈ t.definitions,
      d.entity ∈ [Entity.message, .enum] ∧ k = Kind.ofDefinition d := by
  unfold kind? at h
  split at h
  · obtain ⟨d, hd, rfl⟩ := Option.map_eq_some_iff.1 h
    obtain ⟨hmem, hsort⟩ := Table.mem_of_resolve? hd
    exact ⟨d, hmem, hsort, rfl⟩
  · split at h
    · cases h
    · cases h
      simp [Kind.reference?] at href

namespace Registry

theorem exists_link_of_mem_allMessages {rs : List Record} {r : Registry}
    (h : ofRecords rs = .ok r) {m : Message} (hm : m ∈ r.allMessages) :
    ∃ f ∈ rs.map FileDecl.ofRecord, ∃ x ∈ f.placed,
      m = Message.link (tableOf (rs.map FileDecl.ofRecord) f) x.1 x.2 := by
  obtain ⟨-, -, rfl⟩ := ofRecords_eq_ok_iff.1 h
  simp only [mem_allMessages, List.mem_map] at hm
  obtain ⟨_, ⟨x, hx, rfl⟩, hm⟩ := hm
  rw [File.allMessages_link] at hm
  obtain ⟨y, hy, rfl⟩ := List.mem_map.1 hm
  exact ⟨_, List.mem_map_of_mem ((sortFiles_perm rs).mem_iff.1 hx), y, hy, rfl⟩

theorem mem_files_ofRecords {rs : List Record} {r : Registry} (h : ofRecords rs = .ok r)
    {f : FileDecl} (hf : f ∈ rs.map FileDecl.ofRecord) :
    File.link (rs.map FileDecl.ofRecord) f ∈ r.files := by
  obtain ⟨-, -, rfl⟩ := ofRecords_eq_ok_iff.1 h
  obtain ⟨x, hx, rfl⟩ := List.mem_map.1 hf
  exact List.mem_map.2 ⟨x, (sortFiles_perm rs).mem_iff.2 hx, rfl⟩

theorem namesType_ofDefinition {rs : List Record} {r : Registry} (h : ofRecords rs = .ok r)
    {d : Definition} (hd : d ∈ definitionsOf (rs.map FileDecl.ofRecord))
    (hsort : d.entity ∈ [Entity.message, .enum]) : (Kind.ofDefinition d).NamesType r := by
  obtain ⟨f, hf, i, hdf⟩ := mem_of_mem_definitionsOf hd
  have hfile := mem_files_ofRecords h hf
  obtain ⟨he, x, hx, hname⟩ | ⟨he, hname⟩ | he := type_of_mem_definitions hdf
  · rw [Kind.ofDefinition, he]
    have hm : Message.link (tableOf (rs.map FileDecl.ofRecord) f) x.1 x.2 ∈
        (File.link (rs.map FileDecl.ofRecord) f).allMessages := by
      rw [File.allMessages_link]
      exact List.mem_map_of_mem hx
    exact ⟨_, mem_allMessages.2 ⟨_, hfile, hm⟩, (Message.link_fullName _ _ _).trans hname.symm⟩
  · rw [Kind.ofDefinition, he]
    obtain ⟨e, he, hname⟩ | ⟨x, hx, e, he, hname⟩ := hname
    · refine ⟨EnumType.link f.package e, mem_allEnums.2 ⟨_, hfile, ?_⟩, hname.symm⟩
      rw [File.allEnums_link]
      exact List.mem_append_left _ (List.mem_map_of_mem he)
    · refine ⟨EnumType.link (qualify x.1 x.2.name) e, mem_allEnums.2 ⟨_, hfile, ?_⟩, hname.symm⟩
      rw [File.allEnums_link]
      exact List.mem_append_right _ (List.mem_flatMap.2 ⟨x, hx, List.mem_map_of_mem he⟩)
  · simp [he] at hsort

structure Closed (r : Registry) : Prop where
  kinds : ∀ m ∈ r.allMessages, ∀ f ∈ m.fields, f.kind.NamesType r
  descriptors : ∀ m ∈ r.allMessages, ∀ f ∈ m.fields, f.Describes

theorem closed_of_ofRecords {rs : List Record} {r : Registry} (h : ofRecords rs = .ok r) :
    r.Closed := by
  have hfield : ∀ m ∈ r.allMessages, ∀ f ∈ m.fields, ∃ g ∈ rs.map FileDecl.ofRecord,
      ∃ scope d, f = Field.link (tableOf (rs.map FileDecl.ofRecord) g) scope d := by
    intro m hm f hf
    obtain ⟨g, hg, x, hx, rfl⟩ := exists_link_of_mem_allMessages h hm
    rw [Message.link_fields, sortFields, List.mem_mergeSort] at hf
    obtain ⟨d, -, rfl⟩ := List.mem_map.1 hf
    exact ⟨g, hg, _, d, rfl⟩
  constructor
  case kinds =>
    intro m hm f hf
    obtain ⟨g, -, scope, d, rfl⟩ := hfield m hm f hf
    change ((d.kind? _ scope).getD (.scalar .double)).NamesType r
    cases hk : d.kind? (tableOf (rs.map FileDecl.ofRecord) g) scope with
    | none => trivial
    | some k =>
      cases href : k.reference? with
      | none =>
        cases k with
        | scalar k => trivial
        | message n => cases href
        | enum n => cases href
      | some n =>
        obtain ⟨e, he, hsort, rfl⟩ := FieldDecl.definition_of_kind? hk (href ▸ rfl)
        exact namesType_ofDefinition h he hsort
  case descriptors =>
    intro m hm f hf
    obtain ⟨g, -, scope, d, rfl⟩ := hfield m hm f hf
    exact Field.describes_link _ scope d

theorem closed_of_parse {bytes : List UInt8} {r : Registry} (h : parse bytes = .ok r) :
    r.Closed := by
  obtain ⟨set, -, hr⟩ := parse_eq_ok_iff.1 h
  exact closed_of_ofRecords hr

theorem Distinct.message?_eq_none_of_enum {r : Registry} (h : r.Distinct) {e : EnumType}
    (he : e ∈ r.allEnums) : r.message? e.fullName = none := by
  rw [message?, List.find?_eq_none]
  intro m hm hname
  have hdisjoint := (List.nodup_append.1 h.typeNames).2.2
  exact hdisjoint _ (List.mem_map_of_mem hm) _ (List.mem_map_of_mem he) (by simpa using hname)

end Registry

end SchemaEvolution.Protobuf
