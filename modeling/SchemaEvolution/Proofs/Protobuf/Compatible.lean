import SchemaEvolution.Protobuf.Compare

namespace SchemaEvolution.Protobuf

theorem ScalarKind.name_injective : ∀ k l : ScalarKind, k.name = l.name → k = l := by
  intro k l h
  cases k <;> cases l <;> first | rfl | exact absurd h (by decide)

theorem ScalarKind.name_ne_reference (k : ScalarKind) : k.name ≠ "message" ∧ k.name ≠ "enum" := by
  cases k <;> decide

theorem Kind.eq_of_name_of_reference {k l : Kind} (hname : k.name = l.name)
    (href : ∀ m n, k.reference? = some m → l.reference? = some n → m = n) : k = l := by
  cases k with
  | scalar a =>
    cases l with
    | scalar b => exact congrArg Kind.scalar (ScalarKind.name_injective a b hname)
    | message n => exact absurd hname a.name_ne_reference.1
    | enum n => exact absurd hname a.name_ne_reference.2
  | message m =>
    cases l with
    | scalar b => exact absurd hname.symm b.name_ne_reference.1
    | message n => exact congrArg Kind.message (href m n rfl rfl)
    | enum n => simp [name] at hname
  | enum m =>
    cases l with
    | scalar b => exact absurd hname.symm b.name_ne_reference.2
    | message n => simp [name] at hname
    | enum n => exact congrArg Kind.enum (href m n rfl rfl)

structure Field.Keeps (current previous : Field) : Prop where
  jsonName : current.jsonName = previous.jsonName
  cardinality : current.cardinality = previous.cardinality
  kind : current.kind = previous.kind

theorem kindDiffs_eq_nil_iff {location : String} {current previous : Field} :
    kindDiffs location current previous = [] ↔ current.kind = previous.kind := by
  constructor
  · intro h
    by_cases hname : current.kind.name = previous.kind.name
    · apply Kind.eq_of_name_of_reference hname
      intro m n hm hn
      simp only [kindDiffs, hname, ne_eq, not_true_eq_false, if_false, hm, hn] at h
      apply Decidable.byContradiction
      intro hne
      simp [Ne.symm hne] at h
    · simp [kindDiffs, hname] at h
  · intro h
    cases hr : previous.kind.reference? <;> simp [kindDiffs, h, hr]

theorem fieldDiffs_eq_nil_iff {location : String} {current previous : Field} :
    fieldDiffs location current previous = [] ↔ current.Keeps previous := by
  have hj : jsonNameDiffs location current previous = [] ↔
      current.jsonName = previous.jsonName := by simp [jsonNameDiffs]
  have hl : labelDiffs location current previous = [] ↔
      current.cardinality = previous.cardinality := by simp [labelDiffs]
  simp only [fieldDiffs, List.append_eq_nil_iff, hj, hl, kindDiffs_eq_nil_iff]
  constructor
  · rintro ⟨⟨hjson, hlabel⟩, hkind⟩
    exact ⟨hjson, hlabel, hkind⟩
  · rintro ⟨hjson, hlabel, hkind⟩
    exact ⟨⟨hjson, hlabel⟩, hkind⟩

theorem Field.Keeps.refl (f : Field) : f.Keeps f := ⟨rfl, rfl, rfl⟩

theorem Field.Keeps.trans {a b c : Field} (hcb : c.Keeps b) (hba : b.Keeps a) : c.Keeps a where
  jsonName := hcb.jsonName.trans hba.jsonName
  cardinality := hcb.cardinality.trans hba.cardinality
  kind := hcb.kind.trans hba.kind

structure Reserved.Keeps (current previous : Reserved) : Prop where
  intervals : ∀ i ∈ previous.intervals, current.coversInterval i
  names : ∀ n ∈ previous.names, current.hasName n

theorem reservedDiffs_eq_nil_iff {location owner : String} {current previous : Reserved} :
    reservedDiffs location owner current previous = [] ↔ current.Keeps previous := by
  simp only [reservedDiffs, List.append_eq_nil_iff, List.map_eq_nil_iff, List.filter_eq_nil_iff,
    Bool.not_eq_true', Bool.not_eq_false]
  constructor
  · rintro ⟨hintervals, hnames⟩
    exact ⟨hintervals, hnames⟩
  · rintro ⟨hintervals, hnames⟩
    exact ⟨hintervals, hnames⟩

@[simp] theorem Reserved.coversInterval_iff {r : Reserved} {i : Interval} :
    r.coversInterval i ↔ ∃ j ∈ r.intervals, j.first ≤ i.first ∧ i.last ≤ j.last := by
  simp [coversInterval]

@[simp] theorem Reserved.hasName_iff {r : Reserved} {name : String} : r.hasName name ↔ name ∈ r.names := by
  simp [hasName]

theorem Reserved.Keeps.refl (r : Reserved) : r.Keeps r where
  intervals i hi := coversInterval_iff.2 ⟨i, hi, Int.le_refl _, Int.le_refl _⟩
  names _ hn := hasName_iff.2 hn

theorem Reserved.Keeps.trans {a b c : Reserved} (hcb : c.Keeps b) (hba : b.Keeps a) : c.Keeps a where
  intervals i hi := by
    obtain ⟨j, hj, hji, hij⟩ := coversInterval_iff.1 (hba.intervals i hi)
    obtain ⟨k, hk, hkj, hjk⟩ := coversInterval_iff.1 (hcb.intervals j hj)
    exact coversInterval_iff.2 ⟨k, hk, Int.le_trans hkj hji, Int.le_trans hij hjk⟩
  names n hn := hcb.names n (hasName_iff.1 (hba.names n hn))

structure Message.Keeps (current previous : Message) : Prop where
  reserved : (Reserved.ofMessage current).Keeps (.ofMessage previous)
  fields : ∀ f ∈ previous.fields, ∃ g, current.field? f.number = some g ∧ g.Keeps f

theorem mem_messageDiffs_iff {location : String} {current previous : Message} {x : Diff} :
    x ∈ messageDiffs location current previous ↔
      x ∈ reservedDiffs location s!"message '{previous.fullName}'" (.ofMessage current)
        (.ofMessage previous) ∨
      ∃ f ∈ previous.fields,
        (∃ g, current.field? f.number = some g ∧ x ∈ fieldDiffs location g f) ∨
        (current.field? f.number = none ∧ x ∈ deletedFieldDiffs location (.ofMessage current) f) := by
  simp only [messageDiffs, List.mem_append, List.mem_flatMap]
  refine or_congr_right (exists_congr fun f => and_congr_right ?_)
  intro _
  cases current.field? f.number <;> simp

theorem messageDiffs_eq_nil_iff {location : String} {current previous : Message} :
    messageDiffs location current previous = [] ↔ current.Keeps previous := by
  simp only [messageDiffs, List.append_eq_nil_iff, List.flatMap_eq_nil_iff,
    reservedDiffs_eq_nil_iff]
  constructor
  · intro h
    refine ⟨h.1, ?_⟩
    intro f hf
    have hdiffs := h.2 f hf
    cases hg : current.field? f.number with
    | none => simp [hg, deletedFieldDiffs] at hdiffs
    | some g => exact ⟨g, rfl, fieldDiffs_eq_nil_iff.1 (by simpa only [hg] using hdiffs)⟩
  · intro h
    refine ⟨h.reserved, ?_⟩
    intro f hf
    obtain ⟨g, hg, hk⟩ := h.fields f hf
    simp only [hg, fieldDiffs_eq_nil_iff.2 hk]

theorem Message.field?_eq_some {m : Message} {number : Int} {f : Field}
    (h : m.field? number = some f) : f ∈ m.fields ∧ f.number = number :=
  ⟨List.mem_of_find?_eq_some h, by simpa using List.find?_some h⟩

theorem Message.Keeps.trans {a b c : Message} (hcb : c.Keeps b) (hba : b.Keeps a) : c.Keeps a where
  reserved := hcb.reserved.trans hba.reserved
  fields f hf := by
    obtain ⟨g, hg, hgf⟩ := hba.fields f hf
    obtain ⟨hgb, hn⟩ := field?_eq_some hg
    obtain ⟨k, hk, hkg⟩ := hcb.fields g hgb
    exact ⟨k, hn ▸ hk, hkg.trans hgf⟩

structure EnumType.Keeps (current previous : EnumType) : Prop where
  reserved : (Reserved.ofEnum current).Keeps (.ofEnum previous)
  values : ∀ v ∈ previous.values, current.number? v.1 = some v.2

theorem enumDiffs_eq_nil_iff {location : String} {current previous : EnumType} :
    enumDiffs location current previous = [] ↔ current.Keeps previous := by
  have hvalue : ∀ v : String × Int,
      valueDiffs location previous.fullName current (.ofEnum current) v.1 v.2 = [] ↔
        current.number? v.1 = some v.2 := by
    intro v
    cases hn : current.number? v.1 with
    | none => simp [valueDiffs, hn, deletedValueDiffs]
    | some n => simp [valueDiffs, hn]
  simp only [enumDiffs, List.append_eq_nil_iff, List.flatMap_eq_nil_iff, hvalue,
    reservedDiffs_eq_nil_iff]
  constructor
  · rintro ⟨hreserved, hvalues⟩
    exact ⟨hreserved, hvalues⟩
  · rintro ⟨hreserved, hvalues⟩
    exact ⟨hreserved, hvalues⟩

theorem EnumType.number?_eq_some {e : EnumType} {value : String} {n : Int}
    (h : e.number? value = some n) : (value, n) ∈ e.values := by
  obtain ⟨_, _, he, _⟩ := List.lookup_eq_some_iff.1 h
  simp [he]

theorem EnumType.Keeps.trans {a b c : EnumType} (hcb : c.Keeps b) (hba : b.Keeps a) : c.Keeps a where
  reserved := hcb.reserved.trans hba.reserved
  values v hv := hcb.values _ (number?_eq_some (hba.values v hv))

structure Registry.Keeps (current previous : Registry) : Prop where
  messages : ∀ m ∈ previous.allMessages, ∃ n, current.message? m.fullName = some n ∧ n.Keeps m
  enums : ∀ e ∈ previous.allEnums, ∃ f, current.enum? e.fullName = some f ∧ f.Keeps e
  languages : ∀ f ∈ previous.files, ∀ m ∈ f.allMessages,
    ∃ g, current.fileOf? m.fullName = some g ∧ g.language = f.language

namespace Registry

@[simp] theorem mem_allMessages {r : Registry} {m : Message} :
    m ∈ r.allMessages ↔ ∃ f ∈ r.files, m ∈ f.allMessages := by
  simp [allMessages]

@[simp] theorem mem_allEnums {r : Registry} {e : EnumType} :
    e ∈ r.allEnums ↔ ∃ f ∈ r.files, e ∈ f.allEnums := by
  simp [allEnums]

theorem message?_eq_some {r : Registry} {name : String} {m : Message}
    (h : r.message? name = some m) : m ∈ r.allMessages ∧ m.fullName = name :=
  ⟨List.mem_of_find?_eq_some h, by simpa using List.find?_some h⟩

theorem enum?_eq_some {r : Registry} {name : String} {e : EnumType}
    (h : r.enum? name = some e) : e ∈ r.allEnums ∧ e.fullName = name :=
  ⟨List.mem_of_find?_eq_some h, by simpa using List.find?_some h⟩

theorem fileOf?_eq_some {r : Registry} {name : String} {f : File}
    (h : r.fileOf? name = some f) : f ∈ r.files ∧ ∃ m ∈ f.allMessages, m.fullName = name :=
  ⟨List.mem_of_find?_eq_some h, by simpa using List.find?_some h⟩

theorem fileOf?_isSome_of_message? {r : Registry} {name : String} {m : Message}
    (h : r.message? name = some m) : ∃ f, r.fileOf? name = some f := by
  obtain ⟨hm, hname⟩ := message?_eq_some h
  obtain ⟨f, hf, hmf⟩ := mem_allMessages.1 hm
  apply Option.isSome_iff_exists.1
  rw [fileOf?, List.find?_isSome]
  exact ⟨f, hf, by simpa using ⟨m, hmf, hname⟩⟩

end Registry

section Diffs

variable {current previous : Registry}

theorem checkMessages_eq_nil_iff : checkMessages current previous = [] ↔
    ∀ m ∈ previous.allMessages, ∃ n, current.message? m.fullName = some n ∧ n.Keeps m := by
  simp only [checkMessages, List.flatMap_eq_nil_iff]
  constructor
  · intro h m hm
    obtain ⟨f, hf, hmf⟩ := Registry.mem_allMessages.1 hm
    have hdiffs := h f hf m hmf
    cases hn : current.message? m.fullName with
    | none => simp [hn] at hdiffs
    | some n => exact ⟨n, rfl, messageDiffs_eq_nil_iff.1 (by simpa only [hn] using hdiffs)⟩
  · intro h f hf m hmf
    obtain ⟨n, hn, hk⟩ := h m (Registry.mem_allMessages.2 ⟨f, hf, hmf⟩)
    simp only [hn, messageDiffs_eq_nil_iff.2 hk]

theorem checkEnums_eq_nil_iff : checkEnums current previous = [] ↔
    ∀ e ∈ previous.allEnums, ∃ n, current.enum? e.fullName = some n ∧ n.Keeps e := by
  simp only [checkEnums, List.flatMap_eq_nil_iff]
  constructor
  · intro h e he
    obtain ⟨f, hf, hef⟩ := Registry.mem_allEnums.1 he
    have hdiffs := h f hf e hef
    cases hn : current.enum? e.fullName with
    | none => simp [hn] at hdiffs
    | some n => exact ⟨n, rfl, enumDiffs_eq_nil_iff.1 (by simpa only [hn] using hdiffs)⟩
  · intro h f hf e hef
    obtain ⟨n, hn, hk⟩ := h e (Registry.mem_allEnums.2 ⟨f, hf, hef⟩)
    simp only [hn, enumDiffs_eq_nil_iff.2 hk]

theorem checkLanguage_eq_nil_iff : checkLanguage current previous = [] ↔
    ∀ f ∈ previous.files, ∀ m ∈ f.allMessages, ∀ g, current.fileOf? m.fullName = some g →
      g.language = f.language := by
  simp only [checkLanguage, List.flatMap_eq_nil_iff]
  apply forall₂_congr
  intro f _
  apply forall₂_congr
  intro m _
  cases hg : current.fileOf? m.fullName with
  | none => simp
  | some g => simp

theorem compareDiffs_eq_nil_iff : compareDiffs current previous = [] ↔ current.Keeps previous := by
  simp only [compareDiffs, List.append_eq_nil_iff, checkMessages_eq_nil_iff, checkEnums_eq_nil_iff,
    checkLanguage_eq_nil_iff]
  constructor
  · intro h
    refine ⟨h.1.1, h.1.2, ?_⟩
    intro f hf m hm
    obtain ⟨n, hn, _⟩ := h.1.1 m (Registry.mem_allMessages.2 ⟨f, hf, hm⟩)
    obtain ⟨g, hg⟩ := Registry.fileOf?_isSome_of_message? hn
    exact ⟨g, hg, h.2 f hf m hm g hg⟩
  · intro h
    refine ⟨⟨h.messages, h.enums⟩, ?_⟩
    intro f hf m hm g hg
    obtain ⟨k, hk, hkf⟩ := h.languages f hf m hm
    rw [hg] at hk
    cases hk
    exact hkf

end Diffs

theorem Registry.Keeps.trans {a b c : Registry} (hcb : c.Keeps b) (hba : b.Keeps a) : c.Keeps a where
  messages m hm := by
    obtain ⟨n, hn, hnm⟩ := hba.messages m hm
    obtain ⟨hnb, hname⟩ := message?_eq_some hn
    obtain ⟨k, hk, hkn⟩ := hcb.messages n hnb
    exact ⟨k, hname ▸ hk, hkn.trans hnm⟩
  enums e he := by
    obtain ⟨f, hf, hfe⟩ := hba.enums e he
    obtain ⟨hfb, hname⟩ := enum?_eq_some hf
    obtain ⟨k, hk, hkf⟩ := hcb.enums f hfb
    exact ⟨k, hname ▸ hk, hkf.trans hfe⟩
  languages f hf m hm := by
    obtain ⟨g, hg, hgf⟩ := hba.languages f hf m hm
    obtain ⟨hgb, n, hn, hname⟩ := fileOf?_eq_some hg
    obtain ⟨k, hk, hkg⟩ := hcb.languages g hgb n hn
    exact ⟨k, hname ▸ hk, hkg.trans hgf⟩

def reservedKinds : List DiffKind := [.reservedRangeNotInclusive, .reservedNameRemoved]

def fieldKinds : List DiffKind :=
  [.jsonNameChanged, .fieldLabelChanged, .fieldKindChanged, .fieldTypeChanged]

def deletedFieldKinds : List DiffKind :=
  [.fieldDeleted, .fieldDeleteWithoutReservedNumber, .fieldDeleteWithoutReservedName]

def deletedValueKinds : List DiffKind :=
  [.enumValueDeleted, .enumValueDeleteWithoutReservedNumber, .enumValueDeleteWithoutReservedName]

def valueKinds : List DiffKind := deletedValueKinds ++ [.enumValueNumberChanged]

theorem kind_mem_of_mem_reservedDiffs {location owner : String} {current previous : Reserved}
    {d : Diff} (h : d ∈ reservedDiffs location owner current previous) :
    d.kind ∈ reservedKinds := by
  simp only [reservedDiffs, List.mem_append, List.mem_map] at h
  rcases h with ⟨_, _, rfl⟩ | ⟨_, _, rfl⟩ <;> simp [reservedKinds]

theorem kinds_fieldDiffs_sublist (location : String) (current previous : Field) :
    ((fieldDiffs location current previous).map (·.kind)).Sublist fieldKinds := by
  have hj : ((jsonNameDiffs location current previous).map (·.kind)).Sublist
      [.jsonNameChanged] := by
    unfold jsonNameDiffs
    split <;> simp
  have hl : ((labelDiffs location current previous).map (·.kind)).Sublist
      [.fieldLabelChanged] := by
    unfold labelDiffs
    split <;> simp
  have hk : ((kindDiffs location current previous).map (·.kind)).Sublist
      [.fieldKindChanged, .fieldTypeChanged] := by
    unfold kindDiffs
    split
    · simp
    · split
      · split <;> simp
      · simp
  rw [fieldDiffs, List.map_append, List.map_append]
  exact (hj.append hl).append hk

theorem kinds_deletedFieldDiffs_sublist (location : String) (reserved : Reserved) (f : Field) :
    ((deletedFieldDiffs location reserved f).map (·.kind)).Sublist deletedFieldKinds := by
  unfold deletedFieldDiffs
  split <;> split <;> simp [deletedFieldKinds]

theorem kinds_deletedValueDiffs_sublist (location enum : String) (reserved : Reserved)
    (value : String) (n : Int) :
    ((deletedValueDiffs location enum reserved value n).map (·.kind)).Sublist
      deletedValueKinds := by
  unfold deletedValueDiffs
  split <;> split <;> simp [deletedValueKinds]

theorem kinds_valueDiffs_sublist (location enum : String) (current : EnumType)
    (reserved : Reserved) (value : String) (n : Int) :
    ((valueDiffs location enum current reserved value n).map (·.kind)).Sublist valueKinds := by
  unfold valueDiffs
  split
  · exact (kinds_deletedValueDiffs_sublist location enum reserved value n).trans
      (List.sublist_append_left _ _)
  · split
    · simp
    · exact List.sublist_append_right _ _

theorem kind_mem_of_mem_messageDiffs {location : String} {current previous : Message} {d : Diff}
    (h : d ∈ messageDiffs location current previous) :
    d.kind ∈ reservedKinds ++ fieldKinds ++ deletedFieldKinds := by
  simp only [messageDiffs, List.mem_append, List.mem_flatMap] at h ⊢
  obtain h | ⟨f, _, h⟩ := h
  · exact .inl (.inl (kind_mem_of_mem_reservedDiffs h))
  · split at h
    · exact .inl (.inr ((kinds_fieldDiffs_sublist _ _ _).subset (List.mem_map_of_mem h)))
    · exact .inr ((kinds_deletedFieldDiffs_sublist _ _ _).subset (List.mem_map_of_mem h))

theorem kind_mem_of_mem_enumDiffs {location : String} {current previous : EnumType} {d : Diff}
    (h : d ∈ enumDiffs location current previous) :
    d.kind ∈ reservedKinds ++ valueKinds := by
  simp only [enumDiffs, List.mem_append, List.mem_flatMap] at h ⊢
  obtain h | ⟨v, _, h⟩ := h
  · exact .inl (kind_mem_of_mem_reservedDiffs h)
  · have hkinds := kinds_valueDiffs_sublist location previous.fullName current (.ofEnum current)
      v.1 v.2
    exact .inr (hkinds.subset (List.mem_map_of_mem h))

theorem kind_mem_of_mem_checkMessages {current previous : Registry} {d : Diff}
    (h : d ∈ checkMessages current previous) :
    d.kind ∈ .messageDeleted :: (reservedKinds ++ fieldKinds ++ deletedFieldKinds) := by
  simp only [checkMessages, List.mem_flatMap] at h
  obtain ⟨f, _, m, _, h⟩ := h
  split at h
  · exact .tail _ (kind_mem_of_mem_messageDiffs h)
  · cases List.mem_singleton.1 h
    exact .head _

theorem kind_mem_of_mem_checkEnums {current previous : Registry} {d : Diff}
    (h : d ∈ checkEnums current previous) :
    d.kind ∈ .enumDeleted :: (reservedKinds ++ valueKinds) := by
  simp only [checkEnums, List.mem_flatMap] at h
  obtain ⟨f, _, e, _, h⟩ := h
  split at h
  · exact .tail _ (kind_mem_of_mem_enumDiffs h)
  · cases List.mem_singleton.1 h
    exact .head _

theorem kind_of_mem_checkLanguage {current previous : Registry} {d : Diff}
    (h : d ∈ checkLanguage current previous) : d.kind = .syntaxChanged := by
  simp only [checkLanguage, List.mem_flatMap] at h
  obtain ⟨f, _, m, _, h⟩ := h
  split at h
  · cases h
  · split at h
    · cases h
    · cases List.mem_singleton.1 h
      rfl

theorem kind_ne_of_mem_compareDiffs {current previous : Registry} {d : Diff}
    (h : d ∈ compareDiffs current previous) : d.kind ≠ .propertyAddition := by
  intro hkind
  simp only [compareDiffs, List.mem_append] at h
  obtain (h | h) | h := h
  · exact absurd (hkind ▸ kind_mem_of_mem_checkMessages h) (by decide)
  · exact absurd (hkind ▸ kind_mem_of_mem_checkEnums h) (by decide)
  · exact absurd (hkind ▸ kind_of_mem_checkLanguage h) (by decide)

theorem compare_backward_diffs (current previous : Registry) :
    (compare .backward current previous).diffs = compareDiffs current previous := by
  have h : ∀ k : DiffKind, k ≠ .propertyAddition → RuleSet.backward.disallows k := by
    intro k; cases k <;> decide
  apply List.filter_eq_self.2
  intro d hd
  exact h d.kind (kind_ne_of_mem_compareDiffs hd)

theorem compare_backward_isEmpty_iff {current previous : Registry} :
    (compare .backward current previous).isEmpty ↔ current.Keeps previous := by
  rw [Report.isEmpty, compare_backward_diffs, List.isEmpty_iff, compareDiffs_eq_nil_iff]

end SchemaEvolution.Protobuf
