import SchemaEvolution.Proofs.Impact.Members
import SchemaEvolution.Proofs.Protobuf.Preorder

/-!
The detector looks at descriptors and the comparison at linked types, and still what the comparison
finds about a type is found about one that the detector tells of. There is one exception: the type that
a group names may turn from a message into an enum, or back, while the descriptor of the field stays the
same. Then the detector tells of the type that was named.
-/

namespace SchemaEvolution.Impact

open Protobuf Registry Member

/-- A type of the new set is told of: by itself or, if it is a nested enum, by the message around it. -/
def ToldOf (old new : Registry) (name : String) : Prop :=
  (∃ m ∈ new.allMessages, m.fullName = name ∧ name ∈ (detectChanges old new).updated) ∨
    ∃ e ∈ new.allEnums, e.fullName = name ∧
      ((e ∈ new.topEnums ∧ name ∈ (detectChanges old new).updated) ∨
        ∃ m ∈ new.allMessages, e ∈ m.enums ∧ m.fullName ∈ (detectChanges old new).updated)

/-- A difference comes from comparing the two versions of a message or of an enum. -/
def Concerns (old new : Registry) (d : Diff) (name : String) : Prop :=
  (∃ file ∈ old.files, ∃ p, file.Declares p ∧ p.fullName = name ∧
    ∃ m ∈ new.allMessages, m.fullName = name ∧ d ∈ messageDiffs file.name m p) ∨
  ∃ file ∈ old.files, ∃ p, file.DeclaresEnum p ∧ p.fullName = name ∧
    ∃ e ∈ new.allEnums, e.fullName = name ∧ d ∈ enumDiffs file.name e p

def FoundAt (old new : Registry) (d : Diff) (name : String) (f g : Field) : Prop :=
  ∃ file ∈ old.files, ∃ p, file.Declares p ∧ p.fullName = name ∧ g ∈ p.fields ∧
    ∃ m ∈ new.allMessages, m.fullName = name ∧ f ∈ m.fields ∧ f.number = g.number ∧
      d ∈ fieldDiffs file.name f g

/-- A group in both versions, a message in one of them and an enum in the other. -/
def TurnedGroup (f g : Field) : Prop :=
  f.type = groupType ∧ g.type = groupType ∧
    ∃ n k, (f.kind = .message n ∧ g.kind = .enum k) ∨ (f.kind = .enum n ∧ g.kind = .message k)

def wholeTypeKinds : List DiffKind := [.messageDeleted, .enumDeleted, .syntaxChanged]

section Found

variable {old new : Registry} {d : Diff}

theorem exists_concerns (hd : d ∈ compareDiffs new old) (hkind : d.kind ∉ wholeTypeKinds) :
    ∃ name, Concerns old new d name := by
  simp only [compareDiffs, List.mem_append] at hd
  obtain (hd | hd) | hd := hd
  · obtain ⟨file, hfile, p, hp, hd⟩ := by simpa only [checkMessages, List.mem_flatMap] using hd
    have hp := File.mem_allMessages_iff.1 hp
    split at hd
    next m hm =>
      obtain ⟨hm, hname⟩ := message?_eq_some hm
      exact ⟨_, .inl ⟨file, hfile, p, hp, rfl, m, hm, hname, hd⟩⟩
    next =>
      rw [List.mem_singleton.1 hd] at hkind
      exact absurd hkind (by simp [wholeTypeKinds])
  · obtain ⟨file, hfile, p, hp, hd⟩ := by simpa only [checkEnums, List.mem_flatMap] using hd
    have hp := File.mem_allEnums_iff.1 hp
    split at hd
    next e he =>
      obtain ⟨he, hname⟩ := enum?_eq_some he
      exact ⟨_, .inr ⟨file, hfile, p, hp, rfl, e, he, hname, hd⟩⟩
    next =>
      rw [List.mem_singleton.1 hd] at hkind
      exact absurd hkind (by simp [wholeTypeKinds])
  · rw [kind_of_mem_checkLanguage hd] at hkind
    exact absurd hkind (by simp [wholeTypeKinds])

theorem exists_foundAt (hd : d ∈ compareDiffs new old) (hkind : d.kind = .fieldKindChanged) :
    ∃ name f g, FoundAt old new d name f g := by
  obtain ⟨name, h | h⟩ := exists_concerns hd (by simp [hkind, wholeTypeKinds])
  · obtain ⟨file, hfile, p, hp, hpname, m, hm, hmname, hd⟩ := h
    simp only [messageDiffs, List.mem_append, List.mem_flatMap] at hd
    obtain hd | ⟨g, hg, hd⟩ := hd
    · exact absurd (hkind ▸ kind_mem_of_mem_reservedDiffs hd) (by decide)
    · split at hd
      next f hf =>
        obtain ⟨hf, hnumber⟩ := Message.field?_eq_some hf
        exact ⟨name, f, g, file, hfile, p, hp, hpname, hg, m, hm, hmname, hf, hnumber, hd⟩
      next =>
        have hmem := (kinds_deletedFieldDiffs_sublist _ _ _).subset (List.mem_map_of_mem hd)
        exact absurd (hkind ▸ hmem) (by decide)
  · obtain ⟨file, -, p, -, -, e, -, -, hd⟩ := h
    exact absurd (hkind ▸ kind_mem_of_mem_enumDiffs hd) (by decide)

theorem kind_ne_of_mem_fieldDiffs {location : String} {f g : Field} (h : f.kind.name = g.kind.name)
    (hd : d ∈ fieldDiffs location f g) : d.kind ≠ .fieldKindChanged := by
  simp only [fieldDiffs, List.mem_append] at hd
  obtain (hd | hd) | hd := hd
  · unfold jsonNameDiffs at hd
    split at hd
    · cases hd
    · simp [List.mem_singleton.1 hd]
  · unfold labelDiffs at hd
    split at hd
    · cases hd
    · simp [List.mem_singleton.1 hd]
  · simp only [kindDiffs, h, ne_eq, not_true_eq_false, if_false] at hd
    split at hd
    · split at hd
      · cases hd
      · simp [List.mem_singleton.1 hd]
    · cases hd

theorem kind_of_mem_kindDiffs {location : String} {f g : Field} (h : f.kind.name ≠ g.kind.name)
    (hd : d ∈ kindDiffs location f g) : d.kind = .fieldKindChanged := by
  rw [kindDiffs, if_pos h] at hd
  rw [List.mem_singleton.1 hd]

end Found

section Kinds

theorem lookup_knownType (n : Int) : (ScalarKind.numbered.lookup (knownType n)).getD .double =
    (ScalarKind.numbered.lookup n).getD .double := by
  unfold knownType
  split
  · rfl
  next h =>
    have hkeys : ∀ e ∈ ScalarKind.numbered, 1 ≤ e.1 ∧ e.1 ≤ 18 := by decide
    have hnone : ScalarKind.numbered.lookup n = none := by
      apply List.lookup_eq_none_iff.2
      intro e he
      simpa using fun heq : n = e.1 => h (heq ▸ hkeys e he)
    rw [hnone]
    rfl

theorem knownType_eq_iff {n t : Int} (ht : t ∈ [groupType, messageType, enumType]) :
    knownType n = t ↔ n = t := by
  simp only [groupType, messageType, enumType, List.mem_cons, List.not_mem_nil, or_false] at ht
  unfold knownType
  split <;> omega

theorem declaredAs_knownType {type : Int} {typeName : String} {k : Kind}
    (h : k.DeclaredAs type typeName) : k.DeclaredAs (knownType type) typeName := by
  cases k with
  | scalar k =>
    refine ⟨h.1, fun hmem => h.2.1 ?_, h.2.2.trans (lookup_knownType type).symm⟩
    rwa [(knownType_eq_iff hmem).1 rfl]
  | message n =>
    exact ⟨h.1, h.2.imp (knownType_eq_iff (by decide)).2 (knownType_eq_iff (by decide)).2⟩
  | enum n =>
    exact ⟨h.1, h.2.imp (knownType_eq_iff (by decide)).2 (knownType_eq_iff (by decide)).2⟩

variable {f g : Field}

theorem turnedGroup_of_knownType (hf : f.kind.DeclaredAs f.type f.typeName)
    (hg : g.kind.DeclaredAs g.type g.typeName) (htype : knownType f.type = knownType g.type)
    (hname : f.kind.name ≠ g.kind.name) : TurnedGroup f g := by
  obtain h | ⟨hgroup, h⟩ :=
    (declaredAs_knownType hf).name_eq_or_group (htype ▸ declaredAs_knownType hg)
  · exact absurd h hname
  · have hiff := fun n => knownType_eq_iff (n := n) (by decide : groupType ∈ _)
    exact ⟨(hiff _).1 hgroup, (hiff _).1 (htype ▸ hgroup), h⟩

end Kinds

section Agreement

variable {old new : Registry} {d : Diff} {name : String}

theorem enum_mem_or_toldOf (ho : old.Accepted) (hn : new.Accepted) {e : EnumType}
    (he : e ∈ new.allEnums) : e ∈ old.allEnums ∨ ToldOf old new e.fullName := by
  apply (enum_mem_or_updated ho hn he).imp_right
  intro h
  exact .inr ⟨e, he, rfl, h⟩

theorem toldOf_of_turned (ho : old.Accepted) (hn : new.Accepted) {k l : Kind}
    (hk : k.NamesType new) (hl : l.NamesType old) {n : String}
    (h : (k = .message n ∧ l = .enum n) ∨ (k = .enum n ∧ l = .message n)) : ToldOf old new n := by
  obtain ⟨rfl, rfl⟩ | ⟨rfl, rfl⟩ := h
  · -- the old set has an enum of the name, so it has no message to match
    obtain ⟨m, hm, rfl⟩ := hk
    obtain ⟨e, he, hename⟩ := hl
    refine .inl ⟨m, hm, rfl, (message_mem_updated_iff ho.distinct hn.distinct hm).2 ?_⟩
    intro h
    obtain ⟨p, hp, hname, -⟩ := matches_iff.1 h
    exact ho.distinct.message_ne_enum hp he (hname.trans hename.symm)
  · obtain ⟨e, he, rfl⟩ := hk
    obtain ⟨p, hp, hpname⟩ := hl
    obtain hold | htold := enum_mem_or_toldOf ho hn he
    · exact absurd hpname (ho.distinct.message_ne_enum hp hold)
    · exact htold

theorem names_of_turned {k l : Kind} {n : String}
    (h : (k = .message n ∧ l = .enum n) ∨ (k = .enum n ∧ l = .message n)) :
    k.name ≠ l.name ∧ k.reference? = some n ∧ l.reference? = some n := by
  obtain ⟨rfl, rfl⟩ | ⟨rfl, rfl⟩ := h <;> exact ⟨by simp [Kind.name], rfl, rfl⟩

/-- Between versions of a message that are described in the same way only groups can differ. -/
theorem group_of_mem_messageDiffs (ho : old.Accepted) (hn : new.Accepted) {location : String}
    {m p : Message} (hm : m ∈ new.allMessages) (hp : p ∈ old.allMessages)
    (hname : p.fullName = m.fullName) (hdescriptor : p.descriptor = m.descriptor)
    (hd : d ∈ messageDiffs location m p) : ∃ f ∈ m.fields, ∃ g ∈ p.fields, f.number = g.number ∧
      d ∈ fieldDiffs location f g ∧ d.kind = .fieldKindChanged ∧ TurnedGroup f g ∧
      ∃ n, f.kind.reference? = some n ∧ g.kind.reference? = some n ∧ ToldOf old new n := by
  have hpd := ho.described.messages p hp
  have hmd := hn.described.messages m hm
  rw [messageDiffs, hmd.reserved_eq hpd hdescriptor.symm, reservedDiffs_eq_nil_iff.2 (.refl _),
    List.nil_append] at hd
  obtain ⟨g, hg, hd⟩ := List.mem_flatMap.1 hd
  -- the field that is found is the same one up to its kind, which is all that can differ
  obtain ⟨k, hf⟩ := hpd.exists_field hmd hname hdescriptor hg
  have hlookup : m.field? g.number = some { g with kind := k } := hn.distinct.field?_eq hm hf
  rw [hlookup] at hd
  refine ⟨_, hf, g, hg, rfl, hd, ?_⟩
  simp only [fieldDiffs, jsonNameDiffs, labelDiffs, if_true, List.nil_append] at hd
  obtain rfl | ⟨hgroup, n, hkinds⟩ :=
    (hn.described.kinds m hm _ hf).eq_or_group (ho.described.kinds p hp g hg)
  · rw [kindDiffs_eq_nil_iff.2 rfl] at hd
    cases hd
  · have htold := toldOf_of_turned ho hn (hn.closed.kinds m hm _ hf) (ho.closed.kinds p hp g hg) hkinds
    obtain ⟨hnames, hk, hl⟩ := names_of_turned hkinds
    exact ⟨kind_of_mem_kindDiffs hnames hd, ⟨hgroup, hgroup, n, n, hkinds⟩, n, hk, hl, htold⟩

theorem toldOf_of_concerns (ho : old.Accepted) (hn : new.Accepted)
    (h : Concerns old new d name) : ToldOf old new name ∨ d.kind = .fieldKindChanged ∧
      ∃ f g, FoundAt old new d name f g ∧ TurnedGroup f g ∧ ∃ n, f.kind.reference? = some n ∧
        g.kind.reference? = some n ∧ ToldOf old new n := by
  obtain ⟨file, hfile, p, hpf, rfl, m, hm, hname, hd⟩ | ⟨file, hfile, p, hp, rfl, e, he, hname, hd⟩ := h
  · have hp := mem_allMessages_of_declares hfile hpf
    by_cases hdescriptor : p.descriptor = m.descriptor
    · obtain ⟨f, hf, g, hg, hnumber, hfd, hkind, hgroup, htold⟩ :=
        group_of_mem_messageDiffs ho hn hm hp hname.symm hdescriptor hd
      exact .inr ⟨hkind, f, g, ⟨file, hfile, p, hpf, rfl, hg, m, hm, hname, hf, hnumber, hfd⟩, hgroup,
        htold⟩
    · have hmatches : ¬ old.Matches m := by
        intro h
        obtain ⟨q, hq, hqname, hqdescriptor⟩ := matches_iff.1 h
        obtain rfl := ho.distinct.message_eq hp hq (hname.symm.trans hqname.symm)
        exact hdescriptor hqdescriptor
      refine .inl (.inl ⟨m, hm, hname, ?_⟩)
      rw [← hname]
      exact (message_mem_updated_iff ho.distinct hn.distinct hm).2 hmatches
  · have hp := mem_allEnums_of_declares hfile hp
    obtain hold | htold := enum_mem_or_toldOf ho hn he
    · obtain rfl := ho.distinct.enum_eq hold hp hname
      rw [enumDiffs_eq_nil_iff.2 (ho.distinct.enum_keeps_self hp)] at hd
      cases hd
    · exact .inl (hname ▸ htold)

theorem lists_of_foundAt (ho : old.Accepted) (hn : new.Accepted) (hkind : d.kind = .fieldKindChanged)
    {f g : Field} (h : FoundAt old new d name f g) :
    (detectChanges old new).Lists name f.name ∨ TurnedGroup f g := by
  obtain ⟨file, hfile, p, hp, hpname, hg, m, hm, hmname, hf, hnumber, hd⟩ := h
  have hp := mem_allMessages_of_declares hfile hp
  by_cases hknown : Known old name (ofField f)
  · obtain ⟨q, hq, hqname, g', hg', hsame⟩ := known_field_iff.1 hknown
    obtain rfl := ho.distinct.message_eq hp hq (hpname.trans hqname.symm)
    obtain ⟨hnumber', -, htype, -⟩ := Member.field.inj hsame
    -- the known member is the field that was compared, since numbers are unique
    obtain rfl : g' = g := List.inj_on_of_nodup_map (ho.distinct.fields p hp) hg' hg
      (hnumber'.trans hnumber)
    refine .inr (turnedGroup_of_knownType (hn.described.kinds m hm f hf)
      (ho.described.kinds p hp g' hg) htype.symm ?_)
    intro hname
    exact kind_ne_of_mem_fieldDiffs hname hd hkind
  · refine .inl ((lists_iff ho hn).2 ⟨_, rfl, .inl ⟨m, hm, hmname, ?_⟩, hknown⟩)
    exact List.mem_append_left _ (List.mem_map_of_mem hf)

theorem wholeType_of_isEmpty (ho : old.Accepted) (hn : new.Accepted)
    (hempty : (detectChanges old new).isEmpty) (hd : d ∈ compareDiffs new old) :
    d.kind ∈ wholeTypeKinds := by
  have hnone : ∀ n, ¬ ToldOf old new n := by
    have hupdated : (detectChanges old new).updated = [] := by
      simpa [ChangeSet.isEmpty] using hempty
    simp [ToldOf, hupdated]
  by_contra hkind
  obtain ⟨name, hconcerns⟩ := exists_concerns hd hkind
  obtain htold | ⟨-, -, -, -, -, n, -, -, htold⟩ := toldOf_of_concerns ho hn hconcerns
  · exact hnone name htold
  · exact hnone n htold

end Agreement

/-- Apart from whole types that are gone and languages that changed, a difference is about a type that
is told of, and a field that changed its kind is listed; unless the field is a group that turned, and
then the type it names is told of. -/
theorem comparison_agrees {oldBytes newBytes : List UInt8} {old new : Registry}
    (hold : Registry.parse oldBytes = .ok old) (hnew : Registry.parse newBytes = .ok new) :
    (∀ d ∈ (compare .everything new old).diffs, d.kind ∉ wholeTypeKinds →
      (∃ name, Concerns old new d name) ∧ ∀ name, Concerns old new d name →
        ToldOf old new name ∨ d.kind = .fieldKindChanged ∧
          ∃ f g, FoundAt old new d name f g ∧ TurnedGroup f g ∧ ∃ n, f.kind.reference? = some n ∧
            g.kind.reference? = some n ∧ ToldOf old new n) ∧
    (∀ d ∈ (compare .everything new old).diffs, d.kind = .fieldKindChanged →
      (∃ name f g, FoundAt old new d name f g) ∧ ∀ name f g, FoundAt old new d name f g →
        (detectChanges old new).Lists name f.name ∨ TurnedGroup f g) ∧
    ((detectChanges old new).isEmpty →
      ∀ d ∈ (compare .everything new old).diffs, d.kind ∈ wholeTypeKinds) := by
  have ho := accepted_of_parse hold
  have hn := accepted_of_parse hnew
  have hfound : ∀ d ∈ (compare .everything new old).diffs, d ∈ compareDiffs new old := by
    intro d hd
    exact List.mem_of_mem_filter hd
  refine ⟨?_, ?_, ?_⟩
  · intro d hd hkind
    refine ⟨exists_concerns (hfound d hd) hkind, ?_⟩
    intro name h
    exact toldOf_of_concerns ho hn h
  · intro d hd hkind
    refine ⟨exists_foundAt (hfound d hd) hkind, ?_⟩
    intro name f g h
    exact lists_of_foundAt ho hn hkind h
  · intro hempty d hd
    exact wholeType_of_isEmpty ho hn hempty (hfound d hd)

def slotSet (type : Int) (typeName : Option String) (messages enums : List Record) : List UInt8 :=
  let slot := Build.field ⟨"slot", 1, type, typeName, none, false, false⟩
  Build.descriptorSet [Build.file "a.proto" "a" "proto2" []
    (Build.message "Box" [slot] [] [] [] [] :: messages) enums]

theorem comparison_agrees_slot : ∃ old new,
    Registry.parse (slotSet 5 none [Build.message "Lid" [] [] [] [] []] []) = .ok old ∧
    Registry.parse (slotSet 9 none [] []) = .ok new ∧
    ∃ d ∈ (compare .everything new old).diffs, d.kind = .fieldKindChanged ∧
      (∃ name, Concerns old new d name) ∧ ∃ name f g, FoundAt old new d name f g ∧
        ((detectChanges old new).Lists name f.name ∨ TurnedGroup f g) := by
  obtain ⟨old, new, hold, hnew, hdiffs⟩ := exists_ok_of_bind_toOption
    (x := Registry.parse (slotSet 5 none [Build.message "Lid" [] [] [] [] []] []))
    (y := Registry.parse (slotSet 9 none [] []))
    (g := fun old new => (compare .everything new old).diffs.map (·.kind))
    (c := [.fieldKindChanged, .messageDeleted]) (by decide +kernel)
  obtain ⟨d, hd, hkind⟩ := List.mem_map.1
    (by simp [hdiffs] : DiffKind.fieldKindChanged ∈
      (compare .everything new old).diffs.map (·.kind))
  obtain ⟨hconcerns, hfound, -⟩ := comparison_agrees hold hnew
  obtain ⟨⟨name, f, g, hfg⟩, hlists⟩ := hfound d hd hkind
  exact ⟨old, new, hold, hnew, d, hd, hkind, (hconcerns d hd (by simp [hkind, wholeTypeKinds])).1,
    name, f, g, hfg, hlists name f g hfg⟩

/-- The type of a group turns from a message into an enum. The descriptor of the message with the group
stays as it was, and the detector tells of the type alone. -/
theorem turned_group_not_told : ∃ old new,
    Registry.parse (slotSet 10 (some ".a.Lid") [Build.message "Lid" [] [] [] [] []] []) = .ok old ∧
    Registry.parse (slotSet 10 (some ".a.Lid") []
      [Build.enumeration "Lid" [Build.enumValue "ZERO" 0] [] []]) = .ok new ∧
    (detectChanges old new).updated = ["a.Lid"] ∧
    ∃ d ∈ (compare .everything new old).diffs, d.kind = .fieldKindChanged ∧
      Concerns old new d "a.Box" ∧ (∀ name, Concerns old new d name → ¬ ToldOf old new name) ∧
      ∀ name f g, FoundAt old new d name f g → ¬ (detectChanges old new).Lists name f.name := by
  obtain ⟨old, new, hold, hnew, hshape⟩ := exists_ok_of_bind_toOption
    (x := Registry.parse (slotSet 10 (some ".a.Lid") [Build.message "Lid" [] [] [] [] []] []))
    (y := Registry.parse (slotSet 10 (some ".a.Lid") []
      [Build.enumeration "Lid" [Build.enumValue "ZERO" 0] [] []]))
    (g := fun old new => ((compare .everything new old).diffs.map (·.kind),
      (detectChanges old new).updated, new.allMessages.map (·.fullName),
      new.allEnums.map (·.fullName), old.allEnums.map (·.fullName)))
    (c := ([.fieldKindChanged, .messageDeleted], ["a.Lid"], ["a.Box"], ["a.Lid"], []))
    (by decide +kernel)
  simp only [Prod.mk.injEq] at hshape
  obtain ⟨hdiffs, hupdated, hmessages, henums, hold_enums⟩ := hshape
  obtain ⟨d, hd, hkind⟩ := List.mem_map.1
    (by simp [hdiffs] : DiffKind.fieldKindChanged ∈
      (compare .everything new old).diffs.map (·.kind))
  have hmessage : ∀ m ∈ new.allMessages, m.fullName = "a.Box" := by
    intro m hm
    exact List.mem_singleton.1 (hmessages ▸ List.mem_map_of_mem hm)
  have henum : ∀ e ∈ new.allEnums, e.fullName = "a.Lid" := by
    intro e he
    exact List.mem_singleton.1 (henums ▸ List.mem_map_of_mem he)
  have hbox : ∀ name, Concerns old new d name → name = "a.Box" := by
    rintro name (⟨file, -, p, -, -, m, hm, rfl, -⟩ | ⟨file, hfile, p, hp, -⟩)
    · exact hmessage m hm
    · have hp := List.mem_map_of_mem (f := (·.fullName)) (mem_allEnums_of_declares hfile hp)
      rw [hold_enums] at hp
      cases hp
  obtain ⟨name, hconcerns⟩ := exists_concerns (List.mem_of_mem_filter hd)
    (by simp [hkind, wholeTypeKinds])
  obtain rfl := hbox name hconcerns
  refine ⟨old, new, hold, hnew, hupdated, d, hd, hkind, hconcerns, ?_, ?_⟩
  · intro name h
    rw [hbox name h]
    rintro (⟨m, -, -, hmem⟩ | ⟨e, he, hname, -⟩)
    · simp [hupdated] at hmem
    · simp [henum e he] at hname
  · rintro name f g ⟨file, -, p, -, -, -, m, hm, rfl, -⟩ hlists
    have hmem := ChangeSet.mem_updated_of_lists hlists
    change _ ∈ (detectChanges old new).updated at hmem
    simp [hupdated, hmessage m hm] at hmem

end SchemaEvolution.Impact
