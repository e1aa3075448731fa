import SchemaEvolution.Proofs.Protobuf.Described
import SchemaEvolution.Proofs.Protobuf.Retained
import SchemaEvolution.Protobuf.Build

namespace SchemaEvolution.Protobuf

def ScalarKind.wireType : ScalarKind → Nat
  | .int32 | .int64 | .uint32 | .uint64 | .sint32 | .sint64 | .bool => 0
  | .double | .fixed64 | .sfixed64 => 1
  | .string | .bytes => 2
  | .float | .fixed32 | .sfixed32 => 5

/-- The wire type of fields of a declared type. Groups stand between two keys. -/
def wireTypeOf (type : Int) : Nat :=
  if type = groupType then 3
  else if type = messageType then 2
  else if type = enumType then 0
  else ((ScalarKind.numbered.lookup type).getD .double).wireType

def Registry.Typed (r : Registry) : Prop :=
  ∀ m ∈ r.allMessages, ∀ f ∈ m.fields, 1 ≤ f.type ∧ f.type ≤ 18

instance (r : Registry) : Decidable r.Typed := inferInstanceAs (Decidable (∀ _ ∈ _, _))

section Kinds

variable {s t : Int} {typeName typeName' : String} {k : Kind}

theorem lookup_of_typed (hs : 1 ≤ s ∧ s ≤ 18) (hsort : s ∉ [groupType, messageType, enumType]) :
    (s, (ScalarKind.numbered.lookup s).getD .double) ∈ ScalarKind.numbered := by
  cases h : ScalarKind.numbered.lookup s with
  | some k => exact Names.mem_of_lookup_eq_some h
  | none =>
    have hne := List.lookup_eq_none_iff.1 h
    simp [ScalarKind.numbered] at hne
    simp only [groupType, messageType, enumType, List.mem_cons, List.not_mem_nil, or_false] at hsort
    omega

theorem Kind.DeclaredAs.type_eq_iff (hk : k.DeclaredAs s typeName) (hk' : k.DeclaredAs t typeName')
    (hs : 1 ≤ s ∧ s ≤ 18) (ht : 1 ≤ t ∧ t ≤ 18) :
    (s = t ↔ (s = groupType ↔ t = groupType)) ∧
      (wireTypeOf s = wireTypeOf t ↔ (s = groupType ↔ t = groupType)) := by
  cases k with
  | scalar k =>
    have hsk := lookup_of_typed hs hk.2.1
    have htk := lookup_of_typed ht hk'.2.1
    rw [← hk.2.2] at hsk
    rw [← hk'.2.2] at htk
    have hnodup : (ScalarKind.numbered.map (·.2)).Nodup := by decide
    obtain rfl : s = t := congrArg Prod.fst (List.inj_on_of_nodup_map hnodup hsk htk rfl)
    simp
  | message n =>
    obtain ⟨-, rfl | rfl⟩ := hk <;> obtain ⟨-, rfl | rfl⟩ := hk' <;> decide
  | enum n =>
    obtain ⟨-, rfl | rfl⟩ := hk <;> obtain ⟨-, rfl | rfl⟩ := hk' <;> decide

end Kinds

/-- Where no change counts against readers, every field is still there, and its type and its wire type
are the same exactly if it was and is a group or neither was nor is one. -/
theorem encoding_kept_iff {currentBytes previousBytes : List UInt8} {current previous : Registry}
    (hcurrent : Registry.parse currentBytes = .ok current)
    (hprevious : Registry.parse previousBytes = .ok previous)
    (htyped : current.Typed) (htyped' : previous.Typed)
    (hempty : (compare .backward current previous).isEmpty) :
    ∀ file ∈ previous.files, ∀ p, file.Declares p → ∀ f ∈ p.fields,
      ∃ m ∈ current.allMessages, m.fullName = p.fullName ∧
        ∃ g ∈ m.fields, g.number = f.number ∧ (∀ h ∈ m.fields, h.number = f.number → h = g) ∧
          (g.type = f.type ↔ (g.type = groupType ↔ f.type = groupType)) ∧
          (wireTypeOf g.type = wireTypeOf f.type ↔ (g.type = groupType ↔ f.type = groupType)) := by
  intro file hfile p hp f hf
  have hp : p ∈ previous.allMessages :=
    Registry.mem_allMessages.2 ⟨file, hfile, File.mem_allMessages_iff.2 hp⟩
  have hkeeps := compare_backward_isEmpty_iff.1 hempty
  obtain ⟨m, hm, hmp⟩ := hkeeps.messages p hp
  obtain ⟨hm, hname⟩ := Registry.message?_eq_some hm
  obtain ⟨g, hg, hgf⟩ := hmp.fields f hf
  obtain ⟨hg, hnumber⟩ := Message.field?_eq_some hg
  have hgk := (Registry.described_of_parse hcurrent).kinds m hm g hg
  have hfk := (Registry.described_of_parse hprevious).kinds p hp f hf
  rw [← hgf.kind] at hfk
  refine ⟨m, hm, hname, g, hg, hnumber, ?_,
    hgk.type_eq_iff hfk (htyped m hm g hg) (htyped' p hp f hf)⟩
  intro h hh hhnumber
  exact List.inj_on_of_nodup_map ((Registry.distinct_of_parse hcurrent).fields m hm) hh hg
    (hhnumber.trans hnumber.symm)

def partSet (type : Int) (more : List Record) : List UInt8 :=
  let part := Build.field ⟨"part", 4, type, some ".a.Whole.Part", none, false, false⟩
  Build.descriptorSet [Build.file "a.proto" "a" "proto2" []
    (Build.message "Whole" [part] [Build.message "Part" [] [] [] [] []] [] [] [] :: more) []]

def fieldTypes (r : Registry) : List (String × Int × Int) :=
  r.allMessages.flatMap fun m => m.fields.map fun f => (m.fullName, f.number, f.type)

theorem exists_field_of_fieldTypes {r : Registry} {name : String} {number type : Int}
    (h : (name, number, type) ∈ fieldTypes r) : ∃ m ∈ r.allMessages, m.fullName = name ∧
      ∃ f ∈ m.fields, f.number = number ∧ f.type = type := by
  simp only [fieldTypes, List.mem_flatMap, List.mem_map, Prod.mk.injEq] at h
  obtain ⟨m, hm, f, hf, hname, hnumber, htype⟩ := h
  exact ⟨m, hm, hname, f, hf, hnumber, htype⟩

theorem encoding_kept_iff_part : ∃ current previous,
    Registry.parse (partSet 10 [Build.message "More" [] [] [] [] []]) = .ok current ∧
    Registry.parse (partSet 10 []) = .ok previous ∧ current.Typed ∧ previous.Typed ∧
    (compare .backward current previous).isEmpty ∧
    ∃ p ∈ previous.allMessages, p.fullName = "a.Whole" ∧ ∃ f ∈ p.fields, f.type = groupType ∧
      ∃ m ∈ current.allMessages, m.fullName = p.fullName ∧
        ∃ g ∈ m.fields, g.number = f.number ∧
          (g.type = f.type ↔ (g.type = groupType ↔ f.type = groupType)) ∧
          (wireTypeOf g.type = wireTypeOf f.type ↔ (g.type = groupType ↔ f.type = groupType)) := by
  obtain ⟨current, previous, hcurrent, hprevious, hshape⟩ := exists_ok_of_bind_toOption
    (x := Registry.parse (partSet 10 [Build.message "More" [] [] [] [] []]))
    (y := Registry.parse (partSet 10 []))
    (g := fun current previous => decide (current.Typed ∧ previous.Typed ∧
      (compare .backward current previous).isEmpty ∧ fieldTypes previous = [("a.Whole", 4, 10)]))
    (c := true) (by decide +kernel)
  obtain ⟨htyped, htyped', hempty, htypes⟩ := of_decide_eq_true hshape
  obtain ⟨p, hp, hname, f, hf, -, htype⟩ := exists_field_of_fieldTypes
    (htypes ▸ List.mem_singleton_self _)
  obtain ⟨file, hfile, hpf⟩ := Registry.mem_allMessages.1 hp
  obtain ⟨m, hm, hmname, g, hg, hnumber, -, hkept⟩ := encoding_kept_iff hcurrent hprevious htyped
    htyped' hempty file hfile p (File.mem_allMessages_iff.1 hpf) f hf
  exact ⟨current, previous, hcurrent, hprevious, htyped, htyped', hempty, p, hp, hname, f, hf,
    htype, m, hm, hmname, g, hg, hnumber, hkept⟩

/-- A group becomes a message, which is written differently, and no change is found. -/
theorem group_becomes_message : ∃ current previous,
    Registry.parse (partSet 11 []) = .ok current ∧ Registry.parse (partSet 10 []) = .ok previous ∧
    current.Typed ∧ previous.Typed ∧ (compare .backward current previous).isEmpty ∧
    ∃ p ∈ previous.allMessages, ∃ f ∈ p.fields, ∃ m ∈ current.allMessages,
      m.fullName = p.fullName ∧ ∃ g ∈ m.fields, g.number = f.number ∧
        f.type = groupType ∧ g.type = messageType ∧ wireTypeOf f.type ≠ wireTypeOf g.type := by
  obtain ⟨current, previous, hcurrent, hprevious, hshape⟩ := exists_ok_of_bind_toOption
    (x := Registry.parse (partSet 11 [])) (y := Registry.parse (partSet 10 []))
    (g := fun current previous => decide (current.Typed ∧ previous.Typed ∧
      (compare .backward current previous).isEmpty ∧ fieldTypes current = [("a.Whole", 4, 11)] ∧
      fieldTypes previous = [("a.Whole", 4, 10)]))
    (c := true) (by decide +kernel)
  obtain ⟨htyped, htyped', hempty, hcurrentTypes, hpreviousTypes⟩ := of_decide_eq_true hshape
  obtain ⟨p, hp, hpname, f, hf, hfnumber, hftype⟩ :=
    exists_field_of_fieldTypes (hpreviousTypes ▸ List.mem_singleton_self _)
  obtain ⟨m, hm, hmname, g, hg, hgnumber, hgtype⟩ :=
    exists_field_of_fieldTypes (hcurrentTypes ▸ List.mem_singleton_self _)
  refine ⟨current, previous, hcurrent, hprevious, htyped, htyped', hempty, p, hp, f, hf, m, hm,
    hmname.trans hpname.symm, g, hg, hgnumber.trans hfnumber.symm, hftype, hgtype, ?_⟩
  rw [hftype, hgtype]
  decide

end SchemaEvolution.Protobuf
