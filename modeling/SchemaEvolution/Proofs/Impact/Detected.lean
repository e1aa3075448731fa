import SchemaEvolution.Impact.Detect
import SchemaEvolution.Proofs.Impact.Changes
import SchemaEvolution.Proofs.Protobuf.Described
import SchemaEvolution.Proofs.Protobuf.Retained
import SchemaEvolution.Protobuf.Build

namespace SchemaEvolution

open Protobuf

/-- A message is declared in another one, at some depth. -/
inductive Protobuf.Message.Encloses : Message → Message → Prop
  | child {m c : Message} : c ∈ m.children → m.Encloses c
  | deeper {m c n : Message} : c ∈ m.children → c.Encloses n → m.Encloses n

namespace Protobuf.Registry

structure Accepted (r : Registry) : Prop where
  distinct : r.Distinct
  closed : r.Closed
  described : r.Described

theorem accepted_of_parse {bytes : List UInt8} {r : Registry} (h : parse bytes = .ok r) :
    r.Accepted :=
  ⟨distinct_of_parse h, closed_of_parse h, described_of_parse h⟩

/-- A message of the same name is described in the same way. -/
def Matches (r : Registry) (m : Message) : Prop :=
  ∃ f ∈ r.files, ∃ n, f.Declares n ∧ n.fullName = m.fullName ∧ n.descriptor = m.descriptor

def MatchesEnum (r : Registry) (e : EnumType) : Prop :=
  ∃ f ∈ r.files, ∃ d, f.DeclaresEnum d ∧ d.fullName = e.fullName ∧ d.descriptor = e.descriptor

theorem mem_allMessages_of_declares {r : Registry} {f : File} (hf : f ∈ r.files) {m : Message}
    (h : f.Declares m) : m ∈ r.allMessages :=
  mem_allMessages.2 ⟨f, hf, File.mem_allMessages_iff.2 h⟩

theorem mem_allEnums_of_declares {r : Registry} {f : File} (hf : f ∈ r.files) {e : EnumType}
    (h : f.DeclaresEnum e) : e ∈ r.allEnums :=
  mem_allEnums.2 ⟨f, hf, File.mem_allEnums_iff.2 h⟩

def topEnums (r : Registry) : List EnumType := r.files.flatMap (·.enums)

theorem mem_allEnums_of_top {r : Registry} {e : EnumType} (h : e ∈ r.topEnums) :
    e ∈ r.allEnums := by
  obtain ⟨f, hf, he⟩ := List.mem_flatMap.1 h
  exact mem_allEnums.2 ⟨f, hf, List.mem_append_left _ he⟩

theorem mem_allEnums_of_nested {r : Registry} {m : Message} (hm : m ∈ r.allMessages)
    {e : EnumType} (he : e ∈ m.enums) : e ∈ r.allEnums := by
  obtain ⟨f, hf, hm⟩ := mem_allMessages.1 hm
  exact mem_allEnums.2 ⟨f, hf, List.mem_append_right _ (List.mem_flatMap.2 ⟨m, hm, he⟩)⟩

theorem mem_topEnums_or_nested {r : Registry} {e : EnumType} (h : e ∈ r.allEnums) :
    e ∈ r.topEnums ∨ ∃ m ∈ r.allMessages, e ∈ m.enums := by
  obtain ⟨f, hf, he⟩ := mem_allEnums.1 h
  apply (List.mem_append.1 he).imp (fun he => List.mem_flatMap.2 ⟨f, hf, he⟩)
  intro he
  obtain ⟨m, hm, he⟩ := List.mem_flatMap.1 he
  exact ⟨m, mem_allMessages.2 ⟨f, hf, hm⟩, he⟩

theorem mem_allMessages_of_child {r : Registry} {m c : Message} (hm : m ∈ r.allMessages)
    (hc : c ∈ m.children) : c ∈ r.allMessages := by
  obtain ⟨f, hf, hm⟩ := mem_allMessages.1 hm
  exact mem_allMessages.2 ⟨f, hf, child_mem_walkAll hc f.messages hm⟩

theorem exists_mem_and_iff {α β : Type} {xs : List α} {R : α → β → Prop} {P : β → Prop} :
    (∃ a ∈ xs, ∃ b, R a b ∧ P b) ↔ ∃ b, (∃ a ∈ xs, R a b) ∧ P b := by
  constructor
  · rintro ⟨a, ha, b, hab, hb⟩
    exact ⟨b, ⟨a, ha, hab⟩, hb⟩
  · rintro ⟨b, ⟨a, ha, hab⟩, hb⟩
    exact ⟨a, ha, b, hab, hb⟩

section Matching

variable {old new : Registry} {m : Message} {e : EnumType}

theorem matches_iff : old.Matches m ↔
    ∃ n ∈ old.allMessages, n.fullName = m.fullName ∧ n.descriptor = m.descriptor := by
  simp only [Matches, mem_allMessages, File.mem_allMessages_iff]
  exact exists_mem_and_iff

theorem matchesEnum_iff : old.MatchesEnum e ↔
    ∃ d ∈ old.allEnums, d.fullName = e.fullName ∧ d.descriptor = e.descriptor := by
  simp only [MatchesEnum, mem_allEnums, File.mem_allEnums_iff]
  exact exists_mem_and_iff

theorem Distinct.message?_eq_some_iff (h : old.Distinct) {name : String} :
    old.message? name = some m ↔ m ∈ old.allMessages ∧ m.fullName = name :=
  ⟨message?_eq_some, fun hm => hm.2 ▸ h.message?_eq hm.1⟩

theorem Distinct.enum?_eq_some_iff (h : old.Distinct) {name : String} :
    old.enum? name = some e ↔ e ∈ old.allEnums ∧ e.fullName = name :=
  ⟨enum?_eq_some, fun he => he.2 ▸ h.enum?_eq he.1⟩

theorem Distinct.message_eq (h : old.Distinct) {n : Message} (hm : m ∈ old.allMessages)
    (hn : n ∈ old.allMessages) (hname : m.fullName = n.fullName) : m = n :=
  List.inj_on_of_nodup_map h.messageNames hm hn hname

theorem Distinct.enum_eq (h : old.Distinct) {d : EnumType} (hd : d ∈ old.allEnums)
    (he : e ∈ old.allEnums) (hname : d.fullName = e.fullName) : d = e :=
  List.inj_on_of_nodup_map h.enumNames hd he hname

theorem Distinct.message_ne_enum (h : old.Distinct) (hm : m ∈ old.allMessages)
    (he : e ∈ old.allEnums) : m.fullName ≠ e.fullName := by
  intro hname
  have hnone := h.message?_eq_none_of_enum he
  rw [← hname, h.message?_eq hm] at hnone
  cases hnone

theorem Matches.child (h : old.Matches m) (ho : old.Described) (hn : new.Described)
    (hm : m ∈ new.allMessages) {c : Message} (hc : c ∈ m.children) : old.Matches c := by
  obtain ⟨p, hp, hname, hdescriptor⟩ := matches_iff.1 h
  obtain ⟨d, hd, hdc⟩ := (hn.messages m hm).exists_child (ho.messages p hp) hname.symm
    hdescriptor.symm hc
  exact matches_iff.2 ⟨d, mem_allMessages_of_child hp hd, hdc⟩

theorem Matches.enclosed (h : old.Matches m) (ho : old.Described) (hn : new.Described)
    (hm : m ∈ new.allMessages) {n : Message} (hmn : m.Encloses n) :
    n ∈ new.allMessages ∧ old.Matches n := by
  induction hmn with
  | child hc => exact ⟨mem_allMessages_of_child hm hc, h.child ho hn hm hc⟩
  | deeper hc _ ih => exact ih (h.child ho hn hm hc) (mem_allMessages_of_child hm hc)

theorem Matches.enum (h : old.Matches m) (ho : old.Described) (hn : new.Described)
    (hm : m ∈ new.allMessages) (he : e ∈ m.enums) : e ∈ old.allEnums := by
  obtain ⟨p, hp, hname, hdescriptor⟩ := matches_iff.1 h
  rw [← (ho.messages p hp).enums_eq (hn.messages m hm) hname hdescriptor] at he
  exact mem_allEnums_of_nested hp he

theorem MatchesEnum.mem (h : old.MatchesEnum e) (ho : old.Described) (hn : new.Described)
    (he : e ∈ new.allEnums) : e ∈ old.allEnums := by
  obtain ⟨d, hd, hname, hdescriptor⟩ := matchesEnum_iff.1 h
  exact ho.enum_eq hn hd he hname hdescriptor ▸ hd

end Matching

end Protobuf.Registry

namespace Impact

open Registry

section Changes

variable {old new : Registry} {m : Message} {e : EnumType} {change : String × List String}

theorem messageChange?_eq_some_iff (ho : old.Distinct) : messageChange? old m = some change ↔
    ¬ old.Matches m ∧ change = (m.fullName, messageMembers m (old.message? m.fullName)) := by
  have hmatches : old.Matches m ↔
      ∃ p, old.message? m.fullName = some p ∧ p.descriptor = m.descriptor := by
    simp only [matches_iff, ho.message?_eq_some_iff, and_assoc]
  rw [messageChange?, hmatches]
  cases old.message? m.fullName with
  | none => simp [eq_comm]
  | some p =>
    simp only [Option.some.injEq, exists_eq_left', ← Record.equal_iff]
    by_cases h : p.descriptor.equal m.descriptor
    · simp [h]
    · simp [h, eq_comm]

theorem enumChange?_eq_some_iff (ho : old.Distinct) : enumChange? old e = some change ↔
    ¬ old.MatchesEnum e ∧ change = (e.fullName, enumMembers e (old.enum? e.fullName)) := by
  have hmatches : old.MatchesEnum e ↔
      ∃ d, old.enum? e.fullName = some d ∧ d.descriptor = e.descriptor := by
    simp only [matchesEnum_iff, ho.enum?_eq_some_iff, and_assoc]
  rw [enumChange?, hmatches]
  cases old.enum? e.fullName with
  | none => simp [eq_comm]
  | some d =>
    simp only [Option.some.injEq, exists_eq_left', ← Record.equal_iff]
    by_cases h : d.descriptor.equal e.descriptor
    · simp [h]
    · simp [h, eq_comm]

theorem mem_changes_iff (ho : old.Distinct) :
    change ∈ new.allMessages.filterMap (messageChange? old) ++
        new.topEnums.filterMap (enumChange? old) ↔
      (∃ m ∈ new.allMessages, ¬ old.Matches m ∧
        change = (m.fullName, messageMembers m (old.message? m.fullName))) ∨
      ∃ e ∈ new.topEnums, ¬ old.MatchesEnum e ∧
        change = (e.fullName, enumMembers e (old.enum? e.fullName)) := by
  simp only [List.mem_append, List.mem_filterMap, messageChange?_eq_some_iff ho,
    enumChange?_eq_some_iff ho]

theorem mem_updated_iff (ho : old.Distinct) {name : String} :
    name ∈ (detectChanges old new).updated ↔
      (∃ m ∈ new.allMessages, m.fullName = name ∧ ¬ old.Matches m) ∨
      ∃ e ∈ new.topEnums, e.fullName = name ∧ ¬ old.MatchesEnum e := by
  rw [detectChanges, ChangeSet.mem_updated_ofList, List.mem_map]
  constructor
  · rintro ⟨change, hchange, rfl⟩
    obtain ⟨m, hm, hmatches, rfl⟩ | ⟨e, he, hmatches, rfl⟩ := (mem_changes_iff ho).1 hchange
    · exact .inl ⟨m, hm, rfl, hmatches⟩
    · exact .inr ⟨e, he, rfl, hmatches⟩
  · rintro (⟨m, hm, rfl, hmatches⟩ | ⟨e, he, rfl, hmatches⟩)
    · exact ⟨_, (mem_changes_iff ho).2 (.inl ⟨m, hm, hmatches, rfl⟩), rfl⟩
    · exact ⟨_, (mem_changes_iff ho).2 (.inr ⟨e, he, hmatches, rfl⟩), rfl⟩

theorem message_mem_updated_iff (ho : old.Distinct) (hn : new.Distinct) (hm : m ∈ new.allMessages) :
    m.fullName ∈ (detectChanges old new).updated ↔ ¬ old.Matches m := by
  rw [mem_updated_iff ho]
  constructor
  · -- no other type of the new set has the name
    rintro (⟨n, hnm, hname, hmatches⟩ | ⟨e, he, hname, -⟩)
    · exact hn.message_eq hnm hm hname ▸ hmatches
    · exact absurd hname.symm (hn.message_ne_enum hm (mem_allEnums_of_top he))
  · intro hmatches
    exact .inl ⟨m, hm, rfl, hmatches⟩

theorem topEnum_mem_updated_iff (ho : old.Distinct) (hn : new.Distinct) (he : e ∈ new.topEnums) :
    e.fullName ∈ (detectChanges old new).updated ↔ ¬ old.MatchesEnum e := by
  rw [mem_updated_iff ho]
  constructor
  · rintro (⟨m, hm, hname, -⟩ | ⟨d, hd, hname, hmatches⟩)
    · exact absurd hname (hn.message_ne_enum hm (mem_allEnums_of_top he))
    · exact hn.enum_eq (mem_allEnums_of_top hd) (mem_allEnums_of_top he) hname ▸ hmatches
  · intro hmatches
    exact .inr ⟨e, he, rfl, hmatches⟩

theorem enum_mem_or_updated (ho : old.Accepted) (hn : new.Accepted) (he : e ∈ new.allEnums) :
    e ∈ old.allEnums ∨
      (e ∈ new.topEnums ∧ e.fullName ∈ (detectChanges old new).updated) ∨
      ∃ m ∈ new.allMessages, e ∈ m.enums ∧ m.fullName ∈ (detectChanges old new).updated := by
  obtain htop | ⟨m, hm, hem⟩ := mem_topEnums_or_nested he
  · rw [topEnum_mem_updated_iff ho.distinct hn.distinct htop]
    by_cases h : old.MatchesEnum e
    · exact .inl (h.mem ho.described hn.described he)
    · exact .inr (.inl ⟨htop, h⟩)
  · by_cases h : old.Matches m
    · exact .inl (h.enum ho.described hn.described hm hem)
    · exact .inr (.inr ⟨m, hm, hem, (message_mem_updated_iff ho.distinct hn.distinct hm).2 h⟩)

end Changes

theorem isEmpty_detectChanges_iff {old new : Registry} (ho : old.Accepted) (hn : new.Accepted) :
    (detectChanges old new).isEmpty ↔
      (∀ m ∈ new.allMessages, old.Matches m) ∧ ∀ e ∈ new.allEnums, old.MatchesEnum e := by
  rw [ChangeSet.isEmpty, List.isEmpty_iff, List.eq_nil_iff_forall_not_mem]
  constructor
  · intro h
    refine ⟨?_, ?_⟩
    · intro m hm
      by_contra hmatches
      exact h _ ((message_mem_updated_iff ho.distinct hn.distinct hm).2 hmatches)
    · intro e he
      obtain hmem | ⟨-, hupdated⟩ | ⟨m, -, -, hupdated⟩ := enum_mem_or_updated ho hn he
      · exact matchesEnum_iff.2 ⟨e, hmem, rfl, rfl⟩
      · exact absurd hupdated (h _)
      · exact absurd hupdated (h _)
  · rintro ⟨hmessages, henums⟩ name hname
    obtain ⟨m, hm, -, hmatches⟩ | ⟨e, he, -, hmatches⟩ := (mem_updated_iff ho.distinct).1 hname
    · exact hmatches (hmessages m hm)
    · exact hmatches (henums e (mem_allEnums_of_top he))

/-- The types told of are, once each, the messages at any depth and the enums at top level that the
old set does not describe in the same way. With a message come the messages around it, and where no
type is told of everything is described as before, the enums within messages too. -/
theorem updated_complete {oldBytes newBytes : List UInt8} {old new : Registry}
    (hold : Registry.parse oldBytes = .ok old) (hnew : Registry.parse newBytes = .ok new) :
    (detectChanges old new).updated.Nodup ∧
    (∀ name, name ∈ (detectChanges old new).updated ↔
      (∃ f ∈ new.files, ∃ m, f.Declares m ∧ m.fullName = name ∧ ¬ old.Matches m) ∨
      ∃ f ∈ new.files, ∃ e ∈ f.enums, e.fullName = name ∧ ¬ old.MatchesEnum e) ∧
    (∀ f ∈ new.files, ∀ m n, f.Declares m → m.Encloses n →
      n.fullName ∈ (detectChanges old new).updated →
        m.fullName ∈ (detectChanges old new).updated) ∧
    ((detectChanges old new).isEmpty ↔ ∀ f ∈ new.files,
      (∀ m, f.Declares m → old.Matches m) ∧ ∀ e, f.DeclaresEnum e → old.MatchesEnum e) := by
  have ho := accepted_of_parse hold
  have hn := accepted_of_parse hnew
  refine ⟨(ChangeSet.coherent_ofList _).nodup, ?_, ?_, ?_⟩
  · intro name
    rw [mem_updated_iff ho.distinct]
    simp only [mem_allMessages, File.mem_allMessages_iff, topEnums, List.mem_flatMap]
    apply or_congr
    · exact exists_mem_and_iff.symm
    · exact exists_mem_and_iff.symm
  · intro f hf m n hm hmn hupdated
    have hm := mem_allMessages_of_declares hf hm
    rw [message_mem_updated_iff ho.distinct hn.distinct hm]
    intro hmatches
    obtain ⟨hnew, hn'⟩ := hmatches.enclosed ho.described hn.described hm hmn
    exact (message_mem_updated_iff ho.distinct hn.distinct hnew).1 hupdated hn'
  · rw [isEmpty_detectChanges_iff ho hn]
    constructor
    · intro h f hf
      constructor
      · intro m hm
        exact h.1 m (mem_allMessages_of_declares hf hm)
      · intro e he
        exact h.2 e (mem_allEnums_of_declares hf he)
    · refine fun h => ⟨?_, ?_⟩
      · intro m hm
        obtain ⟨f, hf, hm⟩ := mem_allMessages.1 hm
        exact (h f hf).1 m (File.mem_allMessages_iff.1 hm)
      · intro e he
        obtain ⟨f, hf, he⟩ := mem_allEnums.1 he
        exact (h f hf).2 e (File.mem_allEnums_iff.1 he)

def dialSet (modes : List String) : List UInt8 :=
  let mode := Build.enumeration "Mode" (modes.zipIdx.map fun v => Build.enumValue v.1 v.2) [] []
  Build.descriptorSet [Build.file "a.proto" "a" Build.usualEdition [] [
    Build.message "Dial" [] [Build.message "Knob" [] [] [mode] [] []] [] [] [],
    Build.message "Light" [] [] [] [] []] []]

theorem updated_complete_dial : ∃ old new, Registry.parse (dialSet ["OFF"]) = .ok old ∧
    Registry.parse (dialSet ["OFF", "ON"]) = .ok new ∧
    (detectChanges old new).updated = ["a.Dial", "a.Dial.Knob"] ∧
    (detectChanges old new).updated.Nodup ∧
    (∃ f ∈ new.files, ∃ m, f.Declares m ∧ m.fullName = "a.Dial.Knob" ∧ ¬ old.Matches m) ∧
    ¬ ∀ f ∈ new.files, (∀ m, f.Declares m → old.Matches m) ∧
      ∀ e, f.DeclaresEnum e → old.MatchesEnum e := by
  obtain ⟨old, new, hold, hnew, hshape⟩ := exists_ok_of_bind_toOption
    (x := Registry.parse (dialSet ["OFF"])) (y := Registry.parse (dialSet ["OFF", "ON"]))
    (g := fun old new =>
      ((detectChanges old new).updated, new.files.flatMap fun f => f.enums.map (·.fullName)))
    (c := (["a.Dial", "a.Dial.Knob"], [])) (by decide +kernel)
  obtain ⟨hupdated, htop⟩ := Prod.mk.inj hshape
  obtain ⟨hnodup, hmem, -, hempty⟩ := updated_complete hold hnew
  refine ⟨old, new, hold, hnew, hupdated, hnodup, ?_, ?_⟩
  · -- the file has no enum at top level
    obtain hknob | ⟨f, hf, e, he, -⟩ := (hmem "a.Dial.Knob").1 (by simp [hupdated])
    · exact hknob
    · have hmem : e.fullName ∈ new.files.flatMap fun f => f.enums.map (·.fullName) :=
        List.mem_flatMap.2 ⟨f, hf, List.mem_map_of_mem he⟩
      simp [htop] at hmem
  · rw [← hempty, ChangeSet.isEmpty, hupdated]
    decide

end Impact

end SchemaEvolution
