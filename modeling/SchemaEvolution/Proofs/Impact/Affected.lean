import SchemaEvolution.Proofs.Impact.Changes
import SchemaEvolution.Proofs.Impact.Graph
import SchemaEvolution.Proofs.Protobuf.Resolved
import SchemaEvolution.Protobuf.Build

namespace SchemaEvolution

open Protobuf

/-- A type depends on itself and, if it is a message, on what the messages in its fields depend on. -/
inductive Protobuf.Registry.DependsOn (r : Registry) : String → String → Prop
  | refl (name : String) : r.DependsOn name name
  | field {m : Message} {f : Field} {inner name : String} : m ∈ r.allMessages → f ∈ m.fields →
    f.kind = .message inner → r.DependsOn inner name → r.DependsOn m.fullName name

namespace Impact

variable {r : Registry}

@[simp] theorem withoutDot?_dot (name : String) : withoutDot? ("." ++ name) = some name := by
  simp [withoutDot?, String.toList_append]

theorem knownType_of_isMessage {n : Int} (h : n = messageType ∨ n = groupType) :
    knownType n = n := by
  rcases h with rfl | rfl <;> decide

theorem isMessage_knownType_iff {n : Int} :
    (knownType n = messageType ∨ knownType n = groupType) ↔ n = messageType ∨ n = groupType := by
  constructor
  · intro h
    unfold knownType at h
    split at h
    · exact h
    · exact absurd h (by decide)
  · intro h
    rwa [knownType_of_isMessage h]

theorem referencedMessage?_eq_some_iff (hd : r.Distinct) (hc : r.Closed) {m : Message}
    (hm : m ∈ r.allMessages) {f : Field} (hf : f ∈ m.fields) {name : String} :
    referencedMessage? r f = some name ↔ f.kind = .message name := by
  have hdescribes := hc.descriptors m hm f hf
  have hnames := hc.kinds m hm f hf
  cases hk : f.kind with
  | scalar k =>
    simp only [Field.Describes, hk] at hdescribes
    simp [referencedMessage?, hdescribes, withoutDot?]
  | message n =>
    simp only [Field.Describes, hk] at hdescribes
    rw [hk] at hnames
    obtain ⟨target, htarget, rfl⟩ := hnames
    simp [referencedMessage?, isMessage_knownType_iff, hdescribes, hd.message?_eq htarget]
  | enum n =>
    simp only [Field.Describes, hk] at hdescribes
    rw [hk] at hnames
    obtain ⟨target, htarget, rfl⟩ := hnames
    simp [referencedMessage?, hdescribes, hd.message?_eq_none_of_enum htarget]

theorem mem_dependents_ofRegistry (hd : r.Distinct) (hc : r.Closed) {referenced referencing : String} :
    referencing ∈ (Graph.ofRegistry r).dependents referenced ↔
      ∃ m ∈ r.allMessages, m.fullName = referencing ∧
        ∃ f ∈ m.fields, f.kind = .message referenced := by
  rw [Graph.ofRegistry, Graph.mem_dependents_ofEdges]
  simp only [List.mem_flatMap, List.mem_filterMap, Option.map_eq_some_iff, Prod.mk.injEq]
  apply exists_congr
  intro m
  apply and_congr_right
  intro hm
  constructor
  · rintro ⟨f, hf, n, hn, rfl, rfl⟩
    exact ⟨rfl, f, hf, (referencedMessage?_eq_some_iff hd hc hm hf).1 hn⟩
  · rintro ⟨rfl, f, hf, hk⟩
    exact ⟨f, hf, referenced, (referencedMessage?_eq_some_iff hd hc hm hf).2 hk, rfl, rfl⟩

theorem mem_impactedBy_ofRegistry (hd : r.Distinct) (hc : r.Closed) {name n : String} :
    n ∈ (Graph.ofRegistry r).impactedBy name ↔ r.DependsOn n name := by
  rw [Graph.mem_impactedBy_iff]
  constructor
  · intro h
    induction h with
    | start h => rw [List.mem_singleton.1 h]; exact .refl name
    | step _ hy ih =>
      obtain ⟨m, hm, rfl, f, hf, hk⟩ := (mem_dependents_ofRegistry hd hc).1 hy
      exact .field hm hf hk ih
  · intro h
    induction h with
    | refl name => exact .start (List.mem_singleton_self name)
    | field hm hf hk _ ih =>
      exact .step ih ((mem_dependents_ofRegistry hd hc).2 ⟨_, hm, rfl, _, hf, hk⟩)

theorem identifyChange_of_parse {q : ChangeRequest} {old new : Registry} (hdata : q.old ≠ [])
    (hold : Registry.parse q.old = .ok old) (hnew : Registry.parse q.new = .ok new) :
    identifyChange q = .ok (.of q old new) := by
  have hempty : q.old.isEmpty = false := by simpa [List.isEmpty_eq_false_iff] using hdata
  simp [identifyChange, hempty, hold, hnew]

/-- The tables of an event have one entry for each changed type, and with it stands everything that
depends on the type, in increasing order. -/
theorem impacted_iff_dependsOn {q : ChangeRequest} {old new : Registry} (hdata : q.old ≠ [])
    (hold : Registry.parse q.old = .ok old) (hnew : Registry.parse q.new = .ok new) :
    ∃ e, identifyChange q = .ok e ∧ e.changes.updated.Nodup ∧
      (e.changes.members.map (·.1)).Perm e.changes.updated ∧
      (e.impacted.map (·.1)).Perm e.changes.updated ∧
      ∀ name ∈ e.changes.updated, ∃ names, Names.find? name e.impacted = some names ∧
        names.Pairwise (· < ·) ∧ ∀ n, n ∈ names ↔ new.DependsOn n name := by
  have hcoherent := ChangeSet.coherent_ofList (new.allMessages.filterMap (messageChange? old) ++
    (new.files.flatMap (·.enums)).filterMap (enumChange? old))
  refine ⟨_, identifyChange_of_parse hdata hold hnew, hcoherent.nodup, hcoherent.keys_perm,
    keys_impactOf_perm hcoherent.nodup, ?_⟩
  intro name hname
  refine ⟨_, find?_impactOf hname, Graph.sorted_impactedBy _ _, fun n => ?_⟩
  exact mem_impactedBy_ofRegistry (Registry.distinct_of_parse hnew) (Registry.closed_of_parse hnew)

def forestSet (leafFields : List String) : List UInt8 :=
  let text (name : String) (n : Nat) : Record :=
    Build.field ⟨name, n + 1, 9, none, none, false, false⟩
  let ref (name : String) (n : Int) (type : String) : Record :=
    Build.field ⟨name, n, messageType, some type, none, true, false⟩
  Build.descriptorSet [Build.file "a.proto" "a" Build.usualEdition [] [
    Build.message "Leaf" (leafFields.zipIdx.map fun f => text f.1 f.2) [] [] [] [],
    Build.message "Tree" [ref "branches" 1 ".a.Tree", ref "leaves" 2 ".a.Leaf"] [] [] [] [],
    Build.message "Forest" [ref "rows" 1 ".a.Forest.Row"]
      [Build.message "Row" [ref "trees" 1 ".a.Tree"] [] [] [] []] [] [] []] []]

def leafChange : ChangeRequest := ⟨"n", "s", 2, forestSet ["text"], forestSet ["text", "size"]⟩

theorem exists_parse_of_identifyChange {q : ChangeRequest} {e : Event}
    (h : identifyChange q = .ok e) : q.old ≠ [] ∧ ∃ old new,
      Registry.parse q.old = .ok old ∧ Registry.parse q.new = .ok new := by
  unfold identifyChange at h
  split at h
  · cases h
  next hempty =>
    refine ⟨by simpa [List.isEmpty_iff] using hempty, ?_⟩
    split at h
    · cases h
    next old hold =>
      split at h
      · cases h
      next new hnew => exact ⟨old, new, hold, hnew⟩

theorem impacted_iff_dependsOn_leaf : ∃ old new e, Registry.parse leafChange.old = .ok old ∧
    Registry.parse leafChange.new = .ok new ∧ identifyChange leafChange = .ok e ∧
      e.changes.updated = ["a.Leaf"] ∧ ∃ names, Names.find? "a.Leaf" e.impacted = some names ∧
        names.Pairwise (· < ·) ∧ ∀ n, n ∈ names ↔ new.DependsOn n "a.Leaf" := by
  obtain ⟨e, he, hupdated⟩ : ∃ e, identifyChange leafChange = .ok e ∧
      e.changes.updated = ["a.Leaf"] := exists_ok_of_map_toOption (by decide +kernel)
  obtain ⟨hdata, old, new, hold, hnew⟩ := exists_parse_of_identifyChange he
  obtain ⟨e', he', -, -, -, himpacted⟩ := impacted_iff_dependsOn hdata hold hnew
  cases he.symm.trans he'
  exact ⟨old, new, e, hold, hnew, he, hupdated,
    himpacted "a.Leaf" (hupdated ▸ List.mem_singleton_self _)⟩

theorem dependsOn_enum_iff (hd : r.Distinct) (hc : r.Closed) {e : EnumType} (he : e ∈ r.allEnums)
    {n : String} : r.DependsOn n e.fullName ↔ n = e.fullName := by
  constructor
  · intro h
    generalize hname : e.fullName = name at h
    induction h with
    | refl name => rfl
    | field hm hf hk _ ih =>
      -- the field would be a message of the name of the enum
      have hnames := hc.kinds _ hm _ hf
      rw [hk, ih hname] at hnames
      obtain ⟨m, hm, hmname⟩ := hnames
      have hnone := hd.message?_eq_none_of_enum he
      rw [hname, ← hmname, hd.message?_eq hm] at hnone
      cases hnone
  · rintro rfl
    exact .refl _

theorem find?_impactOf_enum (hd : r.Distinct) (hc : r.Closed) {changes : ChangeSet} {e : EnumType}
    (he : e ∈ r.allEnums) (hupdated : e.fullName ∈ changes.updated) :
    Names.find? e.fullName (impactOf (.ofRegistry r) changes) = some [e.fullName] := by
  rw [find?_impactOf hupdated, Option.some_inj]
  have hnodup := (Graph.sorted_impactedBy (.ofRegistry r) e.fullName).imp String.ne_of_lt
  refine List.perm_singleton.1 ((List.perm_ext_iff_of_nodup hnodup (List.nodup_singleton _)).2 ?_)
  intro n
  rw [mem_impactedBy_ofRegistry hd hc, dependsOn_enum_iff hd hc he, List.mem_singleton]

/-- A changed enum impacts itself and no message. -/
theorem impacted_enum_eq_self {q : ChangeRequest} {old new : Registry} (hdata : q.old ≠ [])
    (hold : Registry.parse q.old = .ok old) (hnew : Registry.parse q.new = .ok new) :
    ∃ e, identifyChange q = .ok e ∧ ∀ f ∈ new.files, ∀ c ∈ f.enums,
      c.fullName ∈ e.changes.updated →
        Names.find? c.fullName e.impacted = some [c.fullName] := by
  refine ⟨_, identifyChange_of_parse hdata hold hnew, ?_⟩
  intro f hf c hcf hupdated
  have hc : c ∈ new.allEnums := Registry.mem_allEnums.2 ⟨f, hf, List.mem_append_left _ hcf⟩
  exact find?_impactOf_enum (Registry.distinct_of_parse hnew) (Registry.closed_of_parse hnew) hc
    hupdated

def wallSet (colors : List String) : List UInt8 :=
  let ref (name : String) (type : Int) (typeName : String) : Record :=
    Build.field ⟨name, 1, type, some typeName, none, false, false⟩
  let values := colors.zipIdx.map fun c => Build.enumValue c.1 c.2
  Build.descriptorSet [Build.file "a.proto" "a" Build.usualEdition [] [
    Build.message "Paint" [ref "color" enumType ".a.Color"] [] [] [] [],
    Build.message "Wall" [ref "paint" messageType ".a.Paint"] [] [] [] []]
    [Build.enumeration "Color" values [] []]]

def colorChange : ChangeRequest := ⟨"n", "s", 2, wallSet ["WHITE"], wallSet ["WHITE", "RED"]⟩

theorem exists_parse_colorChange : ∃ old new, Registry.parse colorChange.old = .ok old ∧
    Registry.parse colorChange.new = .ok new ∧
    identifyChange colorChange = .ok (.of colorChange old new) ∧
    (Event.of colorChange old new).changes.updated = ["a.Color"] ∧
    (∃ f ∈ new.files, ∃ c ∈ f.enums, c.fullName = "a.Color") ∧
    ∃ m ∈ new.allMessages, m.fullName = "a.Paint" ∧
      ∃ f ∈ m.fields, f.kind = .enum "a.Color" := by
  obtain ⟨e, he, hupdated⟩ : ∃ e, identifyChange colorChange = .ok e ∧
      e.changes.updated = ["a.Color"] := exists_ok_of_map_toOption (by decide +kernel)
  obtain ⟨hdata, old, new, hold, hnew⟩ := exists_parse_of_identifyChange he
  cases he.symm.trans (identifyChange_of_parse hdata hold hnew)
  obtain ⟨new', hnew', hshape⟩ := exists_ok_of_map_toOption (x := Registry.parse colorChange.new)
    (g := fun r => ((r.files.flatMap (·.enums)).map (·.fullName),
      r.allMessages.map fun m => (m.fullName, m.fields.map (·.kind))))
    (b := (["a.Color"], [("a.Paint", [.enum "a.Color"]), ("a.Wall", [.message "a.Paint"])]))
    (by decide +kernel)
  rw [Prod.mk.injEq] at hshape
  cases hnew.symm.trans hnew'
  have hcolor : "a.Color" ∈ (new.files.flatMap (·.enums)).map (·.fullName) := by simp [hshape.1]
  have hpaint : ("a.Paint", [Kind.enum "a.Color"]) ∈
      new.allMessages.map fun m => (m.fullName, m.fields.map (·.kind)) := by simp [hshape.2]
  obtain ⟨c, hc, hcname⟩ := List.mem_map.1 hcolor
  obtain ⟨f, hf, hcf⟩ := List.mem_flatMap.1 hc
  obtain ⟨m, hm, hmname⟩ := List.mem_map.1 hpaint
  obtain ⟨hmname, hkinds⟩ := Prod.mk.inj hmname
  have hkind : Kind.enum "a.Color" ∈ m.fields.map (·.kind) := by simp [hkinds]
  exact ⟨old, new, hold, hnew, he, hupdated, ⟨f, hf, c, hcf, hcname⟩, m, hm, hmname,
    List.mem_map.1 hkind⟩

theorem impacted_enum_eq_self_color : ∃ old new e, Registry.parse colorChange.old = .ok old ∧
    Registry.parse colorChange.new = .ok new ∧ identifyChange colorChange = .ok e ∧
      "a.Color" ∈ e.changes.updated ∧
        Names.find? "a.Color" e.impacted = some ["a.Color"] := by
  obtain ⟨old, new, hold, hnew, he, hupdated, ⟨f, hf, c, hc, hname⟩, -⟩ := exists_parse_colorChange
  obtain ⟨hdata, -⟩ := exists_parse_of_identifyChange he
  obtain ⟨e, he', himpacted⟩ := impacted_enum_eq_self hdata hold hnew
  cases he.symm.trans he'
  have hmem : "a.Color" ∈ (Event.of colorChange old new).changes.updated := by simp [hupdated]
  refine ⟨old, new, _, hold, hnew, he, hmem, ?_⟩
  rw [← hname] at hmem ⊢
  exact himpacted f hf c hc hmem

/-- The paint is not told that its colour changed. -/
theorem enum_user_not_impacted : ∃ old new e, Registry.parse colorChange.old = .ok old ∧
    Registry.parse colorChange.new = .ok new ∧ identifyChange colorChange = .ok e ∧
      "a.Color" ∈ e.changes.updated ∧ (∃ f ∈ new.files, ∃ c ∈ f.enums, c.fullName = "a.Color") ∧
        ∃ m ∈ new.allMessages, (∃ f ∈ m.fields, f.kind = .enum "a.Color") ∧
          ∃ names, Names.find? "a.Color" e.impacted = some names ∧ m.fullName ∉ names := by
  obtain ⟨old, new, hold, hnew, he, hupdated, ⟨f, hf, c, hc, hname⟩, m, hm, hmname, hkind⟩ :=
    exists_parse_colorChange
  have hmem : "a.Color" ∈ (Event.of colorChange old new).changes.updated := by simp [hupdated]
  refine ⟨old, new, _, hold, hnew, he, hmem, ⟨f, hf, c, hc, hname⟩, m, hm, hkind, ["a.Color"], ?_,
    by simp [hmname]⟩
  rw [← hname] at hmem ⊢
  exact find?_impactOf_enum (Registry.distinct_of_parse hnew) (Registry.closed_of_parse hnew)
    (Registry.mem_allEnums.2 ⟨f, hf, List.mem_append_left _ hc⟩) hmem

end Impact

end SchemaEvolution
