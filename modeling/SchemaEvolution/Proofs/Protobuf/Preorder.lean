import SchemaEvolution.Proofs.Policy
import SchemaEvolution.Proofs.Protobuf.Accepted
import SchemaEvolution.Protobuf.Build
import SchemaEvolution.Schema

namespace SchemaEvolution.Protobuf

namespace Registry

variable {r : Registry}

theorem Distinct.message_keeps_self (h : r.Distinct) {m : Message} (hm : m ∈ r.allMessages) :
    m.Keeps m where
  reserved := .refl _
  fields f hf := ⟨f, h.field?_eq hm hf, .refl f⟩

theorem Distinct.enum_keeps_self (h : r.Distinct) {e : EnumType} (he : e ∈ r.allEnums) :
    e.Keeps e where
  reserved := .refl _
  values _ hv := h.number?_eq he hv

theorem Distinct.keeps_self (h : r.Distinct) : r.Keeps r where
  messages m hm := ⟨m, h.message?_eq hm, h.message_keeps_self hm⟩
  enums e he := ⟨e, h.enum?_eq he, h.enum_keeps_self he⟩
  languages f hf _ hm := ⟨f, h.fileOf?_eq hf hm, rfl⟩

end Registry

@[simp] theorem backward_eq_ok_iff {current previous : Registry} :
    Evolves.backward (Schema.protobuf current) (.protobuf previous) = .ok () ↔
      current.Keeps previous := by
  change (compare .backward current previous).outcome = .ok () ↔ _
  simp [compare_backward_diffs, compareDiffs_eq_nil_iff]

theorem composes_protobuf : Mode.Composes Schema.protobuf := by
  intro a b c hba hcb
  rw [backward_eq_ok_iff] at hba hcb ⊢
  exact hcb.trans hba

/-- Between accepted registries the empty backward report is reflexive and transitive, and a
candidate that passes one step of a history at a time passes the whole of it in every direction. -/
theorem backward_isEmpty_preorder :
    (∀ (bytes : List UInt8) (r : Registry), Registry.parse bytes = .ok r →
      (compare .backward r r).isEmpty) ∧
    (∀ a b c : Registry, (compare .backward b a).isEmpty → (compare .backward c b).isEmpty →
      (compare .backward c a).isEmpty) ∧
    ∀ (d : Direction) (candidate : Registry) (history : List Registry),
      (candidate :: history).IsChain (fun newer older =>
        Mode.check (.checked d .latest) (Schema.protobuf newer) [.protobuf older] = .ok ()) →
      Mode.check (.checked d .transitive) (Schema.protobuf candidate)
        (history.map Schema.protobuf) = .ok () := by
  refine ⟨?_, ?_, ?_⟩
  · intro bytes r h
    exact compare_backward_isEmpty_iff.2 (Registry.distinct_of_parse h).keeps_self
  · intro a b c hba hcb
    rw [compare_backward_isEmpty_iff] at hba hcb ⊢
    exact hcb.trans hba
  · intro d candidate history steps
    exact composes_protobuf.check_transitive d steps

def textMessages (names : List String) : List UInt8 :=
  let field := Build.field ⟨"text", 1, 9, none, none, false, false⟩
  let message (name : String) : Record := Build.message name [field] [] [] [] []
  Build.descriptorSet [Build.file "m.proto" "m" Build.usualEdition [] (names.map message) []]

theorem exists_parse_textMessages : ∃ a b c : Registry,
    Registry.parse (textMessages ["A"]) = .ok a ∧ Registry.parse (textMessages ["A", "B"]) = .ok b ∧
      Registry.parse (textMessages ["A", "B", "C"]) = .ok c ∧
      (compare .backward b a).isEmpty ∧ (compare .backward c b).isEmpty := by
  have h : (do
      let a ← Registry.parse (textMessages ["A"])
      let b ← Registry.parse (textMessages ["A", "B"])
      let c ← Registry.parse (textMessages ["A", "B", "C"])
      return (compare .backward b a).isEmpty && (compare .backward c b).isEmpty).toOption =
        some true := by decide +kernel
  cases ha : Registry.parse (textMessages ["A"]) with
  | error e => simp [ha, bind, Except.bind, Except.toOption] at h
  | ok a =>
    cases hb : Registry.parse (textMessages ["A", "B"]) with
    | error e => simp [ha, hb, bind, Except.bind, Except.toOption] at h
    | ok b =>
      cases hc : Registry.parse (textMessages ["A", "B", "C"]) with
      | error e => simp [ha, hb, hc, bind, Except.bind, Except.toOption] at h
      | ok c =>
        simp only [ha, hb, hc, bind, Except.bind, Except.toOption, pure, Except.pure,
          Option.some.injEq, Bool.and_eq_true] at h
        exact ⟨a, b, c, rfl, rfl, rfl, h.1, h.2⟩

theorem backward_isEmpty_preorder_textMessages : ∃ a b c : Registry,
    Registry.parse (textMessages ["A"]) = .ok a ∧ Registry.parse (textMessages ["A", "B"]) = .ok b ∧
      Registry.parse (textMessages ["A", "B", "C"]) = .ok c ∧
      (compare .backward a a).isEmpty ∧ (compare .backward c a).isEmpty ∧
      Mode.check (.checked .backward .transitive) (Schema.protobuf c)
        [.protobuf b, .protobuf a] = .ok () := by
  obtain ⟨a, b, c, ha, hb, hc, hba, hcb⟩ := exists_parse_textMessages
  refine ⟨a, b, c, ha, hb, hc, backward_isEmpty_preorder.1 _ a ha,
    backward_isEmpty_preorder.2.1 a b c hba hcb,
    backward_isEmpty_preorder.2.2 .backward c [b, a] ?_⟩
  rw [compare_backward_isEmpty_iff] at hba hcb
  exact .cons_cons (backward_eq_ok_iff.2 hcb) (.cons_cons (backward_eq_ok_iff.2 hba) (.singleton a))

end SchemaEvolution.Protobuf
