import SchemaEvolution.Proofs.JsonSchema.Compatible
import SchemaEvolution.Proofs.JsonSchema.Exploration
import SchemaEvolution.Proofs.Policy
import SchemaEvolution.Schema

namespace SchemaEvolution.JsonSchema

@[simp] theorem backward_eq_ok_iff {current previous : Explored} :
    Evolves.backward (Schema.json current) (.json previous) = .ok () ↔ current.Keeps previous := by
  change (compare .backward current previous).outcome = .ok () ↔ _
  rw [Report.outcome_eq_ok_iff, ← compare_backward_isEmpty_iff, Report.isEmpty, List.isEmpty_iff]

theorem composes_json : Mode.Composes Schema.json := by
  intro a b c hba hcb
  rw [backward_eq_ok_iff] at hba hcb ⊢
  exact hcb.trans hba

/-- The empty backward report is transitive between explored documents, and a candidate that passes
one step of a history at a time passes the whole of it. -/
theorem backward_isEmpty_trans :
    (∀ a b c : Explored, (compare .backward b a).isEmpty → (compare .backward c b).isEmpty →
      (compare .backward c a).isEmpty) ∧
    ∀ (candidate : Explored) (history : List Explored),
      (candidate :: history).IsChain (fun newer older =>
        Mode.check (.checked .backward .latest) (Schema.json newer) [.json older] = .ok ()) →
      Mode.check (.checked .backward .transitive) (Schema.json candidate)
        (history.map Schema.json) = .ok () := by
  refine ⟨?_, ?_⟩
  · intro a b c hba hcb
    rw [compare_backward_isEmpty_iff] at hba hcb ⊢
    exact hcb.trans hba
  · intro candidate history steps
    exact composes_json.check_transitive .backward steps

def enumOf (names : List String) : Json := .object [("enum", .array (names.map .string))]

theorem ofRoot_enumOf (names : List String) :
    Explored.ofRoot (enumOf names) = ⟨enumOf names, .draft202012, [[]]⟩ := by
  have hplaces : (Explored.ofRoot (enumOf names)).places = [[]] := by
    refine List.perm_singleton.1 ((List.perm_ext_iff_of_nodup Explored.nodup_places_ofRoot
      (by simp)).2 ?_)
    intro p
    rw [Explored.mem_places_ofRoot, List.mem_singleton]
    constructor
    · intro h
      refine List.mem_singleton.1 (h.mem_of_closed (.head []) ?_)
      intro q hq r hr
      rw [List.mem_singleton.1 hq] at hr
      obtain ⟨v, hv, -, htarget | ⟨c, hc, -⟩⟩ := mem_nextPlaces.1 hr
      · cases hv
        cases htarget
      · cases hv
        cases hc
    · rintro rfl
      exact .nil rfl
  change Explored.mk _ _ _ = _
  rw [← hplaces]
  rfl

theorem backward_isEmpty_trans_enumOf :
    (compare .backward (Explored.ofRoot (enumOf ["a", "b", "c"]))
      (Explored.ofRoot (enumOf ["a"]))).isEmpty ∧
    Mode.check (.checked .backward .transitive)
      (Schema.json (Explored.ofRoot (enumOf ["a", "b", "c"])))
      ([Explored.ofRoot (enumOf ["a", "b"]), Explored.ofRoot (enumOf ["a"])].map Schema.json) =
        .ok () := by
  have hfirst : (compare .backward (Explored.ofRoot (enumOf ["a", "b"]))
      (Explored.ofRoot (enumOf ["a"]))).isEmpty := by
    rw [ofRoot_enumOf, ofRoot_enumOf]
    decide +kernel
  have hsecond : (compare .backward (Explored.ofRoot (enumOf ["a", "b", "c"]))
      (Explored.ofRoot (enumOf ["a", "b"]))).isEmpty := by
    rw [ofRoot_enumOf, ofRoot_enumOf]
    decide +kernel
  refine ⟨backward_isEmpty_trans.1 _ _ _ hfirst hsecond, backward_isEmpty_trans.2 _ _ ?_⟩
  refine .cons_cons ?_ (.cons_cons ?_ (.singleton _))
  · rw [ofRoot_enumOf, ofRoot_enumOf]
    rfl
  · rw [ofRoot_enumOf, ofRoot_enumOf]
    rfl

end SchemaEvolution.JsonSchema
