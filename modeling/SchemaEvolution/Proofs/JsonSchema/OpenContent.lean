import SchemaEvolution.Proofs.JsonSchema.Compatible
import SchemaEvolution.Proofs.JsonSchema.Exploration

namespace SchemaEvolution.JsonSchema

/-- A check that finds nothing between a node and itself and never asks for open content. -/
structure Compares (check : PairCheck) : Prop where
  self : ∀ n, check n n = []
  kind_ne : ∀ {cur prev d}, d ∈ check cur prev → d.kind ≠ .additionalPropertiesNotOpen

theorem ne_of_mem_found {n : Node} {kind : DiffKind} {message : String} {d : Diff}
    (h : d ∈ [n.found kind message]) (hkind : kind ≠ .additionalPropertiesNotOpen) :
    d.kind ≠ .additionalPropertiesNotOpen :=
  List.mem_singleton.1 h ▸ hkind

theorem compares_checkEnum : Compares checkEnum where
  self n := by
    unfold checkEnum
    cases n.value.array? "enum" with
    | none => rfl
    | some xs =>
      have hkept : ∀ v ∈ xs, ¬ (!xs.any v.equal) = true := by
        intro v hv
        simpa using ⟨v, hv, v.equal_self⟩
      simp only [List.filter_eq_nil_iff.2 hkept, List.map_nil]
  kind_ne {cur prev d} h := by
    unfold checkEnum at h
    split at h
    · exact ne_of_mem_found h nofun
    · exact ne_of_mem_found h nofun
    · obtain ⟨v, -, rfl⟩ := List.mem_map.1 h; exact nofun
    · cases h

theorem compares_checkRef : Compares checkRef where
  self n := by
    unfold checkRef
    cases n.value.string? "$ref" <;> simp
  kind_ne {cur prev d} h := by
    unfold checkRef at h
    split at h
    · cases h
    · exact ne_of_mem_found h nofun
    · exact ne_of_mem_found h nofun
    · split at h
      · cases h
      · exact ne_of_mem_found h nofun

theorem compares_checkComposition (keyword : String) {kind : DiffKind}
    (hkind : kind ≠ .additionalPropertiesNotOpen) : Compares (checkComposition keyword kind) where
  self n := by
    unfold checkComposition
    cases n.value.array? keyword <;> simp
  kind_ne {cur prev d} h := by
    unfold checkComposition at h
    split at h
    · cases h
    · exact ne_of_mem_found h hkind
    · exact ne_of_mem_found h hkind
    · split at h
      · cases h
      · exact ne_of_mem_found h hkind

theorem compares_checkRequired : Compares checkRequired where
  self n := if_pos rfl
  kind_ne {cur prev d} h := by
    unfold checkRequired at h
    split at h
    · cases h
    · exact ne_of_mem_found h nofun

theorem compares_checkPropertyAddition : Compares checkPropertyAddition where
  self n := by
    simp [checkPropertyAddition, Names.difference]
  kind_ne {cur prev d} h := by
    obtain ⟨name, -, rfl⟩ := List.mem_map.1 h
    exact ne_of_mem_found (List.mem_singleton_self _) (by decide)

theorem compares_checkItems : Compares checkItems where
  self n := by
    unfold checkItems
    rcases n.items? with _ | _ | m <;> simp
  kind_ne {cur prev d} h := by
    unfold checkItems at h
    split at h
    · cases h
    · exact ne_of_mem_found h nofun
    · exact ne_of_mem_found h nofun
    · split at h
      · cases h
      · exact ne_of_mem_found h nofun
    · cases h
    · exact ne_of_mem_found h nofun

theorem compares_checkAdditionalItems : Compares checkAdditionalItems where
  self n := by
    unfold checkAdditionalItems
    cases n.trailingItems? with
    | none => rfl
    | some v => simp [v.equal_self]
  kind_ne {cur prev d} h := by
    unfold checkAdditionalItems at h
    split at h
    · cases h
    · exact ne_of_mem_found h nofun
    · exact ne_of_mem_found h nofun
    · split at h
      · cases h
      · exact ne_of_mem_found h nofun

theorem compares_of_mem_standard {check : PairCheck} (h : check ∈ CheckGroups.standard.untyped ++
    CheckGroups.standard.object ++ CheckGroups.standard.array ++ CheckGroups.standard.scalar) :
    Compares check := by
  simp only [CheckGroups.standard, List.cons_append, List.nil_append, List.mem_cons,
    List.not_mem_nil, or_false] at h
  obtain rfl | rfl | rfl | rfl | rfl | rfl | rfl | rfl | rfl | rfl := h
  · exact compares_checkEnum
  · exact compares_checkRef
  · exact compares_checkComposition "allOf" (by decide)
  · exact compares_checkComposition "anyOf" (by decide)
  · exact compares_checkComposition "oneOf" (by decide)
  · exact compares_checkRequired
  · exact compares_checkPropertyAddition
  · exact compares_checkItems
  · exact compares_checkAdditionalItems
  · exact compares_checkEnum

theorem CheckGroups.select_subset (g : CheckGroups) (cur prev : Node) :
    g.select cur prev ⊆ g.untyped ++ g.object ++ g.array ++ g.scalar := by
  intro check h
  simp only [select] at h
  split at h
  · simp only [List.mem_append, List.mem_ite_nil_right] at h ⊢
    tauto
  · simp only [List.mem_append, List.mem_ite_nil_right] at h ⊢
    tauto

theorem compares_of_mem_select {cur prev : Node} {check : PairCheck}
    (h : check ∈ CheckGroups.standard.select cur prev) : Compares check :=
  compares_of_mem_standard (CheckGroups.select_subset _ cur prev h)

@[simp] theorem nodeDiffs_self (n : Node) : nodeDiffs .standard n n = [] := by
  rw [nodeDiffs, if_pos rfl, List.flatMap_eq_nil_iff]
  intro check h
  exact (compares_of_mem_select h).self n

theorem kind_ne_of_mem_nodeDiffs {cur prev : Node} {d : Diff}
    (h : d ∈ nodeDiffs .standard cur prev) : d.kind ≠ .additionalPropertiesNotOpen := by
  unfold nodeDiffs at h
  split at h
  · obtain ⟨check, hcheck, hd⟩ := List.mem_flatMap.1 h
    exact (compares_of_mem_select hcheck).kind_ne hd
  · exact ne_of_mem_found h nofun

theorem kind_ne_of_mem_pairDiffs {current previous : Explored} {d : Diff}
    (h : d ∈ pairDiffs .standard current previous) : d.kind ≠ .additionalPropertiesNotOpen := by
  obtain ⟨⟨location, old⟩, -, hd⟩ := List.mem_flatMap.1 h
  cases hnew : current.node? location with
  | none =>
    simp only [hnew, List.mem_singleton] at hd
    exact hd ▸ nofun
  | some new =>
    simp only [hnew] at hd
    exact kind_ne_of_mem_nodeDiffs hd

@[simp] theorem pairDiffs_self (root : Json) :
    pairDiffs .standard (.ofRoot root) (.ofRoot root) = [] := by
  rw [pairDiffs, List.flatMap_eq_nil_iff]
  rintro ⟨location, node⟩ h
  simp only [Explored.node?_ofRoot_eq_some_iff.2 h, nodeDiffs_self]

/-- The value that keeps other properties out of a schema. -/
def closing? (node : Json) : Option Json :=
  match node.get? "additionalProperties" with
  | none | some (.bool true) => none
  | some v => some v

@[simp] theorem closing?_eq_some_iff {node v : Json} : closing? node = some v ↔
    node.get? "additionalProperties" = some v ∧ v ≠ .bool true := by
  unfold closing?
  split <;> grind

@[simp] theorem closing?_eq_none_iff {node : Json} : closing? node = none ↔ IsOpen node := by
  unfold closing? IsOpen
  split <;> simp_all

/-- The closed schemas of a document: their locations, and what closes them. -/
def Explored.closed (e : Explored) : List (String × Json) :=
  e.nodes.filterMap fun n => (closing? n.2).map (n.1, ·)

theorem Explored.mem_closed {e : Explored} {location : String} {v : Json} :
    (location, v) ∈ e.closed ↔ ∃ node, (location, node) ∈ e.nodes ∧
      node.get? "additionalProperties" = some v ∧ v ≠ .bool true := by
  simp only [closed, List.mem_filterMap, Option.map_eq_some_iff, Prod.exists, Prod.mk.injEq,
    ← closing?_eq_some_iff]
  constructor
  · rintro ⟨_, node, hnode, _, hv, rfl, rfl⟩
    exact ⟨node, hnode, hv⟩
  · rintro ⟨node, hnode, hv⟩
    exact ⟨location, node, hnode, v, hv, rfl, rfl⟩

theorem Explored.closed_eq_nil_iff {e : Explored} :
    e.closed = [] ↔ ∀ location node, (location, node) ∈ e.nodes → IsOpen node := by
  simp [closed]

theorem Explored.sorted_closed_ofRoot (root : Json) :
    (ofRoot root).closed.Pairwise fun m n => m.1 < n.1 := by
  have hnodes : (ofRoot root).nodes.Pairwise fun m n => m.1 < n.1 := by
    rw [← List.pairwise_map, keys_nodes_ofRoot]
    exact sorted_locations_ofRoot
  apply hnodes.filterMap _
  intro m n hmn x hx y hy
  obtain ⟨v, -, rfl⟩ := Option.map_eq_some_iff.1 hx
  obtain ⟨w, -, rfl⟩ := Option.map_eq_some_iff.1 hy
  exact hmn

def closedDiff (n : String × Json) : Diff :=
  ⟨.additionalPropertiesNotOpen, n.1, s!"additionalProperties must be true, found {n.2.text}"⟩

theorem checkAdditionalProperties_eq (n : Node) : checkAdditionalProperties n =
    ((closing? n.value).map fun v => closedDiff (n.location, v)).toList := by
  unfold checkAdditionalProperties closing?
  cases n.value.get? "additionalProperties" with
  | none => rfl
  | some v =>
    cases v with
    | bool b => cases b <;> rfl
    | _ => rfl

theorem standaloneDiffs_eq (e : Explored) :
    standaloneDiffs standaloneChecks e = e.closed.map closedDiff := by
  rw [Explored.closed, List.map_filterMap, List.filterMap_eq_flatMap_toList, standaloneDiffs]
  congr 1
  funext n
  simp only [standaloneChecks, List.flatMap_cons, List.flatMap_nil, List.append_nil,
    checkAdditionalProperties_eq, Option.map_map]
  rfl

theorem diffs_compare_eq {R : RuleSet} (hR : R.disallows .additionalPropertiesNotOpen)
    (current previous : Explored) : (compare R current previous).diffs =
      (Report.of R (pairDiffs .standard current previous)).diffs ++
        current.closed.map closedDiff := by
  rw [compare, compareWith, Report.of_append, standaloneDiffs_eq]
  congr 1
  apply List.filter_eq_self.2
  intro d hd
  obtain ⟨n, -, rfl⟩ := List.mem_map.1 hd
  exact hR

/-- Under rules that ask for open content, a report is what was found between the two documents
followed by one change for each closed schema of the current one, in the order of their locations; every
place that is explored is one of the schemas. A document compared with itself shows its closed schemas
and nothing else. -/
theorem diffs_compare_eq_append_closed (root : Json) :
    let e := Explored.ofRoot root
    e.nodes.map (·.1) = e.places.map locationText ∧
    (∀ location v, (location, v) ∈ e.closed ↔ ∃ node, (location, node) ∈ e.nodes ∧
      node.get? "additionalProperties" = some v ∧ v ≠ .bool true) ∧
    e.closed.Pairwise (fun m n => m.1 < n.1) ∧
    ∀ R : RuleSet, R.disallows .additionalPropertiesNotOpen →
      (∀ previous : Explored, (compare R e previous).diffs =
          (Report.of R (pairDiffs .standard e previous)).diffs ++ e.closed.map closedDiff ∧
        ∀ d ∈ (Report.of R (pairDiffs .standard e previous)).diffs,
          d.kind ≠ .additionalPropertiesNotOpen) ∧
      (compare R e e).diffs = e.closed.map closedDiff ∧
      ((compare R e e).isEmpty ↔ ∀ location node, (location, node) ∈ e.nodes → IsOpen node) := by
  refine ⟨Explored.keys_nodes_ofRoot, ?_, Explored.sorted_closed_ofRoot root, ?_⟩
  · intro location v
    exact Explored.mem_closed
  · intro R hR
    have hself : (compare R (.ofRoot root) (.ofRoot root)).diffs =
        (Explored.ofRoot root).closed.map closedDiff := by
      rw [diffs_compare_eq hR, pairDiffs_self]
      rfl
    refine ⟨?_, hself, ?_⟩
    · intro previous
      refine ⟨diffs_compare_eq hR _ previous, ?_⟩
      intro d hd
      exact kind_ne_of_mem_pairDiffs (List.mem_of_mem_filter hd)
    · rw [Report.isEmpty, hself, List.isEmpty_iff, List.map_eq_nil_iff, Explored.closed_eq_nil_iff]

def linked : Json :=
  .object [("additionalProperties", .bool false),
    ("properties", .object [("rest", .object [("$ref", .string "#")])])]

theorem diffs_compare_eq_append_closed_linked :
    RuleSet.backward.disallows .additionalPropertiesNotOpen ∧
    ("#", .bool false) ∈ (Explored.ofRoot linked).closed ∧
    (compare .backward (.ofRoot linked) (.ofRoot linked)).isEmpty = false := by
  obtain ⟨-, hclosed, -, hreport⟩ := diffs_compare_eq_append_closed linked
  have hrules : RuleSet.backward.disallows .additionalPropertiesNotOpen := by decide
  have hroot : ("#", linked) ∈ (Explored.ofRoot linked).nodes :=
    (Explored.mem_nodes_ofRoot (p := []) (List.forall_mem_nil _) rfl).2 (.nil rfl)
  refine ⟨hrules, (hclosed _ _).2 ⟨linked, hroot, rfl, nofun⟩, ?_⟩
  rw [Bool.eq_false_iff]
  intro h
  obtain hopen | hopen := (hreport .backward hrules).2.2.1 h "#" linked hroot
  · cases hopen
  · cases hopen

end SchemaEvolution.JsonSchema
