import SchemaEvolution.Avro.Compare
import SchemaEvolution.JsonSchema.Collect
import SchemaEvolution.Protobuf.Compare

/-!
The rule set only filters. A comparison finds the same changes in the same order under every rule
set: a pass that threads its collector through all checks adds a list to it that the collector has
no influence on.
-/

namespace SchemaEvolution

namespace Collector

@[simp] theorem extend_nil (c : Collector) : c.extend [] = c := rfl

@[simp] theorem extend_append (c : Collector) (xs ys : List Diff) :
    c.extend (xs ++ ys) = (c.extend xs).extend ys :=
  List.foldl_append

theorem foldl_eq_extend {step : Collector → α → Collector} {found : α → List Diff}
    (h : ∀ c a, step c a = c.extend (found a)) (l : List α) (c : Collector) :
    l.foldl step c = c.extend (l.flatMap found) := by
  induction l generalizing c with
  | nil => rfl
  | cons a l ih => rw [List.foldl_cons, h, ih, List.flatMap_cons, extend_append]

theorem foldl_push_eq_extend (found : α → Diff) (l : List α) (c : Collector) :
    l.foldl (fun c a => c.push (found a)) c = c.extend (l.map found) :=
  List.foldl_map.symm

end Collector

theorem RuleSet.disallows_everything (k : DiffKind) : RuleSet.everything.disallows k := by
  simp [RuleSet.everything, RuleSet.disallows, k.mem_all]

/-- `report` is what `pass` collects, and what is reported under one rule set determines what is
reported under every other. -/
structure CollectsThenFilters (pass : Collector → Collector) (report : RuleSet → Report) :
    Prop where
  report_eq : ∀ R, (pass (.empty R)).report = report R
  diffs_eq : ∀ R : RuleSet,
    (report R).diffs = (report .everything).diffs.filter fun d => R.disallows d.kind
  mono : ∀ R S : RuleSet, (∀ k, R.disallows k → S.disallows k) →
    (report R).diffs.Sublist (report S).diffs
  forward_backward : (report .forward).diffs.Sublist (report .backward).diffs
  full_backward : (report .full).diffs = (report .backward).diffs
  total_eq : ∀ R S : RuleSet, (report R).size + (pass (.empty R)).dropped =
    (report S).size + (pass (.empty S)).dropped

/-- A pass that always records the same list, whatever is collected before it and whatever its
collector lets through. -/
def Records (pass : Collector → Collector) (found : List Diff) : Prop :=
  ∀ c, pass c = c.extend found

theorem Report.diffs_of_everything (found : List Diff) : (of .everything found).diffs = found := by
  apply List.filter_eq_self.2
  intro d _
  exact RuleSet.disallows_everything d.kind

theorem Report.diffs_of_sublist {R S : RuleSet} (h : ∀ k, R.disallows k → S.disallows k)
    (found : List Diff) : (of R found).diffs.Sublist (of S found).diffs := by
  have hboth : (of R found).diffs = (of S found).diffs.filter fun d => R.disallows d.kind := by
    rw [of, of, List.filter_filter]
    apply List.filter_congr
    intro d _
    cases hR : R.disallows d.kind with
    | false => rfl
    | true => simp [h d.kind hR]
  rw [hboth]
  exact List.filter_sublist

namespace Records

variable {pass : Collector → Collector} {found : List Diff} (h : Records pass found)
include h

theorem size_add_dropped (R : RuleSet) :
    (Report.of R found).size + (pass (.empty R)).dropped = found.length := by
  have hparts := List.length_eq_countP_add_countP (fun d : Diff => R.disallows d.kind) (l := found)
  rw [h, Collector.extend_eq]
  simp only [Collector.empty, Report.of, Report.size, Nat.zero_add, ← List.countP_eq_length_filter]
  simpa using hparts.symm

theorem collectsThenFilters : CollectsThenFilters pass fun R => .of R found where
  report_eq R := by rw [h, Collector.report_extend]
  diffs_eq R := by rw [Report.diffs_of_everything, Report.of]
  mono _ _ hRS := Report.diffs_of_sublist hRS found
  forward_backward := Report.diffs_of_sublist (fun _ => RuleSet.forward_subset_backward) found
  full_backward := rfl
  total_eq R S := by rw [h.size_add_dropped, h.size_add_dropped]

end Records

theorem Protobuf.records_collect (current previous : Registry) :
    Records (collect current previous) (compareDiffs current previous) := by
  intro c
  rw [collect, Collector.foldl_eq_extend fun _ _ => rfl]
  simp [walks, compareDiffs]

theorem Avro.records_collect (current previous : Schema) :
    Records (collect current previous) (compareDiffs current previous) := by
  intro c
  unfold collect compareDiffs
  cases canRead previous current with
  | ok => rfl
  | error m => rfl

namespace JsonSchema

variable (cur prev : Node)

theorem Node.record_eq (n : Node) (kind : DiffKind) (message : String) (c : Collector) :
    n.record kind message c = c.extend [n.found kind message] := rfl

theorem records_collectEnum : Records (collectEnum cur prev) (checkEnum cur prev) := by
  intro c
  unfold collectEnum checkEnum
  cases prev.value.array? "enum" with
  | none => cases cur.value.array? "enum" <;> rfl
  | some old =>
    cases cur.value.array? "enum" with
    | none => rfl
    | some new => exact Collector.foldl_push_eq_extend _ _ c

theorem records_collectRef : Records (collectRef cur prev) (checkRef cur prev) := by
  intro c
  unfold collectRef checkRef
  cases prev.value.string? "$ref" with
  | none => cases cur.value.string? "$ref" <;> rfl
  | some old =>
    cases cur.value.string? "$ref" with
    | none => rfl
    | some new =>
      by_cases h : old = new
      · simp [h]
      · simp [h, Node.record_eq]

theorem records_collectComposition (keyword : String) (kind : DiffKind) :
    Records (collectComposition keyword kind cur prev) (checkComposition keyword kind cur prev) := by
  intro c
  unfold collectComposition checkComposition
  cases prev.value.array? keyword with
  | none => cases cur.value.array? keyword <;> rfl
  | some old =>
    cases cur.value.array? keyword with
    | none => rfl
    | some new =>
      by_cases h : old.length = new.length
      · simp [h]
      · simp [h, Node.record_eq]

theorem records_collectRequired : Records (collectRequired cur prev) (checkRequired cur prev) := by
  intro c
  unfold collectRequired checkRequired
  by_cases h : prev.required = cur.required
  · simp [h]
  · simp [h, Node.record_eq]

theorem Node.declares_iff (n : Node) (name : String) :
    (n.value.object? "properties").any (·.any (·.1 == name)) ↔
      name ∈ ((n.value.object? "properties").getD []).map (·.1) := by
  cases n.value.object? "properties" with
  | none => simp
  | some ms => simp

theorem records_collectPropertyAddition :
    Records (collectPropertyAddition cur prev) (checkPropertyAddition cur prev) := by
  intro c
  unfold collectPropertyAddition checkPropertyAddition
  cases cur.value.object? "properties" with
  | none => rfl
  | some new =>
    let found (m : String × Json) : List Diff :=
      if m.1 ∈ ((prev.value.object? "properties").getD []).map (·.1) then []
      else [prev.found .propertyAddition s!"property '{m.1}' was added"]
    have hturn (c : Collector) (m : String × Json) :
        (if (prev.value.object? "properties").any (·.any (·.1 == m.1)) then c
          else prev.record .propertyAddition s!"property '{m.1}' was added" c) =
          c.extend (found m) := by
      simp only [Node.declares_iff, found]
      split <;> rfl
    have hfound : new.flatMap found =
        (Names.difference (new.map (·.1))
          (((prev.value.object? "properties").getD []).map (·.1))).map fun name =>
            prev.found .propertyAddition s!"property '{name}' was added" := by
      simp only [found, Names.difference]
      induction new with
      | nil => rfl
      | cons m new ih =>
        rw [List.flatMap_cons, ih]
        by_cases hm : m.1 ∈ ((prev.value.object? "properties").getD []).map (·.1)
        · simp [hm]
        · simp [hm]
    exact (Collector.foldl_eq_extend hturn new c).trans (congrArg c.extend hfound)

theorem records_collectItems : Records (collectItems cur prev) (checkItems cur prev) := by
  intro c
  unfold collectItems checkItems
  cases prev.items? with
  | none => cases cur.items? <;> rfl
  | some old =>
    cases cur.items? with
    | none => rfl
    | some new =>
      cases old with
      | single => cases new <;> simp [Collector.extend_nil, Node.record_eq]
      | tuple m =>
        cases new with
        | single => simp [Node.record_eq]
        | tuple n =>
          by_cases h : m = n
          · simp [h]
          · simp [h, Node.record_eq]

theorem records_collectAdditionalItems :
    Records (collectAdditionalItems cur prev) (checkAdditionalItems cur prev) := by
  intro c
  unfold collectAdditionalItems checkAdditionalItems
  cases prev.trailingItems? with
  | none => cases cur.trailingItems? <;> rfl
  | some old =>
    cases cur.trailingItems? with
    | none => rfl
    | some new =>
      by_cases h : old.equal new || (old.isObject && new.isObject)
      · simp [h]
      · simp only [h, if_false, Node.record_eq, Bool.false_eq_true]

theorem records_collectAdditionalProperties (n : Node) :
    Records (collectAdditionalProperties n) (checkAdditionalProperties n) := by
  intro c
  unfold collectAdditionalProperties checkAdditionalProperties
  cases n.value.get? "additionalProperties" with
  | none => rfl
  | some v =>
    cases v with
    | bool b => cases b <;> rfl
    | _ => rfl

theorem Check.records (check : Check) : Records (check.pass cur prev) (check.finds cur prev) := by
  cases check with
  | enum => exact records_collectEnum cur prev
  | ref => exact records_collectRef cur prev
  | allOf => exact records_collectComposition cur prev "allOf" .allOfModified
  | anyOf => exact records_collectComposition cur prev "anyOf" .anyOfModified
  | oneOf => exact records_collectComposition cur prev "oneOf" .oneOfModified
  | required => exact records_collectRequired cur prev
  | propertyAddition => exact records_collectPropertyAddition cur prev
  | items => exact records_collectItems cur prev
  | additionalItems => exact records_collectAdditionalItems cur prev

theorem StandaloneCheck.records (check : StandaloneCheck) (n : Node) :
    Records (check.pass n) (check.finds n) := by
  cases check with
  | additionalProperties => exact records_collectAdditionalProperties n

variable (s : Selection)

@[simp] theorem Selection.map_select :
    (s.select cur prev).map Check.finds = s.groups.select cur prev := by
  simp only [select, CheckGroups.select, groups, apply_ite (List.map Check.finds), List.map_append,
    List.map_nil]

theorem records_collectNode : Records (collectNode s cur prev) (nodeDiffs s.groups cur prev) := by
  intro c
  unfold collectNode nodeDiffs
  by_cases h : prev.types = cur.types
  · rw [if_neg fun hne => hne h, if_pos h, ← s.map_select, List.flatMap_map]
    exact Collector.foldl_eq_extend (fun c check => check.records cur prev c) _ c
  · rw [if_pos h, if_neg h]
    rfl

theorem records_collectPairs (current previous : Explored) :
    Records (collectPairs s current previous) (pairDiffs s.groups current previous) := by
  intro c
  refine Collector.foldl_eq_extend (?_) previous.nodes c
  rintro c ⟨location, old⟩
  cases h : current.node? location with
  | none => simp only [h]; rfl
  | some new => simp only [h]; exact records_collectNode _ _ s c

theorem records_collectStandalone (current : Explored) :
    Records (collectStandalone s current) (standaloneDiffs s.standaloneChecks current) := by
  intro c
  refine Collector.foldl_eq_extend (?_) current.nodes c
  rintro c ⟨location, value⟩
  simp only [Selection.standaloneChecks, List.flatMap_map]
  exact Collector.foldl_eq_extend (fun c check => check.records _ c) s.standalone c

theorem records_collect (current previous : Explored) :
    Records (collect s current previous)
      (pairDiffs s.groups current previous ++ standaloneDiffs s.standaloneChecks current) := by
  intro c
  rw [collect, records_collectPairs, records_collectStandalone, Collector.extend_append]

end JsonSchema

/-- Each comparison runs as a pass whose findings do not depend on the rule set. Between documents
this is so for every selection of the checks. -/
theorem comparisons_collect_then_filter :
    (∀ current previous : Protobuf.Registry,
      CollectsThenFilters (Protobuf.collect current previous)
        fun R => Protobuf.compare R current previous) ∧
    (∀ (s : JsonSchema.Selection) (current previous : JsonSchema.Explored),
      CollectsThenFilters (JsonSchema.collect s current previous)
        fun R => JsonSchema.compareWith R s.groups s.standaloneChecks current previous) ∧
    (∀ current previous : JsonSchema.Explored,
      CollectsThenFilters (JsonSchema.collect .standard current previous)
        fun R => JsonSchema.compare R current previous) ∧
    ∀ current previous : Avro.Schema,
      CollectsThenFilters (Avro.collect current previous)
        fun R => Avro.compare R current previous := by
  refine ⟨?_, ?_, ?_, ?_⟩
  · intro current previous
    exact (Protobuf.records_collect current previous).collectsThenFilters
  · intro s current previous
    exact (JsonSchema.records_collect s current previous).collectsThenFilters
  · intro current previous
    exact (JsonSchema.records_collect .standard current previous).collectsThenFilters
  · intro current previous
    exact (Avro.records_collect current previous).collectsThenFilters

end SchemaEvolution
