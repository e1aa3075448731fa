import SchemaEvolution.JsonSchema.Compare
import SchemaEvolution.Proofs.Json.Equality
import SchemaEvolution.Proofs.JsonSchema.Locations

namespace SchemaEvolution.JsonSchema

namespace Node

def KeepsEnum (current previous : Node) : Prop :=
  match previous.value.array? "enum", current.value.array? "enum" with
  | none, none => True
  | some old, some new => ∀ v ∈ old, new.any v.equal
  | _, _ => False

def KeepsMembers (keyword : String) (current previous : Node) : Prop :=
  (current.value.array? keyword).map (·.length) = (previous.value.array? keyword).map (·.length)

/-- Two objects are left to the comparison at their own location. -/
def KeepsTrailing (current previous : Node) : Prop :=
  match previous.trailingItems?, current.trailingItems? with
  | none, none => True
  | some old, some new => old.equal new ∨ (old.isObject ∧ new.isObject)
  | _, _ => False

structure KeepsUntyped (current previous : Node) : Prop where
  enum : current.KeepsEnum previous
  ref : current.value.string? "$ref" = previous.value.string? "$ref"
  allOf : current.KeepsMembers "allOf" previous
  anyOf : current.KeepsMembers "anyOf" previous
  oneOf : current.KeepsMembers "oneOf" previous

structure KeepsItems (current previous : Node) : Prop where
  items : current.items? = previous.items?
  trailing : current.KeepsTrailing previous

/-- Without a type all groups of checks matter, otherwise those for the types. -/
structure Keeps (current previous : Node) : Prop where
  types : current.types = previous.types
  untyped : previous.types = [] → current.KeepsUntyped previous
  object : previous.types = [] ∨ "object" ∈ previous.types → current.required = previous.required
  array : previous.types = [] ∨ "array" ∈ previous.types → current.KeepsItems previous
  scalar : (∃ t ∈ previous.types, t ≠ "object" ∧ t ≠ "array") → current.KeepsEnum previous

variable {a b c : Node}

theorem KeepsEnum.trans (hcb : c.KeepsEnum b) (hba : b.KeepsEnum a) : c.KeepsEnum a := by
  unfold KeepsEnum at *
  cases ha : a.value.array? "enum" with
  | none =>
    cases hb : b.value.array? "enum" with
    | none => simpa [ha, hb] using hcb
    | some _ => simp [ha, hb] at hba
  | some old =>
    cases hb : b.value.array? "enum" with
    | none => simp [ha, hb] at hba
    | some mid =>
      cases hc : c.value.array? "enum" with
      | none => simp [hb, hc] at hcb
      | some new =>
        simp only [ha, hb, hc, List.any_eq_true] at hba hcb ⊢
        intro v hv
        obtain ⟨w, hw, hvw⟩ := hba v hv
        obtain ⟨x, hx, hwx⟩ := hcb w hw
        exact ⟨x, hx, Json.equal_trans hvw hwx⟩

theorem KeepsMembers.trans {keyword : String} (hcb : c.KeepsMembers keyword b)
    (hba : b.KeepsMembers keyword a) : c.KeepsMembers keyword a :=
  Eq.trans hcb hba

theorem KeepsTrailing.trans (hcb : c.KeepsTrailing b) (hba : b.KeepsTrailing a) :
    c.KeepsTrailing a := by
  unfold KeepsTrailing at *
  cases ha : a.trailingItems? with
  | none =>
    cases hb : b.trailingItems? with
    | none => simpa [ha, hb] using hcb
    | some _ => simp [ha, hb] at hba
  | some old =>
    cases hb : b.trailingItems? with
    | none => simp [ha, hb] at hba
    | some mid =>
      cases hc : c.trailingItems? with
      | none => simp [hb, hc] at hcb
      | some new =>
        simp only [ha, hb, hc] at hba hcb ⊢
        rcases hba with hab | ⟨hao, hbo⟩
        · rcases hcb with hbc | ⟨hbo, hco⟩
          · exact .inl (Json.equal_trans hab hbc)
          · exact .inr ⟨Json.isObject_of_equal hab ▸ hbo, hco⟩
        · rcases hcb with hbc | ⟨-, hco⟩
          · exact .inr ⟨hao, Json.isObject_of_equal hbc ▸ hbo⟩
          · exact .inr ⟨hao, hco⟩

theorem KeepsUntyped.trans (hcb : c.KeepsUntyped b) (hba : b.KeepsUntyped a) :
    c.KeepsUntyped a where
  enum := hcb.enum.trans hba.enum
  ref := hcb.ref.trans hba.ref
  allOf := hcb.allOf.trans hba.allOf
  anyOf := hcb.anyOf.trans hba.anyOf
  oneOf := hcb.oneOf.trans hba.oneOf

theorem KeepsItems.trans (hcb : c.KeepsItems b) (hba : b.KeepsItems a) : c.KeepsItems a where
  items := hcb.items.trans hba.items
  trailing := hcb.trailing.trans hba.trailing

theorem Keeps.trans (hcb : c.Keeps b) (hba : b.Keeps a) : c.Keeps a where
  types := hcb.types.trans hba.types
  untyped h := (hcb.untyped (hba.types ▸ h)).trans (hba.untyped h)
  object h := (hcb.object (hba.types ▸ h)).trans (hba.object h)
  array h := (hcb.array (hba.types ▸ h)).trans (hba.array h)
  scalar h := (hcb.scalar (hba.types ▸ h)).trans (hba.scalar h)

end Node

def Harmless (ds : List Diff) : Prop := ∀ d ∈ ds, d.kind = .propertyAddition

@[simp] theorem harmless_nil : Harmless [] := by simp [Harmless]

@[simp] theorem harmless_append {ds es : List Diff} :
    Harmless (ds ++ es) ↔ Harmless ds ∧ Harmless es := by
  simp [Harmless, or_imp, forall_and]

theorem harmless_flatMap {α : Type u} {xs : List α} {f : α → List Diff} :
    Harmless (xs.flatMap f) ↔ ∀ x ∈ xs, Harmless (f x) := by
  simp only [Harmless, List.mem_flatMap]
  constructor
  · intro h x hx d hd
    exact h d ⟨x, hx, hd⟩
  · rintro h d ⟨x, hx, hd⟩
    exact h x hx d hd

@[simp] theorem of_backward_isEmpty_iff {ds : List Diff} :
    (Report.of .backward ds).isEmpty ↔ Harmless ds := by
  have h : ∀ k : DiffKind, RuleSet.backward.disallows k = false ↔ k = .propertyAddition := by
    intro k; cases k <;> decide
  simp [Report.of, Report.isEmpty, Harmless, h]

variable {cur prev : Node}

theorem checkEnum_harmless_iff : Harmless (checkEnum cur prev) ↔ cur.KeepsEnum prev := by
  unfold checkEnum Node.KeepsEnum
  cases prev.value.array? "enum" with
  | none => cases cur.value.array? "enum" <;> simp [Harmless, Node.found]
  | some old =>
    cases cur.value.array? "enum" with
    | none => simp [Harmless, Node.found]
    | some new =>
      constructor
      · intro h v hv
        apply Decidable.byContradiction
        intro hne
        have hlost : v ∈ old.filter fun v => !new.any v.equal :=
          List.mem_filter.2 ⟨hv, by simpa using hne⟩
        simpa [Node.found] using h _ (List.mem_map_of_mem hlost)
      · intro h
        have hnone : (old.filter fun v => !new.any v.equal) = [] := by
          apply List.filter_eq_nil_iff.2
          intro v hv
          simp [h v hv]
        simp [hnone]

theorem checkRef_harmless_iff : Harmless (checkRef cur prev) ↔
    cur.value.string? "$ref" = prev.value.string? "$ref" := by
  unfold checkRef
  cases prev.value.string? "$ref" with
  | none => cases cur.value.string? "$ref" <;> simp [Harmless, Node.found]
  | some old =>
    cases cur.value.string? "$ref" with
    | none => simp [Harmless, Node.found]
    | some new =>
      by_cases h : old = new
      · simp [h]
      · simp [Harmless, Node.found, h, Ne.symm h]

theorem checkComposition_harmless_iff {keyword : String} {kind : DiffKind}
    (hkind : kind ≠ .propertyAddition) :
    Harmless (checkComposition keyword kind cur prev) ↔ cur.KeepsMembers keyword prev := by
  unfold checkComposition Node.KeepsMembers
  cases prev.value.array? keyword with
  | none => cases cur.value.array? keyword <;> simp [Harmless, Node.found, hkind]
  | some old =>
    cases cur.value.array? keyword with
    | none => simp [Harmless, Node.found, hkind]
    | some new =>
      by_cases h : old.length = new.length
      · simp [h]
      · simp [Harmless, Node.found, hkind, h, Ne.symm h]

@[simp] theorem checkRequired_harmless_iff : Harmless (checkRequired cur prev) ↔
    cur.required = prev.required := by
  unfold checkRequired
  by_cases h : prev.required = cur.required
  · simp [h]
  · simp [Harmless, Node.found, h, Ne.symm h]

theorem checkPropertyAddition_harmless : Harmless (checkPropertyAddition cur prev) := by
  simp [checkPropertyAddition, Harmless, Node.found]

theorem checkItems_harmless_iff : Harmless (checkItems cur prev) ↔ cur.items? = prev.items? := by
  unfold checkItems
  cases prev.items? with
  | none => cases cur.items? <;> simp [Harmless, Node.found]
  | some old =>
    cases cur.items? with
    | none => cases old <;> simp [Harmless, Node.found]
    | some new =>
      cases old with
      | single => cases new <;> simp [Harmless, Node.found]
      | tuple m =>
        cases new with
        | single => simp [Harmless, Node.found]
        | tuple n =>
          by_cases h : m = n
          · simp [h]
          · simp [Harmless, Node.found, h, Ne.symm h]

theorem checkAdditionalItems_harmless_iff :
    Harmless (checkAdditionalItems cur prev) ↔ cur.KeepsTrailing prev := by
  unfold checkAdditionalItems Node.KeepsTrailing
  cases prev.trailingItems? with
  | none => cases cur.trailingItems? <;> simp [Harmless, Node.found]
  | some old =>
    cases cur.trailingItems? with
    | none => simp [Harmless, Node.found]
    | some new =>
      simp only [← Bool.and_eq_true, ← Bool.or_eq_true]
      cases old.equal new || (old.isObject && new.isObject) <;> simp [Harmless, Node.found]

def IsOpen (v : Json) : Prop :=
  v.get? "additionalProperties" = none ∨ v.get? "additionalProperties" = some (.bool true)

@[simp] theorem checkAdditionalProperties_harmless_iff {n : Node} :
    Harmless (checkAdditionalProperties n) ↔ IsOpen n.value := by
  unfold checkAdditionalProperties IsOpen
  split <;> simp_all [Harmless, Node.found]

def groupDiffs (checks : List PairCheck) (cur prev : Node) : List Diff :=
  checks.flatMap fun check => check cur prev

@[simp] theorem untyped_harmless_iff :
    Harmless (groupDiffs CheckGroups.standard.untyped cur prev) ↔ cur.KeepsUntyped prev := by
  simp only [groupDiffs, CheckGroups.standard, List.flatMap_cons, List.flatMap_nil, List.append_nil,
    harmless_append, checkEnum_harmless_iff, checkRef_harmless_iff, checkAllOf, checkAnyOf,
    checkOneOf, checkComposition_harmless_iff, ne_eq, reduceCtorEq, not_false_eq_true]
  constructor
  · rintro ⟨henum, href, hall, hany, hone⟩
    exact ⟨henum, href, hall, hany, hone⟩
  · rintro ⟨henum, href, hall, hany, hone⟩
    exact ⟨henum, href, hall, hany, hone⟩

@[simp] theorem object_harmless_iff : Harmless (groupDiffs CheckGroups.standard.object cur prev) ↔
    cur.required = prev.required := by
  simp [groupDiffs, CheckGroups.standard, checkPropertyAddition_harmless]

@[simp] theorem array_harmless_iff :
    Harmless (groupDiffs CheckGroups.standard.array cur prev) ↔ cur.KeepsItems prev := by
  simp only [groupDiffs, CheckGroups.standard, List.flatMap_cons, List.flatMap_nil, List.append_nil,
    harmless_append, checkItems_harmless_iff, checkAdditionalItems_harmless_iff]
  constructor
  · rintro ⟨hitems, htrailing⟩
    exact ⟨hitems, htrailing⟩
  · rintro ⟨hitems, htrailing⟩
    exact ⟨hitems, htrailing⟩

@[simp] theorem scalar_harmless_iff :
    Harmless (groupDiffs CheckGroups.standard.scalar cur prev) ↔ cur.KeepsEnum prev := by
  simp [groupDiffs, CheckGroups.standard, checkEnum_harmless_iff]

theorem Node.hasAny_eq_false {n : Node} {keywords : List String} (h : n.hasAny keywords = false)
    {keyword : String} (hk : keyword ∈ keywords) : n.value.get? keyword = none := by
  simp only [hasAny, List.any_eq_false, Json.has, Bool.not_eq_true, Option.isSome_eq_false_iff,
    Option.isNone_iff_eq_none] at h
  exact h keyword hk

theorem Node.required_of_hasAny_eq_false {n : Node} (h : n.hasAny objectKeywords = false) :
    n.required = [] := by
  have hr : n.value.get? "required" = none := hasAny_eq_false h (by decide)
  simp [required, Json.array?, hr, Names.ofList]

theorem Node.items?_of_hasAny_eq_false {n : Node} (h : n.hasAny arrayKeywords = false) :
    n.items? = none := by
  have hi : n.value.get? "items" = none := hasAny_eq_false h (by decide)
  have hp : n.value.get? "prefixItems" = none := hasAny_eq_false h (by decide)
  simp [items?, Json.array?, hi, hp]

theorem Node.trailingItems?_of_hasAny_eq_false {n : Node} (h : n.hasAny arrayKeywords = false) :
    n.trailingItems? = none := by
  unfold trailingItems?
  split
  · exact hasAny_eq_false h (by decide)
  · exact hasAny_eq_false h (by decide)

theorem Node.keepsItems_of_hasAny_eq_false (hc : cur.hasAny arrayKeywords = false)
    (hp : prev.hasAny arrayKeywords = false) : cur.KeepsItems prev where
  items := by rw [items?_of_hasAny_eq_false hc, items?_of_hasAny_eq_false hp]
  trailing := by
    unfold KeepsTrailing
    rw [trailingItems?_of_hasAny_eq_false hc, trailingItems?_of_hasAny_eq_false hp]
    trivial

@[simp] theorem groupDiffs_append (g h : List PairCheck) :
    groupDiffs (g ++ h) cur prev = groupDiffs g cur prev ++ groupDiffs h cur prev :=
  List.flatMap_append

theorem harmless_groupDiffs_ite {p : Prop} [Decidable p] {checks : List PairCheck} :
    Harmless (groupDiffs (if p then checks else []) cur prev) ↔
      (p → Harmless (groupDiffs checks cur prev)) := by
  by_cases h : p
  · simp [h]
  · simp [h, groupDiffs]

theorem select_untyped_harmless_iff (h : prev.types = []) :
    Harmless (groupDiffs (CheckGroups.standard.select cur prev) cur prev) ↔
      cur.KeepsUntyped prev ∧ cur.required = prev.required ∧ cur.KeepsItems prev := by
  simp only [CheckGroups.select, h, List.isEmpty_nil, if_true, groupDiffs_append, harmless_append,
    harmless_groupDiffs_ite, untyped_harmless_iff, object_harmless_iff, array_harmless_iff, and_assoc]
  refine and_congr_right fun _ => and_congr ?_ ?_
  · refine ⟨?_, fun heq _ => heq⟩
    intro himp
    by_cases hkeys : (prev.hasAny objectKeywords || cur.hasAny objectKeywords) = true
    · exact himp hkeys
    · simp only [Bool.or_eq_true, not_or, Bool.not_eq_true] at hkeys
      rw [Node.required_of_hasAny_eq_false hkeys.1, Node.required_of_hasAny_eq_false hkeys.2]
  · refine ⟨?_, fun heq _ => heq⟩
    intro himp
    by_cases hkeys : (prev.hasAny arrayKeywords || cur.hasAny arrayKeywords) = true
    · exact himp hkeys
    · simp only [Bool.or_eq_true, not_or, Bool.not_eq_true] at hkeys
      exact Node.keepsItems_of_hasAny_eq_false hkeys.2 hkeys.1

theorem select_typed_harmless_iff (h : prev.types ≠ []) :
    Harmless (groupDiffs (CheckGroups.standard.select cur prev) cur prev) ↔
      ("object" ∈ prev.types → cur.required = prev.required) ∧
        ("array" ∈ prev.types → cur.KeepsItems prev) ∧
        ((∃ t ∈ prev.types, t ≠ "object" ∧ t ≠ "array") → cur.KeepsEnum prev) := by
  simp only [CheckGroups.select, List.isEmpty_iff, h, if_false, groupDiffs_append, harmless_append,
    harmless_groupDiffs_ite, object_harmless_iff, array_harmless_iff, scalar_harmless_iff, and_assoc,
    List.any_eq_true, decide_eq_true_eq]

theorem nodeDiffs_harmless_iff :
    Harmless (nodeDiffs .standard cur prev) ↔ cur.Keeps prev := by
  by_cases htypes : prev.types = cur.types
  · have hsel : Harmless (nodeDiffs .standard cur prev) ↔
        Harmless (groupDiffs (CheckGroups.standard.select cur prev) cur prev) := by
      rw [nodeDiffs, if_pos htypes, groupDiffs]
    rw [hsel]
    by_cases h : prev.types = []
    · rw [select_untyped_harmless_iff h]
      constructor
      · intro ⟨hu, hr, hi⟩
        refine ⟨htypes.symm, ?_, ?_, ?_, by simp [h]⟩
        · intro _
          exact hu
        · intro _
          exact hr
        · intro _
          exact hi
      · intro hk
        exact ⟨hk.untyped h, hk.object (.inl h), hk.array (.inl h)⟩
    · rw [select_typed_harmless_iff h]
      constructor
      · intro ⟨ho, hi, hs⟩
        refine ⟨htypes.symm, ?_, ?_, ?_, hs⟩
        · intro h'
          exact absurd h' h
        · intro h'
          exact ho (h'.resolve_left h)
        · intro h'
          exact hi (h'.resolve_left h)
      · intro hk
        refine ⟨?_, ?_, hk.scalar⟩
        · intro h'
          exact hk.object (.inr h')
        · intro h'
          exact hk.array (.inr h')
  · refine iff_of_false ?_ fun hk => htypes hk.types.symm
    simp [nodeDiffs, htypes, Harmless, Node.found]

/-- Every location of the previous document is there and kept, and every schema is open. -/
structure Explored.Keeps (current previous : Explored) : Prop where
  nodes : ∀ location old, (location, old) ∈ previous.nodes →
    ∃ new, current.node? location = some new ∧
      Node.Keeps ⟨location, new, current.draft⟩ ⟨location, old, previous.draft⟩
  isOpen : ∀ location value, (location, value) ∈ current.nodes → IsOpen value

theorem Explored.Keeps.trans {a b c : Explored} (hcb : c.Keeps b) (hba : b.Keeps a) : c.Keeps a where
  nodes location old hold := by
    obtain ⟨mid, hmid, hkeeps⟩ := hba.nodes location old hold
    obtain ⟨new, hnew, hkeeps'⟩ := hcb.nodes location mid (mem_nodes_of_node? hmid)
    exact ⟨new, hnew, hkeeps'.trans hkeeps⟩
  isOpen := hcb.isOpen

theorem pairDiffs_harmless_iff {current previous : Explored} :
    Harmless (pairDiffs .standard current previous) ↔
      ∀ location old, (location, old) ∈ previous.nodes →
        ∃ new, current.node? location = some new ∧
          Node.Keeps ⟨location, new, current.draft⟩ ⟨location, old, previous.draft⟩ := by
  rw [pairDiffs, harmless_flatMap, Prod.forall]
  apply forall₃_congr
  intro location old _
  cases hn : current.node? location with
  | none => simp [hn, Harmless]
  | some new => simp [hn, nodeDiffs_harmless_iff]

theorem standaloneDiffs_harmless_iff {current : Explored} :
    Harmless (standaloneDiffs standaloneChecks current) ↔
      ∀ location value, (location, value) ∈ current.nodes → IsOpen value := by
  rw [standaloneDiffs, harmless_flatMap, Prod.forall]
  apply forall₃_congr
  intro location value _
  simp [standaloneChecks]

theorem compare_backward_isEmpty_iff {current previous : Explored} :
    (compare .backward current previous).isEmpty ↔ current.Keeps previous := by
  rw [compare, compareWith, of_backward_isEmpty_iff, harmless_append, pairDiffs_harmless_iff,
    standaloneDiffs_harmless_iff]
  constructor
  · rintro ⟨hnodes, hopen⟩
    exact ⟨hnodes, hopen⟩
  · rintro ⟨hnodes, hopen⟩
    exact ⟨hnodes, hopen⟩

end SchemaEvolution.JsonSchema
