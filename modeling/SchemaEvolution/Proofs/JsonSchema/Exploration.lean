import SchemaEvolution.Proofs.Closure
import SchemaEvolution.Proofs.JsonSchema.Children
import SchemaEvolution.Proofs.JsonSchema.Indexed
import SchemaEvolution.Proofs.JsonSchema.Locations

/-!
The explored schemas of a document are the least set that holds the root and is closed under schema
keywords and references, each under the location it was reached by.
-/

namespace SchemaEvolution.JsonSchema

/-- The schemas that a document leads to, under their locations. -/
inductive Explores (root : Json) (refs : References) : String → Json → Prop
  | root : root.isObject → Explores root refs "#" root
  | child {location : String} {node : Json} {step : String} {child : Json} :
    Explores root refs location node → Child node step child → child.isObject →
    Explores root refs (location ++ step) child
  | reference {location : String} {node : Json} {reference : String} {place p : Pointer}
    {target : Json} :
    Explores root refs location node → node.string? "$ref" = some reference →
    placeOf? location = some place → refs.resolve? reference place = some p →
    p.find? root = some target → target.isObject →
    Explores root refs (locationText p) target

variable {root v : Json} {refs : References} {d : Draft} {p q : Pointer}

@[simp] theorem isObjectAt_iff : isObjectAt root p ↔ ∃ v, p.find? root = some v ∧ v.isObject := by
  unfold isObjectAt
  cases p.find? root <;> simp

@[simp] theorem mem_targetPlaces : q ∈ targetPlaces refs v p ↔
    ∃ reference, v.string? "$ref" = some reference ∧ refs.resolve? reference p = some q := by
  unfold targetPlaces
  cases v.string? "$ref" with
  | none => simp
  | some reference => cases h : refs.resolve? reference p <;> simp [h, eq_comm]

theorem mem_nextPlaces : q ∈ nextPlaces root refs p ↔
    ∃ v, p.find? root = some v ∧ isObjectAt root q ∧
      (q ∈ targetPlaces refs v p ∨ ∃ c ∈ childPlaces v, q = p ++ c) := by
  unfold nextPlaces
  cases p.find? root with
  | none => simp
  | some v =>
    simp only [List.mem_filter, List.mem_append, List.mem_map, Option.some.injEq, exists_eq_left',
      eq_comm (a := q)]
    exact and_comm

def Reached (d : Draft) (root : Json) : Pointer → Prop :=
  Closure.Reachable (nextPlaces root (References.index d root)) ([[]].filter (isObjectAt root))

namespace Reached

theorem nil (h : root.isObject) : Reached d root [] := by
  apply Closure.Reachable.start
  rw [List.mem_filter, isObjectAt_iff]
  exact ⟨.head [], root, rfl, h⟩

theorem next (h : Reached d root p) (hq : q ∈ nextPlaces root (References.index d root) p) :
    Reached d root q := .step h hq

theorem isObjectAt (h : Reached d root p) : isObjectAt root p := by
  cases h with
  | start h => exact (List.mem_filter.1 h).2
  | step _ h => exact let ⟨_, _, h, _⟩ := mem_nextPlaces.1 h; h

theorem plain (h : Reached d root p) : p.Plain := by
  induction h with
  | start h =>
    rw [List.mem_singleton.1 (List.mem_filter.1 h).1]
    exact List.forall_mem_nil _
  | step _ hq ih =>
    obtain ⟨v, -, -, htarget | ⟨c, hc, rfl⟩⟩ := mem_nextPlaces.1 hq
    · obtain ⟨reference, -, hresolve⟩ := mem_targetPlaces.1 htarget
      exact (References.of_resolve?_eq_some hresolve).2
    · exact ih.append (standard_of_mem_childPlaces hc).plain

theorem mem_of_closed {ps : List Pointer} (hnil : [] ∈ ps)
    (hps : ∀ p ∈ ps, ∀ q ∈ nextPlaces root (References.index d root) p, q ∈ ps)
    (h : Reached d root p) : p ∈ ps := by
  induction h with
  | start h => exact List.mem_singleton.1 (List.mem_filter.1 h).1 ▸ hnil
  | step _ hq ih => exact hps _ ih _ hq

end Reached

def targets (root : Json) (refs : References) : List Pointer :=
  root.pointers.flatMap fun p => ((p.find? root).map (targetPlaces refs · p)).getD []

def below (root : Json) (p : Pointer) : List Pointer :=
  ((p.find? root).map fun v => v.pointers.map (p ++ ·)).getD []

def candidates (root : Json) (refs : References) : List Pointer :=
  root.pointers ++ (targets root refs).flatMap (below root)

theorem length_flatMap_le {α β : Type*} {xs : List α} {f : α → List β} {n : Nat}
    (h : ∀ x ∈ xs, (f x).length ≤ n) : (xs.flatMap f).length ≤ xs.length * n := by
  induction xs with
  | nil => simp
  | cons x xs ih =>
    have hx := h x (.head xs)
    have hxs := by
      apply ih
      intro y hy
      exact h y (.tail x hy)
    rw [List.flatMap_cons, List.length_append, List.length_cons, Nat.succ_mul]
    omega

theorem length_targets_le : (targets root refs).length ≤ root.size := by
  have h : ∀ p ∈ root.pointers,
      (((p.find? root).map (targetPlaces refs · p)).getD []).length ≤ 1 := by
    intro p _
    cases p.find? root with
    | none => simp
    | some v =>
      simp only [Option.map_some, Option.getD_some, targetPlaces]
      cases v.string? "$ref" >>= fun reference => refs.resolve? reference p <;> simp
  have hle := length_flatMap_le h
  rwa [Json.length_pointers, Nat.mul_one] at hle

theorem length_candidates_le : (candidates root refs).length ≤ placeBound root := by
  have h : ∀ p ∈ targets root refs, (below root p).length ≤ root.size := by
    intro p _
    unfold below
    cases hp : p.find? root with
    | none => simp
    | some v => simpa [Json.length_pointers] using Json.size_le_of_find? hp
  have hle := length_flatMap_le h
  have hmul := Nat.mul_le_mul_right root.size (@length_targets_le root refs)
  rw [candidates, List.length_append, Json.length_pointers, placeBound, Nat.mul_succ]
  omega

@[simp] theorem mem_below : q ∈ below root p ↔
    ∃ v, p.find? root = some v ∧ ∃ r ∈ v.pointers, q = p ++ r := by
  unfold below
  cases p.find? root <;> simp [eq_comm]

theorem mem_targets : q ∈ targets root refs ↔
    ∃ p ∈ root.pointers, ∃ v, p.find? root = some v ∧ q ∈ targetPlaces refs v p := by
  unfold targets
  rw [List.mem_flatMap]
  apply exists_congr
  intro p
  apply and_congr_right
  intro _
  cases p.find? root <;> simp

theorem Reached.mem_candidates (h : Reached d root p) :
    p ∈ candidates root (References.index d root) := by
  induction h with
  | start h =>
    rw [List.mem_singleton.1 (List.mem_filter.1 h).1]
    exact List.mem_append_left _ (Json.nil_mem_pointers root)
  | @step p q hp hq ih =>
    obtain ⟨v, hv, hobject, htarget | ⟨c, hc, rfl⟩⟩ := mem_nextPlaces.1 hq
    -- the induction hypothesis is not needed here: the index knows no place outside the root
    · obtain ⟨reference, -, hresolve⟩ := mem_targetPlaces.1 htarget
      obtain ⟨w, hw, -⟩ := isObjectAt_iff.1 hobject
      have hroot := (References.of_resolve?_eq_some hresolve).1
      refine List.mem_append_right _ (List.mem_flatMap.2 ⟨q, ?_, ?_⟩)
      · exact mem_targets.2 ⟨p, hroot, v, hv, htarget⟩
      · exact mem_below.2 ⟨w, hw, [], Json.nil_mem_pointers w, (List.append_nil q).symm⟩
    · obtain ⟨w, hw, -⟩ := isObjectAt_iff.1 hobject
      rw [Pointer.find?_append, hv] at hw
      have hc := Pointer.mem_pointers_of_find? (standard_of_mem_childPlaces hc) hw
      -- a child stays below whatever its parent was below
      obtain hp | hp := List.mem_append.1 ih
      · exact List.mem_append_left _ (Pointer.append_mem_pointers hp hv hc)
      · obtain ⟨t, ht, hp⟩ := List.mem_flatMap.1 hp
        obtain ⟨u, hu, r, hr, rfl⟩ := mem_below.1 hp
        rw [Pointer.find?_append, hu] at hv
        have hr : t ++ r ++ c ∈ below root t :=
          mem_below.2 ⟨u, hu, r ++ c, Pointer.append_mem_pointers hr hv hc, List.append_assoc t r c⟩
        exact List.mem_append_right _ (List.mem_flatMap.2 ⟨t, ht, hr⟩)

/-- The search ends by itself, whatever cycles the references make. -/
theorem run_places : Closure.Run (nextPlaces root (References.index d root))
    ([[]].filter (isObjectAt root)) [] (places root (References.index d root)) :=
  Closure.run_of (fun _ => Reached.mem_candidates) length_candidates_le

theorem Reached.explores (h : Reached d root p) (hv : p.find? root = some v) :
    Explores root (References.index d root) (locationText p) v := by
  induction h generalizing v with
  | start h =>
    obtain ⟨hp, hobject⟩ := List.mem_filter.1 h
    cases List.mem_singleton.1 hp
    obtain ⟨w, hw, hobject⟩ := isObjectAt_iff.1 hobject
    cases hw
    cases hv
    exact .root hobject
  | @step p q hp hq ih =>
    obtain ⟨u, hu, hobject, htarget | ⟨c, hc, rfl⟩⟩ := mem_nextPlaces.1 hq
    · obtain ⟨reference, href, hresolve⟩ := mem_targetPlaces.1 htarget
      obtain ⟨w, hw, hobject⟩ := isObjectAt_iff.1 hobject
      cases hv.symm.trans hw
      exact .reference (ih hu) href (placeOf?_locationText (Reached.plain hp)) hresolve hv hobject
    · obtain ⟨w, hw, hobject⟩ := isObjectAt_iff.1 hobject
      cases hv.symm.trans hw
      rw [Pointer.find?_append, hu] at hv
      rw [locationText_append]
      exact .child (ih hu) ((child_iff hobject).2 ⟨c, hc, hv, rfl⟩) hobject

theorem Explores.reached {location : String}
    (h : Explores root (References.index d root) location v) :
    ∃ p, Reached d root p ∧ p.find? root = some v ∧ location = locationText p := by
  induction h with
  | root hobject => exact ⟨[], .nil hobject, rfl, rfl⟩
  | @child location node step child _ hchild hobject ih =>
    obtain ⟨p, hp, hv, rfl⟩ := ih
    obtain ⟨c, hc, hfind, rfl⟩ := (child_iff hobject).1 hchild
    have hfind : (p ++ c).find? root = some child := by
      rw [Pointer.find?_append, hv]
      exact hfind
    have hnext : p ++ c ∈ nextPlaces root (References.index d root) p :=
      mem_nextPlaces.2 ⟨_, hv, isObjectAt_iff.2 ⟨_, hfind, hobject⟩, .inr ⟨c, hc, rfl⟩⟩
    exact ⟨p ++ c, hp.next hnext, hfind, (locationText_append p c).symm⟩
  | @reference location node reference place q target _ href hplace hresolve hfind hobject ih =>
    obtain ⟨p, hp, hv, rfl⟩ := ih
    rw [placeOf?_locationText hp.plain, Option.some.injEq] at hplace
    subst hplace
    have hnext : q ∈ nextPlaces root (References.index d root) p :=
      mem_nextPlaces.2 ⟨_, hv, isObjectAt_iff.2 ⟨_, hfind, hobject⟩,
        .inl (mem_targetPlaces.2 ⟨reference, href, hresolve⟩)⟩
    exact ⟨q, hp.next hnext, hfind, rfl⟩

theorem explores_iff {location : String} : Explores root (References.index d root) location v ↔
    ∃ p, Reached d root p ∧ p.find? root = some v ∧ location = locationText p := by
  constructor
  · intro h
    exact h.reached
  · rintro ⟨p, hp, hv, rfl⟩
    exact hp.explores hv

namespace Explored

theorem mem_places_ofRoot :
    p ∈ (ofRoot root).places ↔ Reached (Draft.ofDocument root) root p := by
  rw [ofRoot, List.mem_mergeSort]
  exact run_places.mem_iff

theorem mem_nodes_ofRoot (hp : p.Plain) (hv : p.find? root = some v) :
    (locationText p, v) ∈ (ofRoot root).nodes ↔ Reached (Draft.ofDocument root) root p := by
  rw [mem_nodes]
  constructor
  · rintro ⟨q, hq, -, heq⟩
    have hq := mem_places_ofRoot.1 hq
    rw [locationText_injective hp hq.plain heq]
    exact hq
  · intro h
    exact ⟨p, mem_places_ofRoot.2 h, hv, rfl⟩

theorem nodup_places_ofRoot : (ofRoot root).places.Nodup :=
  (List.mergeSort_perm _ _).nodup_iff.2 (run_places.nodup .nil)

theorem node?_ofRoot_eq_some_iff {location : String} :
    (ofRoot root).node? location = some v ↔ (location, v) ∈ (ofRoot root).nodes := by
  refine ⟨mem_nodes_of_node?, ?_⟩
  intro h
  obtain ⟨p, hp, hv, rfl⟩ := mem_nodes.1 h
  have hinj : ((ofRoot root).places.map locationText).Nodup :=
    List.Nodup.map_on (fun q hq r hr => locationText_injective
      (mem_places_ofRoot.1 hq).plain (mem_places_ofRoot.1 hr).plain) nodup_places_ofRoot
  rw [node?, Names.find?_eq_some_of_nodup_map hinj hp]
  exact hv

theorem keys_nodes_ofRoot : (ofRoot root).nodes.map (·.1) = (ofRoot root).places.map locationText := by
  have hkeys (ps : List Pointer) (h : ∀ p ∈ ps, isObjectAt root p) :
      (ps.filterMap fun p => (p.find? root).map fun v => (locationText p, v)).map (·.1) =
        ps.map locationText := by
    induction ps with
    | nil => rfl
    | cons p ps ih =>
      obtain ⟨v, hv, -⟩ := isObjectAt_iff.1 (h p (.head ps))
      rw [List.filterMap_cons, hv, Option.map_some, List.map_cons,
        ih fun q hq => h q (.tail p hq), List.map_cons]
  apply hkeys _
  intro p hp
  exact (mem_places_ofRoot.1 hp).isObjectAt

theorem sorted_locations_ofRoot : ((ofRoot root).places.map locationText).Pairwise (· < ·) := by
  have hle : (ofRoot root).places.Pairwise fun p q => decide (¬ locationText q < locationText p) := by
    refine List.pairwise_mergeSort (?_) (?_) _
    · intro p q r hpq hqr
      have hpq := String.not_lt.1 (of_decide_eq_true hpq)
      have hqr := String.not_lt.1 (of_decide_eq_true hqr)
      exact decide_eq_true (String.not_lt.2 (String.le_trans hpq hqr))
    · intro p q
      rw [Bool.or_eq_true, decide_eq_true_iff, decide_eq_true_iff, String.not_lt, String.not_lt]
      exact String.le_total (locationText p) (locationText q)
  rw [List.pairwise_map]
  apply (hle.and nodup_places_ofRoot).imp_of_mem
  rintro p q hp hq ⟨hle, hne⟩
  have hle := String.not_lt.1 (of_decide_eq_true hle)
  by_contra hlt
  have heq := String.le_antisymm hle (String.not_lt.1 hlt)
  have hplain {p : Pointer} (hp : p ∈ (ofRoot root).places) : p.Plain := (mem_places_ofRoot.1 hp).plain
  exact hne (locationText_injective (hplain hp) (hplain hq) heq)

/-- Exploration ends, and what it finds is the least set that the root and the steps generate, each
schema under its own location and in the order of locations. -/
theorem ofRoot_least (root : Json) :
    let e := ofRoot root
    let refs := References.index (Draft.ofDocument root) root
    Closure.Run (nextPlaces root refs) ([[]].filter (isObjectAt root)) []
      (JsonSchema.places root refs) ∧
    (∀ location, location ∈ e.places.map locationText ↔ ∃ v, Explores root refs location v) ∧
    (∀ location v, e.node? location = some v ↔ Explores root refs location v) ∧
    (∀ location v, (location, v) ∈ e.nodes ↔ Explores root refs location v) ∧
    e.nodes.map (·.1) = e.places.map locationText ∧
    (e.nodes.map (·.1)).Pairwise (· < ·) ∧
    e.nodes.length = e.size := by
  have hnodes (location : String) (v : Json) : (location, v) ∈ (ofRoot root).nodes ↔
      Explores root (References.index (Draft.ofDocument root) root) location v := by
    rw [mem_nodes, explores_iff]
    apply exists_congr
    intro p
    exact and_congr_left' mem_places_ofRoot
  refine ⟨run_places, ?_, ?_, hnodes, keys_nodes_ofRoot, ?_, ?_⟩
  · intro location
    rw [← keys_nodes_ofRoot, List.mem_map]
    constructor
    · rintro ⟨⟨location, v⟩, h, rfl⟩
      exact ⟨v, (hnodes location v).1 h⟩
    · rintro ⟨v, h⟩
      exact ⟨(location, v), (hnodes location v).2 h, rfl⟩
  · intro location v
    rw [node?_ofRoot_eq_some_iff, hnodes]
  · rw [keys_nodes_ofRoot]
    exact sorted_locations_ofRoot
  · have h := congrArg List.length (@keys_nodes_ofRoot root)
    rwa [List.length_map, List.length_map] at h

end Explored

end SchemaEvolution.JsonSchema
