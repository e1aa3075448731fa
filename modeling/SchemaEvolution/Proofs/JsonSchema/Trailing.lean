import Mathlib.Data.List.Sort
import SchemaEvolution.Proofs.JsonSchema.Compatible
import SchemaEvolution.Proofs.JsonSchema.Exploration

/-!
The schema of the items after the positional ones. Two versions of it that are objects are left to
the comparison at their own location, which takes place only where exploration enters them.
-/

namespace SchemaEvolution.JsonSchema

def Draft.trailingKeyword (d : Draft) : String :=
  if d.usesPrefixItems then "items" else "additionalItems"

theorem Draft.trailingKeyword_eq_items {d : Draft} (h : d.usesPrefixItems) :
    d.trailingKeyword = "items" := if_pos h

theorem Draft.trailingKeyword_eq_additionalItems {d : Draft} (h : ¬ d.usesPrefixItems) :
    d.trailingKeyword = "additionalItems" := if_neg h

@[simp] theorem unescape_trailingKeyword (d : Draft) :
    Pointer.unescape d.trailingKeyword = d.trailingKeyword := by
  revert d; intro d; cases d <;> decide

variable {root node : Json} {d : Draft} {p q : Pointer} {v : Json}

/-- How exploration comes to the schema of further items of the node at a place. In the latest draft
it is a schema keyword; otherwise some schema refers to it, or the node is no more than the list of
properties of a schema around it. -/
inductive EntersTrailing (d : Draft) (root : Json) (p : Pointer) : Prop
  | keyword : d.usesPrefixItems → EntersTrailing d root p
  | reference {q : Pointer} {v : Json} : Reached d root q → q.find? root = some v →
    p ++ ["additionalItems"] ∈ targetPlaces (References.index d root) v q → EntersTrailing d root p
  | property {q : Pointer} : Reached d root q → p = q ++ ["properties"] → EntersTrailing d root p

theorem index_ne {token : String} (h : Pointer.index? token = none) (i : Nat) :
    Pointer.index i ≠ token := by
  rintro rfl
  cases (Pointer.index?_index i).symm.trans h

theorem eq_properties_of_mem_childPlaces {c : Pointer} (hc : c ∈ childPlaces node)
    (h : p ++ ["additionalItems"] = q ++ c) : p = q ++ ["properties"] := by
  have hpair {s t : String} (h : p ++ ["additionalItems"] = q ++ [s, t]) :
      p = q ++ [s] ∧ "additionalItems" = t := by
    rw [List.append_cons q s [t]] at h
    exact (List.append_inj' h rfl).imp_right List.singleton_inj.1
  have harray {keyword : String} (hc : c ∈ arrayPlaces keyword node) :
      p = q ++ ["properties"] := by
    obtain ⟨xs, i, -, -, rfl⟩ := mem_arrayPlaces.1 hc
    exact absurd (hpair h).2.symm (index_ne (by decide) i)
  simp only [childPlaces, List.mem_append, List.mem_flatMap] at hc
  obtain ((⟨keyword, -, hc⟩ | hc) | hc) | hc := hc
  · exact harray hc
  · obtain ⟨m, -, rfl⟩ := List.mem_map.1 hc
    exact (hpair h).1
  · unfold itemPlaces at hc
    split at hc
    · exact harray hc
    · cases List.mem_singleton.1 hc
      exact absurd (List.singleton_inj.1 (List.append_inj' h rfl).2) (by decide)
    · cases hc
  · exact harray hc

theorem find?_trailing (hp : p.find? root = some node) (hv : node.get? d.trailingKeyword = some v) :
    (p ++ [d.trailingKeyword]).find? root = some v := by
  rw [Pointer.find?_append, hp]
  exact find?_singleton (unescape_trailingKeyword d) hv

theorem items_mem_childPlaces (hv : node.get? "items" = some v) (hobject : v.isObject) :
    ["items"] ∈ childPlaces node := by
  have h := ((mem_itemPlaces_and_find? (c := ["items"]) hobject).2 (.inl ⟨hv, rfl⟩)).1
  simp only [childPlaces, List.mem_append]
  exact .inl (.inr h)

theorem property_mem_childPlaces {name : String} {w : Json}
    (hw : Pointer.find? ["properties"] w = some node) (hv : node.get? name = some v) :
    ["properties", Pointer.escape name] ∈ childPlaces w := by
  have hstep : Pointer.step w "properties" = some node := by
    rw [Pointer.find?_cons] at hw
    cases h : Pointer.step w "properties" with
    | none => simp [h] at hw
    | some u => simpa [h] using hw
  have hproperties : w.get? "properties" = some node := by
    cases w with
    | object ms => exact hstep
    | array xs => cases hstep
    | _ => cases hstep
  cases node with
  | object ms =>
    have h := (mem_propertyPlaces_and_find?.2
      ⟨ms, name, object?_eq_some_iff.2 hproperties, hv, rfl⟩).1
    simp only [childPlaces, List.mem_append]
    exact .inl (.inl (.inr h))
  | _ => cases hv

theorem Reached.trailing_iff (h : Reached d root p) (hp : p.find? root = some node)
    (hv : node.get? d.trailingKeyword = some v) (hobject : v.isObject) :
    Reached d root (p ++ [d.trailingKeyword]) ↔ EntersTrailing d root p := by
  have hplace : JsonSchema.isObjectAt root (p ++ [d.trailingKeyword]) :=
    isObjectAt_iff.2 ⟨v, find?_trailing hp hv, hobject⟩
  by_cases hd : d.usesPrefixItems
  · rw [Draft.trailingKeyword_eq_items hd] at hv hplace ⊢
    have hc := items_mem_childPlaces hv hobject
    have hnext : Reached d root (p ++ ["items"]) :=
      h.next (mem_nextPlaces.2 ⟨node, hp, hplace, .inr ⟨_, hc, rfl⟩⟩)
    exact iff_of_true hnext (.keyword hd)
  rw [Draft.trailingKeyword_eq_additionalItems hd] at hv hplace ⊢
  constructor
  · intro hreached
    generalize hq : p ++ ["additionalItems"] = q at hreached
    cases hreached with
    | start hstart =>
      rw [List.mem_singleton.1 (List.mem_filter.1 hstart).1] at hq
      exact absurd hq (List.concat_ne_nil _ p)
    | step hr hnext =>
      obtain ⟨w, hw, -, htarget | ⟨c, hc, rfl⟩⟩ := mem_nextPlaces.1 hnext
      · exact .reference hr hw (hq ▸ htarget)
      · exact .property hr (eq_properties_of_mem_childPlaces hc hq)
  · intro henters
    cases henters with
    | keyword hkeyword => exact absurd hkeyword hd
    | reference hr hw htarget => exact hr.next (mem_nextPlaces.2 ⟨_, hw, hplace, .inl htarget⟩)
    | @property q hr heq =>
      -- the node is a list of properties, and further items would be one of them
      subst heq
      obtain ⟨w, hw, -⟩ := isObjectAt_iff.1 hr.isObjectAt
      rw [Pointer.find?_append, hw] at hp
      have hc := property_mem_childPlaces hp hv
      have heq : q ++ ["properties"] ++ ["additionalItems"] =
          q ++ ["properties", Pointer.escape "additionalItems"] := by
        rw [List.append_assoc]
        rfl
      exact hr.next (mem_nextPlaces.2 ⟨w, hw, hplace, .inr ⟨_, hc, heq⟩⟩)

variable {cur prev : Node} {current previous : Explored} {location : String} {a b old new : Json}

/-- The checks for arrays run on a pair of nodes: arrays are among the types that both declare, or
both declare none and one of them has a keyword for arrays. -/
def Node.ComparesArrays (cur prev : Node) : Prop :=
  prev.types = cur.types ∧
    ("array" ∈ prev.types ∨
      prev.types = [] ∧ (prev.hasAny arrayKeywords || cur.hasAny arrayKeywords))

theorem mem_select_of_comparesArrays (h : cur.ComparesArrays prev) :
    ∀ check ∈ CheckGroups.standard.array, check ∈ CheckGroups.standard.select cur prev := by
  intro check hcheck
  unfold CheckGroups.select
  obtain harray | ⟨hnil, hkeyword⟩ := h.2
  · have hne : prev.types.isEmpty = false := List.isEmpty_eq_false_iff.2 (List.ne_nil_of_mem harray)
    simp only [hne, harray, if_true, Bool.false_eq_true, if_false, List.mem_append]
    exact .inl (.inr hcheck)
  · simp only [hnil, hkeyword, List.isEmpty_nil, if_true, List.mem_append]
    exact .inr hcheck

theorem mem_nodeDiffs_of_mem_checkAdditionalItems {f : Diff} (h : cur.ComparesArrays prev)
    (hf : f ∈ checkAdditionalItems cur prev) : f ∈ nodeDiffs .standard cur prev := by
  rw [nodeDiffs, if_pos h.1]
  exact List.mem_flatMap.2
    ⟨checkAdditionalItems, mem_select_of_comparesArrays h _ (.tail _ (.head _)), hf⟩

theorem mem_pairDiffs_of_mem_nodeDiffs {f : Diff} (ha : (location, a) ∈ previous.nodes)
    (hb : current.node? location = some b)
    (hf : f ∈ nodeDiffs .standard ⟨location, b, current.draft⟩ ⟨location, a, previous.draft⟩) :
    f ∈ pairDiffs .standard current previous := by
  refine List.mem_flatMap.2 ⟨(location, a), ha, ?_⟩
  simpa only [hb] using hf

theorem schemaDeleted_mem_pairDiffs (ha : (location, a) ∈ previous.nodes)
    (hb : current.node? location = none) :
    ⟨.schemaDeleted, location, "schema was deleted"⟩ ∈ pairDiffs .standard current previous := by
  refine List.mem_flatMap.2 ⟨(location, a), ha, ?_⟩
  simp only [hb, List.mem_singleton]

theorem exists_mem_checkAdditionalItems_iff (hold : prev.trailingItems? = some old)
    (hnew : cur.trailingItems? = some new) (hne : old.equal new = false) :
    (∃ f ∈ checkAdditionalItems cur prev,
      f.kind = .additionalItemsModified ∧ f.location = prev.location) ↔
      ¬ (old.isObject ∧ new.isObject) := by
  simp only [checkAdditionalItems, hold, hnew, hne, Bool.false_or, ← Bool.and_eq_true]
  cases old.isObject && new.isObject <;> simp [Node.found]

namespace Explored

/-- Where the schema of further items of the node at a location is compared with another version,
provided that it is explored. -/
def trailingLocation (e : Explored) (location : String) : String :=
  location ++ "/" ++ e.draft.trailingKeyword

/-- A previous schema is compared with the current one at its location, or reported as deleted. -/
def Accounts (current previous : Explored) (location : String) (old : Json) : Prop :=
  match current.node? location with
  | none => ⟨.schemaDeleted, location, "schema was deleted"⟩ ∈ pairDiffs .standard current previous
  | some new =>
    ∀ f ∈ nodeDiffs .standard ⟨location, new, current.draft⟩ ⟨location, old, previous.draft⟩,
      f ∈ pairDiffs .standard current previous

theorem accounts_of_mem_nodes (h : (location, old) ∈ previous.nodes) :
    current.Accounts previous location old := by
  unfold Accounts
  split
  next hnone => exact schemaDeleted_mem_pairDiffs h hnone
  next new hnew => exact fun f hf => mem_pairDiffs_of_mem_nodeDiffs h hnew hf

end Explored

theorem locationText_append_singleton (p : Pointer) (token : String) :
    locationText (p ++ [token]) = locationText p ++ "/" ++ token := by
  rw [locationText_append, String.append_assoc]
  congr 1

theorem trailingLocation_mem_nodes_iff (hp : p.find? root = some node)
    (hnode : (locationText p, node) ∈ (Explored.ofRoot root).nodes)
    (hplain : p.Plain)
    (hv : node.get? (Draft.ofDocument root).trailingKeyword = some v) (hobject : v.isObject) :
    ((Explored.ofRoot root).trailingLocation (locationText p), v) ∈ (Explored.ofRoot root).nodes ↔
      EntersTrailing (Draft.ofDocument root) root p := by
  have hreached := (Explored.mem_nodes_ofRoot hplain hp).1 hnode
  have hkeyword : Pointer.Plain [(Draft.ofDocument root).trailingKeyword] := by
    refine List.forall_mem_singleton.2 ?_
    unfold Draft.trailingKeyword
    split <;> decide
  rw [← hreached.trailing_iff hp hv hobject, Explored.trailingLocation,
    ← locationText_append_singleton]
  exact Explored.mem_nodes_ofRoot (hplain.append hkeyword) (find?_trailing hp hv)

/-- Two versions of the schema of further items that differ are reported as modified, or each is
explored and compared at its own location. One of these fails exactly if both are objects and
exploration does not enter one of them. -/
theorem trailing_change_compared_iff {previous current : Json}
    (ha : (location, a) ∈ (Explored.ofRoot previous).nodes)
    (hb : (Explored.ofRoot current).node? location = some b)
    (hplace : placeOf? location = some p)
    (hruns : Node.ComparesArrays ⟨location, b, Draft.ofDocument current⟩
      ⟨location, a, Draft.ofDocument previous⟩)
    (hold : Node.trailingItems? ⟨location, a, Draft.ofDocument previous⟩ = some old)
    (hnew : Node.trailingItems? ⟨location, b, Draft.ofDocument current⟩ = some new)
    (hne : old.equal new = false) :
    let prev := Explored.ofRoot previous
    let cur := Explored.ofRoot current
    (∃ f ∈ checkAdditionalItems ⟨location, b, cur.draft⟩ ⟨location, a, prev.draft⟩,
      f.kind = .additionalItemsModified ∧ f.location = location ∧
        f ∈ pairDiffs .standard cur prev) ∨
      ((old.isObject ∧ new.isObject) ∧
        (prev.trailingLocation location, old) ∈ prev.nodes ∧
        (cur.trailingLocation location, new) ∈ cur.nodes ∧
        cur.Accounts prev (prev.trailingLocation location) old) ↔
    (old.isObject ∧ new.isObject →
      EntersTrailing (Draft.ofDocument previous) previous p ∧
        EntersTrailing (Draft.ofDocument current) current p) := by
  obtain ⟨q, hq, hfind, rfl⟩ := Explored.mem_nodes.1 ha
  have hplain := (Explored.mem_places_ofRoot.1 hq).plain
  rw [placeOf?_locationText hplain, Option.some.injEq] at hplace
  subst hplace
  have hb' := Explored.mem_nodes_of_node? hb
  have hfind' : q.find? current = some b := by
    obtain ⟨r, hr, hfind', heq⟩ := Explored.mem_nodes.1 hb'
    rwa [locationText_injective hplain (Explored.mem_places_ofRoot.1 hr).plain heq]
  have hreported := exists_mem_checkAdditionalItems_iff hold hnew hne
  dsimp only
  by_cases hobjects : old.isObject ∧ new.isObject
  · have hprev := trailingLocation_mem_nodes_iff hfind ha hplain hold hobjects.1
    have hcur := trailingLocation_mem_nodes_iff hfind' hb' hplain hnew hobjects.2
    constructor
    · rintro (⟨f, hf, hkind, hlocation, -⟩ | ⟨-, hprev', hcur', -⟩) -
      · exact absurd hobjects (hreported.1 ⟨f, hf, hkind, hlocation⟩)
      · exact ⟨hprev.1 hprev', hcur.1 hcur'⟩
    · intro h
      have hprev' := hprev.2 (h hobjects).1
      exact .inr ⟨hobjects, hprev', hcur.2 (h hobjects).2, Explored.accounts_of_mem_nodes hprev'⟩
  · refine iff_of_true (.inl ?_) fun h => absurd h hobjects
    obtain ⟨f, hf, hkind, hlocation⟩ := hreported.2 hobjects
    exact ⟨f, hf, hkind, hlocation, mem_pairDiffs_of_mem_nodeDiffs ha hb
      (mem_nodeDiffs_of_mem_checkAdditionalItems hruns hf)⟩

theorem Explored.places_ofRoot_eq {ps : List Pointer} (hnil : [] ∈ ps)
    (hsorted : (ps.map locationText).Pairwise (· < ·))
    (hreached : ∀ p ∈ ps, Reached (Draft.ofDocument root) root p)
    (hclosed : ∀ p ∈ ps,
      ∀ q ∈ nextPlaces root (References.index (Draft.ofDocument root) root) p, q ∈ ps) :
    (Explored.ofRoot root).places = ps := by
  have hperm : (Explored.ofRoot root).places.Perm ps := by
    refine (List.perm_ext_iff_of_nodup nodup_places_ofRoot ?_).2 ?_
    · exact List.Nodup.of_map locationText (hsorted.imp fun h => String.ne_of_lt h)
    · intro p
      rw [mem_places_ofRoot]
      refine ⟨?_, hreached p⟩
      intro h
      exact h.mem_of_closed hnil hclosed
  refine hperm.eq_of_pairwise (?_)
    (List.pairwise_map.1 sorted_locations_ofRoot) (List.pairwise_map.1 hsorted)
  intro p q _ _ hpq hqp
  exact absurd (String.lt_trans hpq hqp) (String.lt_irrefl _)

def furtherItems (type : String) : Json :=
  .object [("$schema", .string "http://json-schema.org/draft-07/schema#"),
    ("additionalItems", .object [("type", .string type)]), ("items", .array [.object []]),
    ("type", .string "array")]

theorem ofRoot_furtherItems : ∀ type ∈ ["string", "integer"],
    Explored.ofRoot (furtherItems type) =
      ⟨furtherItems type, .draft7, [[], ["items", "0"]]⟩ := by
  have hdraft : ∀ type ∈ ["string", "integer"], Draft.ofDocument (furtherItems type) = .draft7 := by
    decide +kernel
  have hnext : ∀ type ∈ ["string", "integer"], ["items", "0"] ∈
      nextPlaces (furtherItems type) (References.index .draft7 (furtherItems type)) [] := by
    decide +kernel
  have hclosed : ∀ type ∈ ["string", "integer"], ∀ p ∈ [[], ["items", "0"]],
      ∀ q ∈ nextPlaces (furtherItems type) (References.index .draft7 (furtherItems type)) p,
        q ∈ [[], ["items", "0"]] := by
    decide +kernel
  intro type h
  have hroot : Reached .draft7 (furtherItems type) [] := .nil rfl
  have hplaces : (Explored.ofRoot (furtherItems type)).places = [[], ["items", "0"]] := by
    refine Explored.places_ofRoot_eq (.head _) (by decide +kernel) ?_ ?_
    · rw [hdraft type h, List.forall_mem_cons, List.forall_mem_singleton]
      exact ⟨hroot, hroot.next (hnext type h)⟩
    · rw [hdraft type h]
      exact hclosed type h
  rw [← hplaces, ← hdraft type h]
  rfl

/-- Further items were texts and are integers now, and no comparison tells. -/
theorem trailing_change_lost :
    let cur := Explored.ofRoot (furtherItems "integer")
    let prev := Explored.ofRoot (furtherItems "string")
    Node.ComparesArrays ⟨"#", furtherItems "integer", cur.draft⟩
      ⟨"#", furtherItems "string", prev.draft⟩ ∧
    ("#", furtherItems "string") ∈ prev.nodes ∧ cur.node? "#" = some (furtherItems "integer") ∧
    Node.trailingItems? ⟨"#", furtherItems "string", prev.draft⟩ =
      some (.object [("type", .string "string")]) ∧
    Node.trailingItems? ⟨"#", furtherItems "integer", cur.draft⟩ =
      some (.object [("type", .string "integer")]) ∧
    (∀ v, ("#/additionalItems", v) ∉ prev.nodes) ∧ (∀ v, ("#/additionalItems", v) ∉ cur.nodes) ∧
    (compare .everything cur prev).diffs = [] := by
  have habsent (type : String) (v : Json) : ("#/additionalItems", v) ∉
      (Explored.mk (furtherItems type) .draft7 [[], ["items", "0"]]).nodes := by
    intro h
    obtain ⟨p, hp, -, heq⟩ := Explored.mem_nodes.1 h
    have hne : ∀ p ∈ ([[], ["items", "0"]] : List Pointer),
      "#/additionalItems" ≠ locationText p := by decide +kernel
    exact hne p hp heq
  rw [ofRoot_furtherItems "integer" (by decide), ofRoot_furtherItems "string" (by decide)]
  refine ⟨⟨by decide +kernel, .inl (by decide +kernel)⟩, ?_, rfl, rfl, rfl, habsent _, habsent _,
    by decide +kernel⟩
  exact Explored.mem_nodes.2 ⟨[], .head _, rfl, by decide +kernel⟩

def sharedItems : Json :=
  .object [("$schema", .string "http://json-schema.org/draft-07/schema#"),
    ("additionalItems", .object [("type", .string "string")]),
    ("items", .array [.object [("$ref", .string "#/additionalItems")]]),
    ("type", .string "array")]

def latestItems : Json :=
  .object [("items", .object [("type", .string "integer")]),
    ("prefixItems", .array [.object [("$ref", .string "#/items")]]), ("type", .string "array")]

theorem trailing_change_compared_sharedItems :
    ("#/additionalItems", Json.object [("type", .string "string")]) ∈
      (Explored.ofRoot sharedItems).nodes ∧
    ("#/items", Json.object [("type", .string "integer")]) ∈ (Explored.ofRoot latestItems).nodes ∧
    (Explored.ofRoot latestItems).Accounts (Explored.ofRoot sharedItems) "#/additionalItems"
      (.object [("type", .string "string")]) := by
  have hroot : Reached (Draft.ofDocument sharedItems) sharedItems [] := .nil rfl
  have hitem : Reached (Draft.ofDocument sharedItems) sharedItems ["items", "0"] :=
    hroot.next (by decide +kernel)
  have ha : ("#", sharedItems) ∈ (Explored.ofRoot sharedItems).nodes :=
    Explored.mem_nodes.2 ⟨[], Explored.mem_places_ofRoot.2 hroot, rfl, by decide +kernel⟩
  have hb : (Explored.ofRoot latestItems).node? "#" = some latestItems :=
    Explored.node?_ofRoot_eq_some_iff.2
      (Explored.mem_nodes.2 ⟨[], Explored.mem_places_ofRoot.2 (.nil rfl), rfl, by decide +kernel⟩)
  have henters : EntersTrailing (Draft.ofDocument sharedItems) sharedItems [] :=
    .reference hitem rfl (by decide +kernel)
  have hiff := trailing_change_compared_iff ha hb (p := []) (by decide +kernel)
    ⟨by decide +kernel, .inl (by decide +kernel)⟩ rfl rfl (by decide +kernel)
  obtain ⟨f, hf, -⟩ | ⟨-, hprev, hcur, haccounts⟩ :=
    hiff.2 fun _ => ⟨henters, .keyword (by decide +kernel)⟩
  · exact absurd hf (List.not_mem_nil)
  · exact ⟨hprev, hcur, haccounts⟩

end SchemaEvolution.JsonSchema
