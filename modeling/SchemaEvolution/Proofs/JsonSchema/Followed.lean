import SchemaEvolution.Proofs.JsonSchema.Bases
import SchemaEvolution.Proofs.JsonSchema.Exploration
import SchemaEvolution.Proofs.Url.Fragment

/-!
Which pointer references are followed. A reference that is only a fragment is read at the nearest
resource around it, provided that the index knows the place it is made at.
-/

namespace SchemaEvolution.JsonSchema

namespace References

variable {d : Draft} {base : Option Url} {root v node : Json} {p q : Pointer} {inner : Url}
variable {reference s : String} {f : List Char}

theorem fragment_scope {identity : Option Identity} (h : ∀ b ∈ base, b.fragment = none) :
    ∀ b ∈ base >>= scope? identity, b.fragment = none := by
  intro b hb
  obtain ⟨outer, houter, hb⟩ := Option.bind_eq_some_iff.1 hb
  unfold scope? at hb
  split at hb
  · obtain ⟨u, -, rfl⟩ := Option.map_eq_some_iff.1 hb
    rfl
  · cases hb
    exact h _ houter

theorem Enters.fragment (h : Enters d base v q node inner)
    (hbase : ∀ b ∈ base, b.fragment = none) : inner.fragment = none := by
  induction h with
  | here hinner => exact fragment_scope hbase _ hinner
  | member _ _ _ ih => exact ih (fragment_scope hbase)
  | item _ _ ih => exact ih hbase

theorem fragment_documentBase : ∀ b ∈ documentBase, b.fragment = none := by
  decide +kernel

theorem resolve?_pointer {r : References} {target : Pointer} (hscope : r.scopes.lookup p = some inner)
    (hinner : inner.fragment = none) (hf : Url.cleaned reference.toList = '#' :: f)
    (hs : Text.Percent.decodeUtf8? (String.ofList f) = some s)
    (htarget : Pointer.ofText? s = some target) :
    r.resolve? reference p = (r.resources.lookup inner.text).map (· ++ target) := by
  have hfragment : Text.Percent.decodeUtf8? (String.ofList
      (Text.Percent.encode Url.escapedInFragment f)) = some s := by
    rw [← hs, Text.Percent.decodeUtf8?, Text.Percent.decodeUtf8?, String.toList_ofList,
      String.toList_ofList, Url.decode_fragment]
  have hinner : (Url.withoutFragment { inner with
      fragment := some (Text.Percent.encode Url.escapedInFragment f) }) = inner := by
    cases inner
    simp_all [Url.withoutFragment]
  simp only [resolve?, hscope, Option.bind_eq_bind, Option.bind_some, Url.join?_fragment hf,
    Option.getD_some, hfragment, hinner]
  cases r.resources.lookup inner.text with
  | none => rfl
  | some resource =>
    rw [Option.bind_some, Option.map_some]
    obtain ⟨hnil, rfl⟩ | ⟨cs, hcs, -⟩ := Pointer.ofText?_eq_some_iff.1 htarget
    · rw [hnil, List.append_nil]
      rfl
    · rw [hcs, htarget]
      rfl

/-- The identifiers of resources are addresses, and no two resources have the same address. -/
structure Identified (d : Draft) (root : Json) : Prop where
  valid : ∀ p ∈ root.pointers, Indexed p → declaresAt d root p →
    (baseAt? d documentBase root p).isSome
  distinct : ∀ p ∈ root.pointers, ∀ q ∈ root.pointers, Indexed p → Indexed q →
    declaresAt d root p → declaresAt d root q →
    (baseAt? d documentBase root p).map Url.text = (baseAt? d documentBase root q).map Url.text →
    p = q

/-- No resource has the address that stands for the document itself. -/
def Unclaimed (d : Draft) (root : Json) : Prop :=
  ∀ p ∈ root.pointers, Indexed p → declaresAt d root p →
    (baseAt? d documentBase root p).map Url.text ≠ documentBase.map Url.text

theorem mem_scopes_iff (hroot : root.Ordered) (hfind : p.find? root = some node)
    (hnode : node.isObject) : (p, inner) ∈ (index d root).scopes ↔
      Indexed p ∧ baseAt? d documentBase root p = some inner := by
  rw [index_scopes, List.mem_reverse, List.mem_map]
  constructor
  · rintro ⟨e, he, heq⟩
    cases heq
    obtain ⟨hp, -, -, hbase⟩ := (enters_iff hroot).1 (mem_noted_iff.1 he)
    exact ⟨hp, hbase⟩
  · rintro ⟨hp, hbase⟩
    exact ⟨⟨p, node, inner⟩,
      mem_noted_iff.2 ((enters_iff hroot).2 ⟨hp, hfind, hnode, hbase⟩), rfl⟩

theorem lookup_scopes_eq_some_iff (hroot : root.Ordered) (hfind : p.find? root = some node)
    (hnode : node.isObject) : (index d root).scopes.lookup p = some inner ↔
      Indexed p ∧ baseAt? d documentBase root p = some inner := by
  rw [← mem_scopes_iff hroot hfind hnode]
  refine ⟨Names.mem_of_lookup_eq_some, ?_⟩
  intro h
  obtain ⟨other, hother⟩ : ∃ other, (index d root).scopes.lookup p = some other :=
    Option.isSome_iff_exists.1 (List.lookup_isSome_iff.2 ⟨_, h, beq_self_eq_true p⟩)
  have hmem := Names.mem_of_lookup_eq_some hother
  rw [mem_scopes_iff hroot hfind hnode] at h hmem
  rw [hother, ← h.2, hmem.2]

@[simp] theorem mem_entry_resources {e : Entry} {a : String × Pointer} :
    a ∈ e.resources d ↔ declares d e.node ∧ a = (e.base.text, e.place) := by
  unfold Entry.resources declares
  cases identity? d e.node with
  | none => simp
  | some identity => cases identity <;> simp

theorem mem_declared_iff (hroot : root.Ordered) {address : String} :
    (address, p) ∈ (noted d root).flatMap (Entry.resources d) ↔
      p ∈ root.pointers ∧ Indexed p ∧ declaresAt d root p ∧
        (baseAt? d documentBase root p).map Url.text = some address := by
  simp only [List.mem_flatMap, mem_entry_resources]
  constructor
  · rintro ⟨e, he, hd, heq⟩
    obtain ⟨rfl, rfl⟩ := Prod.mk.inj heq
    obtain ⟨hp, hfind, -, hbase⟩ := (enters_iff hroot).1 (mem_noted_iff.1 he)
    refine ⟨mem_pointers_of_mem_noted he, hp, ?_, by rw [hbase]; rfl⟩
    unfold declaresAt
    rw [hfind]
    exact hd
  · rintro ⟨-, hp, hd, hbase⟩
    obtain ⟨b, hb, rfl⟩ := Option.map_eq_some_iff.1 hbase
    unfold declaresAt at hd
    cases hfind : p.find? root with
    | none =>
      rw [hfind] at hd
      cases hd
    | some node =>
      rw [hfind] at hd
      have hnode : node.isObject := by
        apply Bool.of_not_eq_false
        intro hnode
        rw [Option.map_some, Option.getD_some, declares, identity?_eq_none hnode] at hd
        cases hd
      exact ⟨⟨p, node, b⟩, mem_noted_iff.2 ((enters_iff hroot).2 ⟨hp, hfind, hnode, hb⟩), hd, rfl⟩

theorem exists_lookup_declared (hroot : root.Ordered) {address : String} (hmem : p ∈ root.pointers)
    (hp : Indexed p) (hd : declaresAt d root p)
    (hbase : (baseAt? d documentBase root p).map Url.text = some address) :
    ∃ q ∈ root.pointers, Indexed q ∧ declaresAt d root q ∧
      (baseAt? d documentBase root q).map Url.text = some address ∧
      (index d root).resources.lookup address = some q := by
  have hdeclared : (address, p) ∈ ((noted d root).flatMap (Entry.resources d)).reverse :=
    List.mem_reverse.2 ((mem_declared_iff hroot).2 ⟨hmem, hp, hd, hbase⟩)
  obtain ⟨q, hq⟩ := Option.isSome_iff_exists.1
    (List.lookup_isSome_iff.2 ⟨_, hdeclared, beq_self_eq_true address⟩)
  obtain ⟨hqmem, hqi, hqd, hqbase⟩ :=
    (mem_declared_iff hroot).1 (List.mem_reverse.1 (Names.mem_of_lookup_eq_some hq))
  refine ⟨q, hqmem, hqi, hqd, hqbase, ?_⟩
  rw [index_resources, List.lookup_append, hq]
  rfl

theorem lookup_resources_of_declaresAt (hroot : root.Ordered) (hids : Identified d root)
    (hmem : p ∈ root.pointers) (hp : Indexed p) (hd : declaresAt d root p)
    (hbase : baseAt? d documentBase root p = some inner) :
    (index d root).resources.lookup inner.text = some p := by
  have haddress : (baseAt? d documentBase root p).map Url.text = some inner.text := by
    rw [hbase]
    rfl
  obtain ⟨q, hqmem, hqi, hqd, hqbase, hq⟩ := exists_lookup_declared hroot hmem hp hd haddress
  have heq : q = p :=
    hids.distinct q hqmem p hmem hqi hp hqd hd (hqbase.trans haddress.symm)
  rw [hq, heq]

theorem lookup_resources_of_unclaimed (hroot : root.Ordered) (hbase : documentBase = some inner)
    (h : Unclaimed d root) : (index d root).resources.lookup inner.text = some [] := by
  have hnone : ((noted d root).flatMap (Entry.resources d)).reverse.lookup inner.text = none := by
    apply List.lookup_eq_none_iff.2
    intro a ha
    obtain ⟨address, p⟩ := a
    obtain ⟨hmem, hp, hd, hp'⟩ := (mem_declared_iff hroot).1 (List.mem_reverse.1 ha)
    have hne := h p hmem hp hd
    rw [hp', hbase, Option.map_some] at hne
    apply bne_iff_ne.2
    intro heq
    exact hne (congrArg some heq.symm)
  rw [index_resources, List.lookup_append, hnone, hbase]
  exact List.lookup_cons_self

theorem exists_lookup_of_not_unclaimed (hroot : root.Ordered) (hbase : documentBase = some inner)
    (h : ¬ Unclaimed d root) :
    ∃ q, declaresAt d root q ∧ (index d root).resources.lookup inner.text = some q := by
  unfold Unclaimed at h
  push Not at h
  obtain ⟨p, hmem, hp, hd, heq⟩ := h
  have haddress : documentBase.map Url.text = some inner.text := by
    rw [hbase]
    rfl
  obtain ⟨q, -, -, hqd, -, hq⟩ :=
    exists_lookup_declared hroot hmem hp hd (heq.trans haddress)
  exact ⟨q, hqd, hq⟩

/-- A place whose pointer references are followed. -/
def Follows (d : Draft) (root : Json) (p : Pointer) : Prop :=
  Indexed p ∧ ((nearest? d root p).isSome ∨ Unclaimed d root)

theorem exists_documentBase : ∃ b, documentBase = some b :=
  Option.isSome_iff_exists.1 (by decide +kernel)

theorem exists_find?_of_declaresAt (h : declaresAt d root p) : ∃ v, p.find? root = some v := by
  unfold declaresAt at h
  cases hp : p.find? root with
  | none => simp [hp] at h
  | some v => exact ⟨v, rfl⟩

theorem lookup_resources_of_nearest? (hroot : root.Ordered) (hids : Identified d root)
    (hfind : p.find? root = some node) (hp : Indexed p) (hq : nearest? d root p = some q) :
    ∃ b, baseAt? d documentBase root p = some b ∧
      (index d root).resources.lookup b.text = some q := by
  have hqi : Indexed q := by
    intro t ht
    exact hp t (subset_of_nearest? hq ht)
  have hqd := declaresAt_of_nearest? hq
  obtain ⟨w, hw⟩ := exists_find?_of_declaresAt hqd
  have hqmem := Pointer.mem_pointers_of_find? hqi.standard hw
  obtain ⟨b, hb⟩ := Option.isSome_iff_exists.1 (hids.valid q hqmem hqi hqd)
  exact ⟨b, (baseAt?_of_nearest? hfind hq).trans hb,
    lookup_resources_of_declaresAt hroot hids hqmem hqi hqd hb⟩

theorem lookup_resources_of_nearest?_eq_none (hroot : root.Ordered)
    (hfind : p.find? root = some node) (hq : nearest? d root p = none) :
    ∃ b, baseAt? d documentBase root p = some b ∧
      ((index d root).resources.lookup b.text = some [] ↔ Unclaimed d root) := by
  obtain ⟨b, hb⟩ := exists_documentBase
  refine ⟨b, (baseAt?_of_nearest?_eq_none hfind hq).trans hb, fun h => ?_,
    lookup_resources_of_unclaimed hroot hb⟩
  -- a claimed address leads to a resource of its own, and the root is none
  by_contra hun
  obtain ⟨q, hqd, hlookup⟩ := exists_lookup_of_not_unclaimed hroot hb hun
  cases h.symm.trans hlookup
  have hdeclares : declares d root = true := hqd
  rw [not_declares_of_nearest? hq] at hdeclares
  cases hdeclares

theorem resolve?_of_not_indexed (hroot : root.Ordered) (hfind : p.find? root = some node)
    (hnode : node.isObject) (hp : ¬ Indexed p) : (index d root).resolve? reference p = none := by
  have hnone : (index d root).scopes.lookup p = none := by
    apply Option.eq_none_iff_forall_ne_some.2
    intro b hb
    exact hp ((lookup_scopes_eq_some_iff hroot hfind hnode).1 hb).1
  simp [resolve?, hnone]

theorem resolve?_nearest_iff (hroot : root.Ordered) (hids : Identified d root)
    (hfind : p.find? root = some node) (hnode : node.isObject)
    (hf : Url.cleaned reference.toList = '#' :: f)
    (hs : Text.Percent.decodeUtf8? (String.ofList f) = some s) {target : Pointer}
    (htarget : Pointer.ofText? s = some target) :
    (index d root).resolve? reference p = some ((nearest? d root p).getD [] ++ target) ↔
      Follows d root p := by
  unfold Follows
  by_cases hp : Indexed p
  · have hresolve {b : Url} (hbase : baseAt? d documentBase root p = some b) :
        (index d root).resolve? reference p =
          ((index d root).resources.lookup b.text).map (· ++ target) :=
      resolve?_pointer ((lookup_scopes_eq_some_iff hroot hfind hnode).2 ⟨hp, hbase⟩)
        (((enters_iff hroot).2 ⟨hp, hfind, hnode, hbase⟩).fragment fragment_documentBase)
        hf hs htarget
    cases hq : nearest? d root p with
    | some q =>
      obtain ⟨b, hbase, hlookup⟩ := lookup_resources_of_nearest? hroot hids hfind hp hq
      rw [hresolve hbase, hlookup]
      simp [hp]
    | none =>
      obtain ⟨b, hbase, hiff⟩ := lookup_resources_of_nearest?_eq_none hroot hfind hq
      rw [hresolve hbase]
      simp [hp, hiff]
  · rw [resolve?_of_not_indexed hroot hfind hnode hp]
    simp [hp]

theorem plain_of_nearest? (hp : p.Plain) : Pointer.Plain ((nearest? d root p).getD []) := by
  cases hq : nearest? d root p with
  | none => exact List.forall_mem_nil _
  | some q => exact fun t ht => hp t (subset_of_nearest? hq ht)

end References

variable {d : Draft} {root node : Json} {location reference s : String} {place target : Pointer}
variable {f : List Char}

theorem targetPlaces_eq_singleton_iff {refs : References} {p q : Pointer}
    (href : node.string? "$ref" = some reference) :
    targetPlaces refs node p = [q] ↔ refs.resolve? reference p = some q := by
  unfold targetPlaces
  rw [href]
  cases h : refs.resolve? reference p <;> simp [h]

inductive ReachedWithout (d : Draft) (root : Json) (place target : Pointer) : Pointer → Prop
  | nil : isObjectAt root [] → ReachedWithout d root place target []
  | child {p c : Pointer} {v : Json} :
    ReachedWithout d root place target p → p.find? root = some v → c ∈ childPlaces v →
    isObjectAt root (p ++ c) → ReachedWithout d root place target (p ++ c)
  | reference {p q : Pointer} {v : Json} :
    ReachedWithout d root place target p → p.find? root = some v →
    q ∈ targetPlaces (References.index d root) v p → isObjectAt root q →
    ¬ (p = place ∧ q = target) → ReachedWithout d root place target q

theorem ReachedWithout.reached {p : Pointer} (h : ReachedWithout d root place target p) :
    Reached d root p := by
  induction h with
  | nil hroot =>
    apply Reached.nil
    obtain ⟨v, hv, hobject⟩ := isObjectAt_iff.1 hroot
    cases hv
    exact hobject
  | child _ hv hc hobject ih => exact ih.next (mem_nextPlaces.2 ⟨_, hv, hobject, .inr ⟨_, hc, rfl⟩⟩)
  | reference _ hv hq hobject _ ih => exact ih.next (mem_nextPlaces.2 ⟨_, hv, hobject, .inl hq⟩)

theorem Reached.without {p : Pointer} (hplace : place.find? root = some node)
    (hnot : target ∉ targetPlaces (References.index d root) node place) (h : Reached d root p) :
    ReachedWithout d root place target p := by
  induction h with
  | start h =>
    obtain ⟨hp, hobject⟩ := List.mem_filter.1 h
    cases List.mem_singleton.1 hp
    exact .nil hobject
  | @step p q _ hq ih =>
    obtain ⟨v, hv, hobject, htarget | ⟨c, hc, rfl⟩⟩ := mem_nextPlaces.1 hq
    · apply ReachedWithout.reference ih hv htarget hobject
      rintro ⟨rfl, rfl⟩
      cases hplace.symm.trans hv
      exact hnot htarget
    · exact .child ih hv hc hobject

/-- In a document with good identifiers a pointer reference is followed to its target below the
nearest resource exactly if every token of its place is indexed and no resource elsewhere has the
address of the document. Otherwise the target is explored only where other steps lead to it. -/
theorem pointer_reference_followed_iff (hroot : root.Ordered)
    (hids : References.Identified (Draft.ofDocument root) root)
    (hnode : (location, node) ∈ (Explored.ofRoot root).nodes)
    (hplace : placeOf? location = some place)
    (href : node.string? "$ref" = some reference)
    (hf : Url.cleaned reference.toList = '#' :: f)
    (hs : Text.Percent.decodeUtf8? (String.ofList f) = some s)
    (htarget : Pointer.ofText? s = some target) :
    let d := Draft.ofDocument root
    let full := (References.nearest? d root place).getD [] ++ target
    (targetPlaces (References.index d root) node place = [full] ↔
      References.Follows d root place) ∧
    ∀ v, full.find? root = some v → v.isObject →
      ((locationText full, v) ∈ (Explored.ofRoot root).nodes ↔
        References.Follows d root place ∨ ReachedWithout d root place full full) := by
  obtain ⟨p, hp, hfind, rfl⟩ := Explored.mem_nodes.1 hnode
  have hreached := Explored.mem_places_ofRoot.1 hp
  rw [placeOf?_locationText hreached.plain, Option.some.injEq] at hplace
  subst hplace
  obtain ⟨w, hw, hobject⟩ := isObjectAt_iff.1 hreached.isObjectAt
  cases hfind.symm.trans hw
  have hiff := References.resolve?_nearest_iff hroot hids hfind hobject hf hs htarget
  refine ⟨(targetPlaces_eq_singleton_iff href).trans hiff, ?_⟩
  intro v hv hv'
  have hresource : Pointer.Plain ((References.nearest? (Draft.ofDocument root) root p).getD []) :=
    References.plain_of_nearest? hreached.plain
  rw [Explored.mem_nodes_ofRoot (hresource.append (Pointer.plain_of_ofText? htarget).1) hv]
  constructor
  -- without the step in question the target has to be reached by other steps
  · intro h
    by_cases hfollows : References.Follows (Draft.ofDocument root) root p
    · exact .inl hfollows
    · refine .inr (h.without hfind fun htarget => hfollows (hiff.1 ?_))
      obtain ⟨r, hr, hresolve⟩ := mem_targetPlaces.1 htarget
      cases href.symm.trans hr
      exact hresolve
  · rintro (hfollows | h)
    · exact hreached.next (mem_nextPlaces.2 ⟨node, hfind, isObjectAt_iff.2 ⟨v, hv, hv'⟩,
        .inl (mem_targetPlaces.2 ⟨reference, href, hiff.2 hfollows⟩)⟩)
    · exact h.reached

def innerResource : Json :=
  .object [("properties", .object [("p", .object [
    ("$defs", .object [("a b", .object [])]),
    ("$id", .string "http://example.com/p.json"),
    ("items", .object [("$ref", .string "#/$defs/a%20b")])])])]

theorem reached_innerResource :
    Reached (Draft.ofDocument innerResource) innerResource ["properties", "p", "items"] := by
  have hroot : Reached (Draft.ofDocument innerResource) innerResource [] := .nil rfl
  have hproperty : Reached (Draft.ofDocument innerResource) innerResource ["properties", "p"] :=
    hroot.next (by decide +kernel)
  exact hproperty.next (by decide +kernel)

theorem pointer_reference_followed_innerResource :
    targetPlaces (References.index (Draft.ofDocument innerResource) innerResource)
      (.object [("$ref", .string "#/$defs/a%20b")]) ["properties", "p", "items"] =
        [["properties", "p", "$defs", "a b"]] ∧
    ("#/properties/p/$defs/a b", Json.object []) ∈ (Explored.ofRoot innerResource).nodes := by
  have hordered : innerResource.Ordered := by
    simp only [innerResource, Json.Ordered, Json.OrderedMembers]
    decide +kernel
  have hids : References.Identified (Draft.ofDocument innerResource) innerResource :=
    ⟨by decide +kernel, by decide +kernel⟩
  have hnode : ("#/properties/p/items", Json.object [("$ref", .string "#/$defs/a%20b")]) ∈
      (Explored.ofRoot innerResource).nodes :=
    Explored.mem_nodes.2 ⟨_, Explored.mem_places_ofRoot.2 reached_innerResource, rfl, rfl⟩
  have hplace : placeOf? "#/properties/p/items" = some ["properties", "p", "items"] := by
    decide +kernel
  have hf : Url.cleaned "#/$defs/a%20b".toList = '#' :: "/$defs/a%20b".toList := by decide +kernel
  have hs : Text.Percent.decodeUtf8? (String.ofList "/$defs/a%20b".toList) = some "/$defs/a b" := by
    decide +kernel
  have htarget : Pointer.ofText? "/$defs/a b" = some ["$defs", "a b"] := by decide +kernel
  have hnearest : References.nearest? (Draft.ofDocument innerResource) innerResource
      ["properties", "p", "items"] = some ["properties", "p"] := by decide +kernel
  have hfollows : References.Follows (Draft.ofDocument innerResource) innerResource
      ["properties", "p", "items"] := ⟨by decide +kernel, .inl (hnearest ▸ rfl)⟩
  have hlocation : locationText (["properties", "p"] ++ ["$defs", "a b"]) =
      "#/properties/p/$defs/a b" := by decide +kernel
  have h := pointer_reference_followed_iff hordered hids hnode hplace rfl hf hs htarget
  dsimp only at h
  rw [hnearest, Option.getD_some, hlocation] at h
  exact ⟨h.1.2 hfollows, (h.2 _ rfl rfl).2 (.inl hfollows)⟩

def propertyDefault : Json :=
  .object [("definitions", .object [("x", .object [("type", .string "string")])]),
    ("properties", .object [("default", .object [("$ref", .string "#/definitions/x")])])]

/-- The index leaves the property out, so its reference is lost. -/
theorem pointer_reference_lost :
    propertyDefault.Ordered ∧
    References.Identified (Draft.ofDocument propertyDefault) propertyDefault ∧
    ("#/properties/default", Json.object [("$ref", .string "#/definitions/x")]) ∈
      (Explored.ofRoot propertyDefault).nodes ∧
    References.nearest? (Draft.ofDocument propertyDefault) propertyDefault
      ["properties", "default"] = none ∧
    Pointer.find? ["definitions", "x"] propertyDefault =
      some (.object [("type", .string "string")]) ∧
    ∀ v, ("#/definitions/x", v) ∉ (Explored.ofRoot propertyDefault).nodes := by
  refine ⟨?_, ⟨by decide +kernel, by decide +kernel⟩, ?_, by decide +kernel, ?_, ?_⟩
  · simp only [propertyDefault, Json.Ordered, Json.OrderedMembers]
    decide +kernel
  · have hroot : Reached (Draft.ofDocument propertyDefault) propertyDefault [] := .nil rfl
    have hproperty : Reached (Draft.ofDocument propertyDefault) propertyDefault
        ["properties", "default"] := hroot.next (by decide +kernel)
    exact Explored.mem_nodes.2 ⟨_, Explored.mem_places_ofRoot.2 hproperty, rfl, rfl⟩
  · rfl
  · intro v hv
    obtain ⟨p, hp, -, hlocation⟩ := Explored.mem_nodes.1 hv
    have hmem : p ∈ [[], ["properties", "default"]] :=
      (Explored.mem_places_ofRoot.1 hp).mem_of_closed (by decide) (by decide +kernel)
    have hne : ∀ q ∈ [[], ["properties", "default"]], "#/definitions/x" ≠ locationText q := by
      decide +kernel
    exact hne p hmem hlocation

end SchemaEvolution.JsonSchema
