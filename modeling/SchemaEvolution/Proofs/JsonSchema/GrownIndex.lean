import SchemaEvolution.Proofs.JsonSchema.Followed
import SchemaEvolution.Proofs.JsonSchema.Grown

namespace SchemaEvolution.JsonSchema.References

variable {d : Draft} {base : Option Url} {p q : Pointer} {v w x y node : Json} {inner : Url}
variable {ms ns : List (String × Json)}

theorem anonymousItems_iff {xs : List Json} : AnonymousItems xs ↔ ∀ x ∈ xs, Anonymous x := by
  induction xs with
  | nil => simp [AnonymousItems]
  | cons x xs ih => rw [AnonymousItems, ih, List.forall_mem_cons]

theorem anonymousMembers_iff : AnonymousMembers ms ↔ ∀ m ∈ ms, Anonymous m.2 := by
  induction ms with
  | nil => simp [AnonymousMembers]
  | cons m ms ih => rw [AnonymousMembers, ih, List.forall_mem_cons]

theorem Enters.string?_eq_none (h : Enters d base v q node inner) (hv : Anonymous v) :
    ∀ k ∈ identifierKeywords, node.string? k = none := by
  induction h with
  | here => exact hv.1
  | member hx _ _ ih => exact ih (anonymousMembers_iff.1 hv.2 _ hx)
  | item hx _ ih => exact ih (anonymousItems_iff.1 hv _ (List.mem_of_getElem? hx))

theorem idKeyword_mem_identifierKeywords (d : Draft) : d.idKeyword ∈ identifierKeywords := by
  cases d <;> decide

theorem identity?_congr (h : ∀ key, w.string? key = v.string? key) :
    identity? d w = identity? d v := by
  rw [identity?, h, identity?]

structure ReadsIdentifiers {α : Type u} (read : Entry → List α) : Prop where
  congr {place : Pointer} {v w : Json} {base : Url} : (∀ key, w.string? key = v.string? key) →
    read ⟨place, w, base⟩ = read ⟨place, v, base⟩
  anonymous {e : Entry} : (∀ k ∈ identifierKeywords, e.node.string? k = none) → read e = []

theorem identity?_eq_none_of_anonymous (h : ∀ k ∈ identifierKeywords, node.string? k = none) :
    identity? d node = none := by
  rw [identity?, h _ (idKeyword_mem_identifierKeywords d)]
  rfl

theorem readsIdentifiers_resources : ReadsIdentifiers (Entry.resources d) where
  congr h := by rw [Entry.resources, identity?_congr h, Entry.resources]
  anonymous h := by rw [Entry.resources, identity?_eq_none_of_anonymous h]

theorem readsIdentifiers_anchors : ReadsIdentifiers (Entry.anchors d) where
  congr h := by
    simp only [Entry.anchors, Entry.anchorNames, identity?_congr h, h]
  anonymous h := by
    simp only [Entry.anchors, Entry.anchorNames, identity?_eq_none_of_anonymous h,
      h "$anchor" (by decide), h "$dynamicAnchor" (by decide)]
    rfl

namespace ReadsIdentifiers

variable {α : Type u} {read : Entry → List α} (hread : ReadsIdentifiers read)
include hread

theorem flatMap_entries_eq_nil (hv : Anonymous v) : (entries d base p v).flatMap read = [] := by
  apply List.flatMap_eq_nil_iff.2
  intro e he
  obtain ⟨q, -, henters⟩ := enters_of_mem_entries v he
  exact hread.anonymous (henters.string?_eq_none hv)

theorem flatMap_entries_object (hstrings : ∀ key, (Json.object ns).string? key =
      (Json.object ms).string? key)
    (hmembers : ∀ base, (memberEntries d base p ns).flatMap read =
      (memberEntries d base p ms).flatMap read) :
    (entries d base p (.object ns)).flatMap read =
      (entries d base p (.object ms)).flatMap read := by
  rw [entries, entries, identity?_congr hstrings, List.flatMap_append, List.flatMap_append,
    hmembers, List.flatMap_map, List.flatMap_map]
  simp only [hread.congr hstrings]

end ReadsIdentifiers

theorem memberEntries_append (ms ns : List (String × Json)) :
    memberEntries d base p (ms ++ ns) = memberEntries d base p ms ++ memberEntries d base p ns := by
  induction ms with
  | nil => rfl
  | cons m ms ih =>
    rw [List.cons_append, memberEntries, memberEntries, ih]
    split
    · rfl
    · rw [List.append_assoc]

theorem flatMap_itemEntries_set {α : Type u} {read : Entry → List α} {xs : List Json} {i j : Nat}
    (hx : xs[i]? = some x) (h : ∀ p, (entries d base p y).flatMap read =
      (entries d base p x).flatMap read) :
    (itemEntries d base p j (xs.set i y)).flatMap read =
      (itemEntries d base p j xs).flatMap read := by
  induction xs generalizing i j with
  | nil => cases hx
  | cons z xs ih =>
    cases i with
    | zero =>
      cases hx
      rw [List.set_cons_zero, itemEntries, itemEntries, List.flatMap_append, h, List.flatMap_append]
    | succ i =>
      rw [List.set_cons_succ, itemEntries, itemEntries, List.flatMap_append, ih hx,
        List.flatMap_append]

end References

open References

namespace Grows

variable {d : Draft} {base : Option Url} {p : Pointer} {v w x root grown : Json}

theorem string?_eq (h : Grows v w) (hv : v.Ordered) (key : String) :
    w.string? key = v.string? key :=
  (h.slot hv key).string?_eq

theorem flatMap_entries {α : Type u} {read : Entry → List α} (hread : ReadsIdentifiers read)
    (h : Grows v w) (hv : v.Ordered) :
    (entries d base p w).flatMap read = (entries d base p v).flatMap read := by
  induction h generalizing base p with
  | same => rfl
  | @added ms k x hk hitem hform hx hanonymous =>
    refine hread.flatMap_entries_object (string?_eq (.added hk hitem hform hx hanonymous) hv) ?_
    intro base
    obtain ⟨before, after, rfl, hput⟩ := Names.exists_put_of_find?_eq_none (b := x) hk
    rw [hput, memberEntries_append, memberEntries_append, memberEntries]
    split
    · rfl
    · rw [List.flatMap_append, List.flatMap_append, hread.flatMap_entries_eq_nil hanonymous,
        List.nil_append, List.flatMap_append]
  | @member ms k x y hk hslot hgrows ih =>
    refine hread.flatMap_entries_object (string?_eq (.member hk hslot hgrows) hv) ?_
    intro base
    have hx : x.Ordered := Json.orderedMembers_iff.1 hv.2 _ (Names.mem_of_lookup_eq_some hk)
    obtain ⟨before, after, rfl, hput⟩ := Names.exists_put_of_find?_eq_some (b := y) hv.1 hk
    rw [hput, memberEntries_append, memberEntries_append, memberEntries, memberEntries]
    split
    · rfl
    · simp only [List.flatMap_append, ih hx]
  | item hx _ ih =>
    apply flatMap_itemEntries_set hx
    intro p
    exact ih (Json.orderedItems_iff.1 hv _ (List.mem_of_getElem? hx))

theorem index_resources_eq (h : Grows root grown) (hroot : root.Ordered) :
    (index d grown).resources = (index d root).resources := by
  rw [index_resources, index_resources, noted, noted,
    h.flatMap_entries readsIdentifiers_resources hroot]

theorem index_anchors_eq (h : Grows root grown) (hroot : root.Ordered) :
    (index d grown).anchors = (index d root).anchors := by
  rw [index_anchors, index_anchors, noted, noted, h.flatMap_entries readsIdentifiers_anchors hroot]

theorem baseAt?_eq (h : Grows v w) (hv : v.Ordered) (hx : p.find? v = some x) :
    baseAt? d base w p = baseAt? d base v p := by
  induction p generalizing base v w with
  | nil => rw [baseAt?, baseAt?, identity?_congr (h.string?_eq hv)]
  | cons t p ih =>
    rw [Pointer.find?_cons] at hx
    obtain ⟨u, hu, hx⟩ := Option.bind_eq_some_iff.1 hx
    obtain ⟨u', hu', hgrows⟩ := h.step hv hu
    rw [baseAt?_cons hu, baseAt?_cons hu', identity?_congr (h.string?_eq hv)]
    exact ih hgrows (ordered_of_step hv hu) hx

theorem lookup_scopes_eq (h : Grows root grown) (hroot : root.Ordered) (hx : p.find? root = some x)
    (hobject : x.isObject) : (index d grown).scopes.lookup p = (index d root).scopes.lookup p := by
  obtain ⟨y, hy, hxy⟩ := h.find? hroot hx
  apply Option.ext
  intro inner
  rw [lookup_scopes_eq_some_iff hroot hx hobject,
    lookup_scopes_eq_some_iff (h.ordered hroot) hy (hxy.isObject_eq.trans hobject),
    h.baseAt?_eq hroot hx]

theorem resolve?_eq (h : Grows root grown) (hroot : root.Ordered) (hx : p.find? root = some x)
    (hobject : x.isObject) (reference : String) :
    (index d grown).resolve? reference p = (index d root).resolve? reference p := by
  rw [resolve?, resolve?, h.lookup_scopes_eq hroot hx hobject, h.index_resources_eq hroot,
    h.index_anchors_eq hroot]

end Grows

end SchemaEvolution.JsonSchema
