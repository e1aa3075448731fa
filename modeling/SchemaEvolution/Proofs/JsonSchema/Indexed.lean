import SchemaEvolution.JsonSchema.References
import SchemaEvolution.Proofs.Json.Parts

namespace SchemaEvolution.JsonSchema.References

structure Entry where
  place : Pointer
  node : Json
  base : Url

def Entry.note (d : Draft) (r : References) (e : Entry) : References := enter d e.node e.place e.base r

mutual

def entries (d : Draft) (base : Option Url) (p : Pointer) : Json → List Entry
  | .object ms =>
    let inner := base >>= scope? (identity? d (.object ms))
    inner.toList.map (⟨p, .object ms, ·⟩) ++ memberEntries d inner p ms
  | .array xs => itemEntries d base p 0 xs
  | _ => []

def itemEntries (d : Draft) (base : Option Url) (p : Pointer) (i : Nat) : List Json → List Entry
  | [] => []
  | x :: xs => entries d base (p ++ [Pointer.index i]) x ++ itemEntries d base p (i + 1) xs

def memberEntries (d : Draft) (base : Option Url) (p : Pointer) :
    List (String × Json) → List Entry
  | [] => []
  | (k, x) :: ms =>
    if k ∈ dataKeywords then memberEntries d base p ms
    else entries d base (p ++ [Pointer.escape k]) x ++ memberEntries d base p ms

end

variable {d : Draft}

mutual

theorem collect_eq_foldl {base : Option Url} {p : Pointer} {r : References} (v : Json) :
    collect d base p r v = (entries d base p v).foldl (Entry.note d) r := by
  cases v with
  | array xs => rw [collect, entries, collectItems_eq_foldl xs]
  | object ms =>
    rw [collect, entries]
    cases base >>= scope? (identity? d (.object ms)) <;> exact collectMembers_eq_foldl ms
  | _ => rfl

theorem collectItems_eq_foldl {base : Option Url} {p : Pointer} {r : References} {i : Nat}
    (xs : List Json) :
    collectItems d base p r i xs = (itemEntries d base p i xs).foldl (Entry.note d) r := by
  cases xs with
  | nil => rfl
  | cons x xs =>
    rw [collectItems, itemEntries, List.foldl_append, collect_eq_foldl x, collectItems_eq_foldl xs]

theorem collectMembers_eq_foldl {base : Option Url} {p : Pointer} {r : References}
    (ms : List (String × Json)) :
    collectMembers d base p r ms = (memberEntries d base p ms).foldl (Entry.note d) r := by
  cases ms with
  | nil => rfl
  | cons m ms =>
    rw [collectMembers, memberEntries]
    split
    · exact collectMembers_eq_foldl ms
    · rw [List.foldl_append, collect_eq_foldl m.2, collectMembers_eq_foldl ms]

end

inductive Enters (d : Draft) : Option Url → Json → Pointer → Json → Url → Prop
  | here {base : Option Url} {ms : List (String × Json)} {inner : Url} :
    base >>= scope? (identity? d (.object ms)) = some inner →
    Enters d base (.object ms) [] (.object ms) inner
  | member {base : Option Url} {ms : List (String × Json)} {k : String} {x node : Json}
    {q : Pointer} {inner : Url} :
    (k, x) ∈ ms → k ∉ dataKeywords →
    Enters d (base >>= scope? (identity? d (.object ms))) x q node inner →
    Enters d base (.object ms) (Pointer.escape k :: q) node inner
  | item {base : Option Url} {xs : List Json} {i : Nat} {x node : Json} {q : Pointer}
    {inner : Url} :
    xs[i]? = some x → Enters d base x q node inner →
    Enters d base (.array xs) (Pointer.index i :: q) node inner

variable {e : Entry}

mutual

theorem enters_of_mem_entries {base : Option Url} {p : Pointer} (v : Json) (h : e ∈ entries d base p v) :
    ∃ q, e.place = p ++ q ∧ Enters d base v q e.node e.base := by
  cases v with
  | array xs =>
    obtain ⟨i, x, q, hx, hplace, henters⟩ := enters_of_mem_itemEntries xs h
    rw [Nat.zero_add] at hplace
    exact ⟨_, hplace, .item hx henters⟩
  | object ms =>
    rw [entries, List.mem_append, List.mem_map] at h
    obtain ⟨inner, hinner, rfl⟩ | h := h
    · exact ⟨[], (List.append_nil p).symm, .here (Option.mem_toList.1 hinner)⟩
    · obtain ⟨k, x, q, hx, hk, hplace, henters⟩ := enters_of_mem_memberEntries ms h
      exact ⟨_, hplace, .member hx hk henters⟩
  | _ => cases h

theorem enters_of_mem_itemEntries {base : Option Url} {p : Pointer} {i : Nat} (xs : List Json)
    (h : e ∈ itemEntries d base p i xs) :
    ∃ j x q, xs[j]? = some x ∧ e.place = p ++ Pointer.index (i + j) :: q ∧
      Enters d base x q e.node e.base := by
  cases xs with
  | nil => cases h
  | cons x xs =>
    obtain h | h := List.mem_append.1 h
    · obtain ⟨q, hplace, henters⟩ := enters_of_mem_entries x h
      exact ⟨0, x, q, rfl, by simpa using hplace, henters⟩
    · obtain ⟨j, y, q, hy, hplace, henters⟩ := enters_of_mem_itemEntries xs h
      exact ⟨j + 1, y, q, hy, by rw [hplace, Nat.add_right_comm, Nat.add_assoc], henters⟩

theorem enters_of_mem_memberEntries {base : Option Url} {p : Pointer}
    (ms : List (String × Json)) (h : e ∈ memberEntries d base p ms) :
    ∃ k x q, (k, x) ∈ ms ∧ k ∉ dataKeywords ∧ e.place = p ++ Pointer.escape k :: q ∧
      Enters d base x q e.node e.base := by
  cases ms with
  | nil => cases h
  | cons m ms =>
    rw [memberEntries] at h
    split at h
    · obtain ⟨k, x, q, hx, h⟩ := enters_of_mem_memberEntries ms h
      exact ⟨k, x, q, .tail m hx, h⟩
    next hk =>
      obtain h | h := List.mem_append.1 h
      · obtain ⟨q, hplace, henters⟩ := enters_of_mem_entries m.2 h
        exact ⟨m.1, m.2, q, .head ms, hk, by simpa using hplace, henters⟩
      · obtain ⟨k, x, q, hx, h⟩ := enters_of_mem_memberEntries ms h
        exact ⟨k, x, q, .tail m hx, h⟩

end

variable {base : Option Url} {p : Pointer} {r : References}

theorem mem_itemEntries_of_mem {i j : Nat} {x : Json} {xs : List Json} (hx : xs[j]? = some x)
    (h : e ∈ entries d base (p ++ [Pointer.index (i + j)]) x) : e ∈ itemEntries d base p i xs := by
  induction xs generalizing i j with
  | nil => cases hx
  | cons y xs ih =>
    rw [itemEntries, List.mem_append]
    cases j with
    | zero =>
      cases hx
      exact .inl h
    | succ j => exact .inr (ih hx (by rwa [Nat.add_right_comm, Nat.add_assoc]))

theorem mem_memberEntries_of_mem {k : String} {x : Json} {ms : List (String × Json)}
    (hx : (k, x) ∈ ms) (hk : k ∉ dataKeywords)
    (h : e ∈ entries d base (p ++ [Pointer.escape k]) x) : e ∈ memberEntries d base p ms := by
  induction hx with
  | head ms =>
    rw [memberEntries, if_neg hk, List.mem_append]
    exact .inl h
  | tail m _ ih =>
    rw [memberEntries]
    split
    · exact ih
    · exact List.mem_append_right _ ih

theorem Enters.mem_entries {v node : Json} {q : Pointer} {inner : Url}
    (h : Enters d base v q node inner) : ⟨p ++ q, node, inner⟩ ∈ entries d base p v := by
  induction h generalizing p with
  | here hinner =>
    rw [List.append_nil, entries, hinner]
    exact .head _
  | @member base ms k x node q inner hx hk _ ih =>
    have h := @ih (p ++ [Pointer.escape k])
    rw [List.append_assoc] at h
    exact List.mem_append_right _ (mem_memberEntries_of_mem hx hk h)
  | @item base xs i x node q inner hx _ ih =>
    have h := @ih (p ++ [Pointer.index i])
    rw [List.append_assoc, ← Nat.zero_add i] at h
    rw [← Nat.zero_add i]
    exact mem_itemEntries_of_mem hx h

theorem Enters.mem_pointers {v node : Json} {q : Pointer} {inner : Url}
    (h : Enters d base v q node inner) : q ∈ v.pointers := by
  induction h with
  | here => exact Json.nil_mem_pointers _
  | member hx _ _ ih => exact .tail _ (Json.mem_memberPointers.2 ⟨_, _, _, hx, ih, rfl⟩)
  | item hx _ ih =>
    exact .tail _ (Json.mem_itemPointers.2 ⟨_, _, _, hx, ih, by rw [Nat.zero_add]⟩)

def Entry.resources (d : Draft) (e : Entry) : List (String × Pointer) :=
  match identity? d e.node with
  | some (.resource _) => [(e.base.text, e.place)]
  | _ => []

theorem Entry.scopes_note : (e.note d r).scopes = (e.place, e.base) :: r.scopes := by
  simp only [note, enter, addScope, List.foldl]
  cases identity? d e.node with
  | none => cases e.node.string? "$anchor" <;> cases e.node.string? "$dynamicAnchor" <;> rfl
  | some identity =>
    cases identity <;> cases e.node.string? "$anchor" <;>
      cases e.node.string? "$dynamicAnchor" <;> rfl

theorem Entry.resources_note : (e.note d r).resources = e.resources d ++ r.resources := by
  simp only [note, enter, addScope, List.foldl, resources]
  cases identity? d e.node with
  | none => cases e.node.string? "$anchor" <;> cases e.node.string? "$dynamicAnchor" <;> rfl
  | some identity =>
    cases identity <;> cases e.node.string? "$anchor" <;>
      cases e.node.string? "$dynamicAnchor" <;> rfl

def Entry.anchorNames (d : Draft) (e : Entry) : List String :=
  (match identity? d e.node with
    | some (.anchor name) => [name]
    | _ => []) ++ (e.node.string? "$anchor").toList ++ (e.node.string? "$dynamicAnchor").toList

def Entry.anchors (d : Draft) (e : Entry) : List ((String × String) × Pointer) :=
  (e.anchorNames d).map fun name => ((e.base.text, name), e.place)

theorem Entry.anchors_note : (e.note d r).anchors = (e.anchors d).reverse ++ r.anchors := by
  simp only [note, enter, addScope, List.foldl, anchors, anchorNames]
  cases identity? d e.node with
  | none => cases e.node.string? "$anchor" <;> cases e.node.string? "$dynamicAnchor" <;> rfl
  | some identity =>
    cases identity <;> cases e.node.string? "$anchor" <;>
      cases e.node.string? "$dynamicAnchor" <;> rfl

variable {es : List Entry}

theorem scopes_foldl : (es.foldl (Entry.note d) r).scopes =
    (es.map fun e => (e.place, e.base)).reverse ++ r.scopes := by
  induction es generalizing r with
  | nil => rfl
  | cons e es ih =>
    rw [List.foldl_cons, ih, Entry.scopes_note, List.map_cons, List.reverse_cons,
      List.append_assoc, List.singleton_append]

theorem resources_foldl : (es.foldl (Entry.note d) r).resources =
    (es.flatMap (Entry.resources d)).reverse ++ r.resources := by
  induction es generalizing r with
  | nil => rfl
  | cons e es ih =>
    rw [List.foldl_cons, ih, Entry.resources_note, List.flatMap_cons, List.reverse_append,
      List.append_assoc]
    congr 2
    unfold Entry.resources
    split <;> rfl

theorem anchors_foldl : (es.foldl (Entry.note d) r).anchors =
    (es.flatMap (Entry.anchors d)).reverse ++ r.anchors := by
  induction es generalizing r with
  | nil => rfl
  | cons e es ih =>
    rw [List.foldl_cons, ih, Entry.anchors_note, List.flatMap_cons, List.reverse_append,
      List.append_assoc]

variable {root : Json}

def noted (d : Draft) (root : Json) : List Entry := entries d documentBase [] root

theorem mem_noted_iff : e ∈ noted d root ↔ Enters d documentBase root e.place e.node e.base := by
  constructor
  · intro h
    obtain ⟨q, hplace, henters⟩ := enters_of_mem_entries root h
    exact hplace ▸ henters
  · exact Enters.mem_entries

theorem index_scopes : (index d root).scopes =
    ((noted d root).map fun e => (e.place, e.base)).reverse := by
  rw [index, noted, collect_eq_foldl, scopes_foldl]
  cases documentBase <;> simp [empty, addResource]

theorem index_resources : (index d root).resources =
    ((noted d root).flatMap (Entry.resources d)).reverse ++
      documentBase.toList.map fun base => (base.text, []) := by
  rw [index, noted, collect_eq_foldl, resources_foldl]
  cases documentBase <;> rfl

theorem index_anchors : (index d root).anchors =
    ((noted d root).flatMap (Entry.anchors d)).reverse := by
  rw [index, noted, collect_eq_foldl, anchors_foldl]
  cases documentBase <;> simp [empty, addResource]

theorem place_of_mem_anchors {a : (String × String) × Pointer} (h : a ∈ (index d root).anchors) :
    ∃ e ∈ noted d root, a.2 = e.place := by
  rw [index_anchors, List.mem_reverse, List.mem_flatMap] at h
  obtain ⟨e, he, ha⟩ := h
  obtain ⟨name, -, rfl⟩ := List.mem_map.1 ha
  exact ⟨e, he, rfl⟩

theorem mem_pointers_of_mem_noted (h : e ∈ noted d root) : e.place ∈ root.pointers :=
  (mem_noted_iff.1 h).mem_pointers

theorem of_resolve?_eq_some {reference : String} {target : Pointer}
    (h : (index d root).resolve? reference p = some target) :
    p ∈ root.pointers ∧ target.Plain := by
  simp only [resolve?, Option.bind_eq_bind, Option.bind_eq_some_iff] at h
  obtain ⟨base, hbase, address, -, fragment, -, resource, hresource, h⟩ := h
  have hplace : p ∈ root.pointers := by
    have hmem := Names.mem_of_lookup_eq_some hbase
    rw [index_scopes, List.mem_reverse, List.mem_map] at hmem
    obtain ⟨e, he, heq⟩ := hmem
    cases heq
    exact mem_pointers_of_mem_noted he
  have hnoted {q : Pointer} (hq : ∃ e ∈ noted d root, q = e.place) : q.Plain := by
    obtain ⟨e, he, rfl⟩ := hq
    exact (Pointer.standard_of_mem_pointers (mem_pointers_of_mem_noted he)).plain
  have hresource : resource.Plain := by
    have hmem := Names.mem_of_lookup_eq_some hresource
    rw [index_resources, List.mem_append, List.mem_reverse, List.mem_flatMap, List.mem_map] at hmem
    obtain ⟨e, he, hmem⟩ | ⟨base, -, heq⟩ := hmem
    · refine hnoted ⟨e, he, ?_⟩
      unfold Entry.resources at hmem
      split at hmem
      · exact congrArg Prod.snd (List.mem_singleton.1 hmem)
      · cases hmem
    · rw [← (Prod.mk.inj heq).2]
      exact List.forall_mem_nil _
  refine ⟨hplace, ?_⟩
  split at h
  · cases h
    exact hresource
  · obtain ⟨q, hq, h⟩ := Option.bind_eq_some_iff.1 h
    cases h
    exact hresource.append (Pointer.plain_of_ofText? hq).1
  · exact hnoted (place_of_mem_anchors (Names.mem_of_lookup_eq_some h))

end SchemaEvolution.JsonSchema.References
