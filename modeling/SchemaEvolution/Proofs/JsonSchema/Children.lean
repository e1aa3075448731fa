import SchemaEvolution.JsonSchema.Explored
import SchemaEvolution.Proofs.Json.Pointer
import SchemaEvolution.Proofs.Names

namespace SchemaEvolution.JsonSchema

inductive Child (node : Json) : String → Json → Prop
  | composition {keyword : String} {members : List Json} {i : Nat} {member : Json} :
    keyword ∈ compositionKeywords → node.array? keyword = some members →
    members[i]? = some member → Child node ("/" ++ keyword ++ "/" ++ toString i) member
  | property {properties : List (String × Json)} {name : String} {property : Json} :
    node.object? "properties" = some properties → Names.find? name properties = some property →
    Child node ("/properties/" ++ Pointer.escape name) property
  | items {item : Json} : node.get? "items" = some item → Child node "/items" item
  | item {items : List Json} {i : Nat} {item : Json} :
    node.array? "items" = some items → items[i]? = some item →
    Child node ("/items/" ++ toString i) item
  | prefixItem {items : List Json} {i : Nat} {item : Json} :
    node.array? "prefixItems" = some items → items[i]? = some item →
    Child node ("/prefixItems/" ++ toString i) item

variable {node w : Json}

@[simp] theorem array?_eq_some_iff {keyword : String} {xs : List Json} :
    node.array? keyword = some xs ↔ node.get? keyword = some (.array xs) := by
  unfold Json.array?
  cases node.get? keyword with
  | none => simp
  | some v => cases v <;> simp [Json.asArray?]

@[simp] theorem object?_eq_some_iff {keyword : String} {ms : List (String × Json)} :
    node.object? keyword = some ms ↔ node.get? keyword = some (.object ms) := by
  unfold Json.object?
  cases node.get? keyword with
  | none => simp
  | some v => cases v <;> simp [Json.asObject?]

theorem step_of_get? {token : String} {v : Json} (ht : Pointer.unescape token = token)
    (h : node.get? token = some v) : Pointer.step node token = some v := by
  cases node with
  | object ms => rw [Pointer.step, ht]; exact h
  | _ => cases h

theorem find?_singleton {token : String} {v : Json} (ht : Pointer.unescape token = token)
    (h : node.get? token = some v) : Pointer.find? [token] node = some v := by
  rw [Pointer.find?_cons, step_of_get? ht h]
  rfl

theorem find?_pair {token key : String} {v : Json} (ht : Pointer.unescape token = token)
    (h : node.get? token = some v) : Pointer.find? [token, key] node = Pointer.step v key := by
  rw [Pointer.find?_cons, step_of_get? ht h]
  change Pointer.find? [key] v = _
  rw [Pointer.find?_cons]
  cases Pointer.step v key <;> rfl

theorem find?_item {keyword : String} {xs : List Json} (ht : Pointer.unescape keyword = keyword)
    (h : node.array? keyword = some xs) (i : Nat) :
    Pointer.find? [keyword, Pointer.index i] node = xs[i]? := by
  rw [find?_pair ht (array?_eq_some_iff.1 h), Pointer.step, Pointer.index?_index]
  rfl

@[simp] theorem mem_arrayPlaces {keyword : String} {c : Pointer} :
    c ∈ arrayPlaces keyword node ↔
      ∃ xs i, node.array? keyword = some xs ∧ i < xs.length ∧ c = [keyword, Pointer.index i] := by
  unfold arrayPlaces
  cases node.array? keyword with
  | none => simp
  | some xs => simp [eq_comm]

theorem mem_arrayPlaces_and_find? {keyword : String} {c : Pointer}
    (ht : Pointer.unescape keyword = keyword) :
    c ∈ arrayPlaces keyword node ∧ c.find? node = some w ↔
      ∃ xs i, node.array? keyword = some xs ∧ xs[i]? = some w ∧
        c = [keyword, Pointer.index i] := by
  rw [mem_arrayPlaces]
  constructor
  · rintro ⟨⟨xs, i, hxs, -, rfl⟩, hfind⟩
    exact ⟨xs, i, hxs, by rw [← hfind, find?_item ht hxs], rfl⟩
  · rintro ⟨xs, i, hxs, hi, rfl⟩
    exact ⟨⟨xs, i, hxs, (List.getElem?_eq_some_iff.1 hi).1, rfl⟩, by rw [find?_item ht hxs, hi]⟩

theorem mem_propertyPlaces_and_find? {c : Pointer} :
    c ∈ propertyPlaces node ∧ c.find? node = some w ↔
      ∃ ms name, node.object? "properties" = some ms ∧ Names.find? name ms = some w ∧
        c = ["properties", Pointer.escape name] := by
  have hfind {ms : List (String × Json)} (hms : node.object? "properties" = some ms)
      (name : String) : Pointer.find? ["properties", Pointer.escape name] node =
        Names.find? name ms := by
    simp [find?_pair (by decide) (object?_eq_some_iff.1 hms), Pointer.step]
  constructor
  · rintro ⟨hc, hw⟩
    unfold propertyPlaces at hc
    cases hms : node.object? "properties" with
    | none => simp [hms] at hc
    | some ms =>
      rw [hms, Option.getD_some, List.mem_map] at hc
      obtain ⟨m, hm, rfl⟩ := hc
      exact ⟨ms, m.1, rfl, by rw [← hfind hms, hw], rfl⟩
  · rintro ⟨ms, name, hms, hw, rfl⟩
    refine ⟨?_, by rw [hfind hms, hw]⟩
    unfold propertyPlaces
    rw [hms, Option.getD_some, List.mem_map]
    exact ⟨(name, w), Names.mem_of_lookup_eq_some hw, rfl⟩

theorem mem_itemPlaces_and_find? {c : Pointer} (hw : w.isObject) :
    c ∈ itemPlaces node ∧ c.find? node = some w ↔
      (node.get? "items" = some w ∧ c = ["items"]) ∨
      ∃ xs i, node.array? "items" = some xs ∧ xs[i]? = some w ∧
        c = ["items", Pointer.index i] := by
  rw [← mem_arrayPlaces_and_find? (by decide)]
  unfold itemPlaces
  cases hitems : node.get? "items" with
  | none => simp [arrayPlaces, Json.array?, hitems]
  | some v =>
    have hfind := find?_singleton (by decide) hitems
    cases v with
    | array xs =>
      simp only [Option.some.injEq]
      refine ⟨.inr, fun h => h.resolve_left ?_⟩
      rintro ⟨rfl, -⟩
      cases hw
    | _ =>
      simp [arrayPlaces, Json.array?, hitems, Json.asArray?]
      grind

theorem text_pair {front s t : String} (h : front = "/" ++ s ++ "/") :
    front ++ t = Pointer.text [s, t] := by
  rw [h]
  apply String.toList_injective
  simp

theorem unescape_of_mem_compositionKeywords :
    ∀ keyword ∈ compositionKeywords, Pointer.unescape keyword = keyword := by decide

theorem child_iff {step : String} (hw : w.isObject) :
    Child node step w ↔ ∃ c, c ∈ childPlaces node ∧ c.find? node = some w ∧ step = c.text := by
  simp only [childPlaces, List.mem_append, List.mem_flatMap]
  constructor
  · intro h
    cases h with
    | composition hk hxs hi =>
      have hc := (mem_arrayPlaces_and_find? (unescape_of_mem_compositionKeywords _ hk)).2
        ⟨_, _, hxs, hi, rfl⟩
      exact ⟨_, .inl (.inl (.inl ⟨_, hk, hc.1⟩)), hc.2, text_pair rfl⟩
    | property hms hfind =>
      have hc := mem_propertyPlaces_and_find?.2 ⟨_, _, hms, hfind, rfl⟩
      exact ⟨_, .inl (.inl (.inr hc.1)), hc.2, text_pair (by decide)⟩
    | items hget =>
      have hc := (mem_itemPlaces_and_find? hw).2 (.inl ⟨hget, rfl⟩)
      exact ⟨_, .inl (.inr hc.1), hc.2, rfl⟩
    | item hxs hi =>
      have hc := (mem_itemPlaces_and_find? hw).2 (.inr ⟨_, _, hxs, hi, rfl⟩)
      exact ⟨_, .inl (.inr hc.1), hc.2, text_pair (by decide)⟩
    | prefixItem hxs hi =>
      have hc := (mem_arrayPlaces_and_find? (by decide)).2 ⟨_, _, hxs, hi, rfl⟩
      exact ⟨_, .inr hc.1, hc.2, text_pair (by decide)⟩
  · rintro ⟨c, ((⟨keyword, hk, hc⟩ | hc) | hc) | hc, hfind, rfl⟩
    · obtain ⟨xs, i, hxs, hi, rfl⟩ :=
        (mem_arrayPlaces_and_find? (unescape_of_mem_compositionKeywords _ hk)).1 ⟨hc, hfind⟩
      exact text_pair rfl ▸ .composition hk hxs hi
    · obtain ⟨ms, name, hms, hname, rfl⟩ := mem_propertyPlaces_and_find?.1 ⟨hc, hfind⟩
      rw [← text_pair (show "/properties/" = "/" ++ "properties" ++ "/" by decide)]
      exact .property hms hname
    · obtain ⟨hget, rfl⟩ | ⟨xs, i, hxs, hi, rfl⟩ := (mem_itemPlaces_and_find? hw).1 ⟨hc, hfind⟩
      · exact .items hget
      · rw [← text_pair (show "/items/" = "/" ++ "items" ++ "/" by decide)]
        exact .item hxs hi
    · obtain ⟨xs, i, hxs, hi, rfl⟩ := (mem_arrayPlaces_and_find? (by decide)).1 ⟨hc, hfind⟩
      rw [← text_pair (show "/prefixItems/" = "/" ++ "prefixItems" ++ "/" by decide)]
      exact .prefixItem hxs hi

theorem standard_of_mem_childPlaces {c : Pointer} (hc : c ∈ childPlaces node) : c.Standard := by
  have hkeyword : ∀ keyword ∈ compositionKeywords ++ ["items", "prefixItems"],
      Pointer.escape (Pointer.unescape keyword) = keyword := by decide
  have harray {keyword : String} (hk : keyword ∈ compositionKeywords ++ ["items", "prefixItems"])
      (hc : c ∈ arrayPlaces keyword node) : c.Standard := by
    obtain ⟨xs, i, -, -, rfl⟩ := mem_arrayPlaces.1 hc
    exact Pointer.standard_cons.2 ⟨hkeyword keyword hk,
      Pointer.standard_cons.2 ⟨Pointer.escape_unescape_index i, List.forall_mem_nil _⟩⟩
  simp only [childPlaces, List.mem_append, List.mem_flatMap] at hc
  obtain ((⟨keyword, hk, hc⟩ | hc) | hc) | hc := hc
  · exact harray (List.mem_append_left _ hk) hc
  · obtain ⟨m, -, rfl⟩ := List.mem_map.1 hc
    exact Pointer.standard_cons.2 ⟨by decide,
      Pointer.standard_cons.2 ⟨Pointer.escape_unescape_escape m.1, List.forall_mem_nil _⟩⟩
  · unfold itemPlaces at hc
    split at hc
    · exact harray (by decide) hc
    · rw [List.mem_singleton.1 hc]
      exact Pointer.standard_cons.2 ⟨by decide, List.forall_mem_nil _⟩
    · cases hc
  · exact harray (by decide) hc

end SchemaEvolution.JsonSchema
