import SchemaEvolution.Proofs.JsonSchema.Children
import SchemaEvolution.Proofs.JsonSchema.Compatible
import SchemaEvolution.Proofs.Json.Ordered

namespace SchemaEvolution.JsonSchema

def identifierKeywords : List String := ["$id", "id", "$anchor", "$dynamicAnchor"]

def listKeywords : List String := "prefixItems" :: compositionKeywords

def itemKeywords : List String := ["items", "additionalItems"]

mutual

/-- No object in the value declares an address or a name. -/
def Anonymous : Json → Prop
  | .array xs => AnonymousItems xs
  | .object ms =>
    (∀ k ∈ identifierKeywords, (Json.object ms).string? k = none) ∧ AnonymousMembers ms
  | _ => True

def AnonymousItems : List Json → Prop
  | [] => True
  | x :: xs => Anonymous x ∧ AnonymousItems xs

def AnonymousMembers : List (String × Json) → Prop
  | [] => True
  | (_, x) :: ms => Anonymous x ∧ AnonymousMembers ms

end

inductive IsSchemaForm : Json → Prop
  | object (ms : List (String × Json)) : IsSchemaForm (.object ms)
  | bool (b : Bool) : IsSchemaForm (.bool b)

inductive Slot (key : String) : Option Json → Option Json → Prop
  | same (x : Option Json) : Slot key x x
  | objects {ms ns : List (String × Json)} : Slot key (some (.object ms)) (some (.object ns))
  | lists {xs ys : List Json} : key ∈ listKeywords → ys.length = xs.length →
    Slot key (some (.array xs)) (some (.array ys))
  | added {x : Json} : key ∉ itemKeywords → IsSchemaForm x → Slot key none (some x)

/-- The second value is the first one, with at most one schema more in it. -/
inductive Grows : Json → Json → Prop
  | same (v : Json) : Grows v v
  | added {ms : List (String × Json)} {k : String} {x : Json} : Names.find? k ms = none →
    k ∉ itemKeywords → IsSchemaForm x → x.Ordered → Anonymous x →
      Grows (.object ms) (.object (Names.put k x ms))
  | member {ms : List (String × Json)} {k : String} {x y : Json} : Names.find? k ms = some x →
    Slot k (some x) (some y) → Grows x y → Grows (.object ms) (.object (Names.put k y ms))
  | item {xs : List Json} {i : Nat} {x y : Json} : xs[i]? = some x → Grows x y →
    Grows (.array xs) (.array (xs.set i y))

variable {v w x : Json}

theorem ordered_of_step {t : String} (hv : v.Ordered) (h : Pointer.step v t = some x) :
    x.Ordered := by
  cases v with
  | object ms => exact Json.orderedMembers_iff.1 hv.2 _ (Names.mem_of_lookup_eq_some h)
  | array xs =>
    obtain ⟨i, -, hx⟩ := Option.bind_eq_some_iff.1 h
    exact Json.orderedItems_iff.1 hv _ (List.mem_of_getElem? hx)
  | _ => cases h

theorem ordered_of_find? {p : Pointer} (hv : v.Ordered) (h : p.find? v = some x) : x.Ordered := by
  induction p generalizing v with
  | nil => cases h; exact hv
  | cons t p ih =>
    rw [Pointer.find?_cons] at h
    obtain ⟨u, hu, h⟩ := Option.bind_eq_some_iff.1 h
    exact ih (ordered_of_step hv hu) h

namespace Grows

theorem isObject_eq (h : Grows v w) : w.isObject = v.isObject := by
  cases h <;> rfl

theorem ordered (h : Grows v w) (hv : v.Ordered) : w.Ordered := by
  induction h with
  | same => exact hv
  | added _ _ _ hx => exact Json.ordered_put hx hv
  | member hx _ _ ih =>
    have hmem := Names.mem_of_lookup_eq_some hx
    exact Json.ordered_put (ih (Json.orderedMembers_iff.1 hv.2 _ hmem)) hv
  | item hx _ ih =>
    apply Json.orderedItems_iff.2
    intro y hy
    obtain hy | rfl := List.mem_or_eq_of_mem_set hy
    · exact Json.orderedItems_iff.1 hv y hy
    · exact ih (Json.orderedItems_iff.1 hv _ (List.mem_of_getElem? hx))

theorem slot (h : Grows v w) (hv : v.Ordered) (key : String) :
    Slot key (v.get? key) (w.get? key) := by
  cases h with
  | same => exact .same _
  | item => exact .same _
  | @added ms k x hk hitem hform =>
    rw [Json.get?, Json.get?, Names.find?_put hv.1]
    split
    next heq => rw [heq, hk]; exact .added hitem hform
    next => exact .same _
  | @member ms k x y hk hslot =>
    rw [Json.get?, Json.get?, Names.find?_put hv.1]
    split
    next heq => rw [heq, hk]; exact hslot
    next => exact .same _

theorem step (h : Grows v w) (hv : v.Ordered) {t : String} (hx : Pointer.step v t = some x) :
    ∃ y, Pointer.step w t = some y ∧ Grows x y := by
  cases h with
  | same => exact ⟨x, hx, .same x⟩
  | @added ms k z hk =>
    rw [Pointer.step] at hx ⊢
    have hne : Pointer.unescape t ≠ k := by
      rintro heq
      rw [heq, hk] at hx
      cases hx
    exact ⟨x, by rw [Names.find?_put hv.1, if_neg hne, hx], .same x⟩
  | @member ms k z y hk _ hgrows =>
    rw [Pointer.step] at hx ⊢
    rw [Names.find?_put hv.1]
    by_cases heq : Pointer.unescape t = k
    · rw [heq, hk] at hx
      cases hx
      exact ⟨y, if_pos heq, hgrows⟩
    · exact ⟨x, by rw [if_neg heq, hx], .same x⟩
  | @item xs i z y hz hgrows =>
    obtain ⟨j, hj, hx⟩ := Option.bind_eq_some_iff.1 hx
    rw [Pointer.step, hj]
    change ∃ y', (xs.set i y)[j]? = some y' ∧ Grows x y'
    by_cases hij : i = j
    · subst hij
      cases hz.symm.trans hx
      exact ⟨y, List.getElem?_set_self (List.getElem?_eq_some_iff.1 hx).1, hgrows⟩
    · exact ⟨x, by rw [List.getElem?_set_ne hij, hx], .same x⟩

theorem find? (h : Grows v w) (hv : v.Ordered) {p : Pointer} (hx : p.find? v = some x) :
    ∃ y, p.find? w = some y ∧ Grows x y := by
  induction p generalizing v w with
  | nil => cases hx; exact ⟨w, rfl, h⟩
  | cons t p ih =>
    rw [Pointer.find?_cons] at hx
    obtain ⟨u, hu, hx⟩ := Option.bind_eq_some_iff.1 hx
    obtain ⟨u', hu', hgrows⟩ := h.step hv hu
    obtain ⟨y, hy, hxy⟩ := ih hgrows (ordered_of_step hv hu) hx
    exact ⟨y, by rw [Pointer.find?_cons, hu']; exact hy, hxy⟩

end Grows

namespace Slot

variable {key : String}

theorem string?_eq (h : Slot key (v.get? key) (w.get? key)) : w.string? key = v.string? key := by
  unfold Json.string?
  generalize v.get? key = a at h
  generalize w.get? key = b at h
  cases h with
  | same => rfl
  | objects => rfl
  | lists => rfl
  | added _ hform => cases hform <;> rfl

theorem array?_length (h : Slot key (v.get? key) (w.get? key)) :
    (w.array? key).map (·.length) = (v.array? key).map (·.length) := by
  unfold Json.array?
  generalize v.get? key = a at h
  generalize w.get? key = b at h
  cases h with
  | same => rfl
  | objects => rfl
  | lists _ hlength => exact congrArg some hlength
  | added _ hform => cases hform <;> rfl

theorem array?_eq (h : Slot key (v.get? key) (w.get? key)) (hkey : key ∉ listKeywords) :
    w.array? key = v.array? key := by
  unfold Json.array?
  generalize v.get? key = a at h
  generalize w.get? key = b at h
  cases h with
  | same => rfl
  | objects => rfl
  | lists hmem => exact absurd hmem hkey
  | added _ hform => cases hform <;> rfl

end Slot

def KeepsSlots (v w : Json) : Prop := ∀ key, Slot key (v.get? key) (w.get? key)

namespace KeepsSlots

variable {location : String} {d : Draft}

theorem types (h : KeepsSlots v w) :
    Node.types ⟨location, w, d⟩ = Node.types ⟨location, v, d⟩ := by
  have hslot := h "type"
  unfold Node.types
  dsimp only
  generalize v.get? "type" = a at hslot
  generalize w.get? "type" = b at hslot
  cases hslot with
  | same => rfl
  | objects => rfl
  | lists hmem => exact absurd hmem (by decide)
  | added _ hform => cases hform <;> rfl

theorem keepsEnum (h : KeepsSlots v w) :
    Node.KeepsEnum ⟨location, w, d⟩ ⟨location, v, d⟩ := by
  unfold Node.KeepsEnum
  dsimp only
  rw [(h "enum").array?_eq (by decide)]
  cases v.array? "enum" with
  | none => trivial
  | some xs => exact fun x hx => List.any_eq_true.2 ⟨x, hx, x.equal_self⟩

theorem items? (h : KeepsSlots v w) :
    Node.items? ⟨location, w, d⟩ = Node.items? ⟨location, v, d⟩ := by
  unfold Node.items?
  dsimp only
  split
  · have hlength := congrArg (Option.map ItemForm.tuple) (h "prefixItems").array?_length
    rwa [Option.map_map, Option.map_map] at hlength
  · have hslot := h "items"
    generalize v.get? "items" = a at hslot
    generalize w.get? "items" = b at hslot
    cases hslot with
    | same => rfl
    | objects => rfl
    | lists hmem => exact absurd hmem (by decide)
    | added hitem => exact absurd hitem (by decide)

theorem notMem_listKeywords : ∀ key ∈ itemKeywords, key ∉ listKeywords := by decide

theorem keepsTrailing (h : KeepsSlots v w) :
    Node.KeepsTrailing ⟨location, w, d⟩ ⟨location, v, d⟩ := by
  unfold Node.KeepsTrailing Node.trailingItems?
  dsimp only
  generalize hkey : (if d.usesPrefixItems then "items" else "additionalItems") = key
  have hmem : key ∈ itemKeywords := by
    rw [← hkey]
    split <;> decide
  have hslot := h key
  generalize v.get? key = a at hslot
  generalize w.get? key = b at hslot
  cases hslot with
  | same =>
    cases a with
    | none => trivial
    | some x => exact .inl x.equal_self
  | objects => exact .inr ⟨rfl, rfl⟩
  | lists hlist => exact absurd hlist (notMem_listKeywords key hmem)
  | added hitem => exact absurd hmem hitem

theorem keeps (h : KeepsSlots v w) : Node.Keeps ⟨location, w, d⟩ ⟨location, v, d⟩ where
  types := h.types
  untyped _ :=
    ⟨h.keepsEnum, (h "$ref").string?_eq, (h "allOf").array?_length, (h "anyOf").array?_length,
      (h "oneOf").array?_length⟩
  object _ := by
    unfold Node.required
    dsimp only
    rw [(h "required").array?_eq (by decide)]
  array _ := ⟨h.items?, h.keepsTrailing⟩
  scalar _ := h.keepsEnum

end KeepsSlots

end SchemaEvolution.JsonSchema
