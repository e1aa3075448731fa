import SchemaEvolution.Proofs.Json.Pointer
import SchemaEvolution.Proofs.Names

namespace SchemaEvolution

namespace Json

mutual

def pointers : Json → List Pointer
  | .array xs => [] :: itemPointers 0 xs
  | .object ms => [] :: memberPointers ms
  | _ => [[]]

def itemPointers (i : Nat) : List Json → List Pointer
  | [] => []
  | x :: xs => x.pointers.map (Pointer.index i :: ·) ++ itemPointers (i + 1) xs

def memberPointers : List (String × Json) → List Pointer
  | [] => []
  | (k, x) :: ms => x.pointers.map (Pointer.escape k :: ·) ++ memberPointers ms

end

mutual

@[simp] theorem length_pointers (v : Json) : v.pointers.length = v.size := by
  cases v with
  | array xs => rw [pointers, size, List.length_cons, length_itemPointers]
  | object ms => rw [pointers, size, List.length_cons, length_memberPointers]
  | _ => simp [pointers, size]

theorem length_itemPointers (i : Nat) (xs : List Json) :
    (itemPointers i xs).length = sizeItems xs := by
  cases xs with
  | nil => rfl
  | cons x xs =>
    rw [itemPointers, sizeItems, List.length_append, List.length_map, length_pointers,
      length_itemPointers]

theorem length_memberPointers (ms : List (String × Json)) :
    (memberPointers ms).length = sizeMembers ms := by
  cases ms with
  | nil => rfl
  | cons m ms =>
    rw [memberPointers, sizeMembers, List.length_append, List.length_map, length_pointers,
      length_memberPointers]

end

theorem mem_itemPointers {i : Nat} {xs : List Json} {p : Pointer} :
    p ∈ itemPointers i xs ↔
      ∃ j x q, xs[j]? = some x ∧ q ∈ x.pointers ∧ p = Pointer.index (i + j) :: q := by
  induction xs generalizing i with
  | nil => simp [itemPointers]
  | cons x xs ih =>
    rw [itemPointers, List.mem_append, List.mem_map, ih]
    constructor
    · rintro (⟨q, hq, rfl⟩ | ⟨j, y, q, hj, hq, rfl⟩)
      · exact ⟨0, x, q, rfl, hq, rfl⟩
      · exact ⟨j + 1, y, q, hj, hq, by rw [Nat.add_right_comm, Nat.add_assoc]⟩
    · rintro ⟨j, y, q, hj, hq, rfl⟩
      cases j with
      | zero =>
        cases hj
        exact .inl ⟨q, hq, rfl⟩
      | succ j => exact .inr ⟨j, y, q, hj, hq, by rw [Nat.add_right_comm, Nat.add_assoc]⟩

theorem mem_memberPointers {ms : List (String × Json)} {p : Pointer} :
    p ∈ memberPointers ms ↔
      ∃ k x q, (k, x) ∈ ms ∧ q ∈ x.pointers ∧ p = Pointer.escape k :: q := by
  induction ms with
  | nil => simp [memberPointers]
  | cons m ms ih =>
    obtain ⟨k, x⟩ := m
    rw [memberPointers, List.mem_append, List.mem_map, ih]
    constructor
    · rintro (⟨q, hq, rfl⟩ | ⟨l, y, q, hm, hq, rfl⟩)
      · exact ⟨k, x, q, .head ms, hq, rfl⟩
      · exact ⟨l, y, q, .tail _ hm, hq, rfl⟩
    · rintro ⟨l, y, q, hm, hq, rfl⟩
      cases hm with
      | head => exact .inl ⟨q, hq, rfl⟩
      | tail _ hm => exact .inr ⟨l, y, q, hm, hq, rfl⟩

@[simp] theorem nil_mem_pointers (v : Json) : [] ∈ v.pointers := by
  cases v <;> simp [pointers]

end Json

namespace Pointer

theorem cons_mem_pointers {v w : Json} {t : String} {q : Pointer} (ht : escape (unescape t) = t)
    (h : step v t = some w) (hq : q ∈ w.pointers) : t :: q ∈ v.pointers := by
  cases v with
  | object ms =>
    have hm := Names.mem_of_lookup_eq_some h
    exact .tail _ (Json.mem_memberPointers.2 ⟨_, w, q, hm, hq, by rw [ht]⟩)
  | array xs =>
    obtain ⟨i, hi, hx⟩ := Option.bind_eq_some_iff.1 h
    rw [index?_eq_some_iff.1 hi]
    exact .tail _ (Json.mem_itemPointers.2 ⟨i, w, q, hx, hq, by rw [Nat.zero_add]⟩)
  | _ => cases h

theorem mem_pointers_of_find? {p : Pointer} {v w : Json} (hp : p.Standard)
    (h : p.find? v = some w) : p ∈ v.pointers := by
  induction p generalizing v with
  | nil => exact v.nil_mem_pointers
  | cons t p ih =>
    rw [find?_cons] at h
    obtain ⟨x, hx, hw⟩ := Option.bind_eq_some_iff.1 h
    obtain ⟨ht, hp⟩ := standard_cons.1 hp
    exact cons_mem_pointers ht hx (ih hp hw)

theorem standard_of_mem_pointers {p : Pointer} {v : Json} (h : p ∈ v.pointers) : p.Standard := by
  induction p generalizing v with
  | nil => exact List.forall_mem_nil _
  | cons t p ih =>
    cases v with
    | object ms =>
      rw [Json.pointers, List.mem_cons, Json.mem_memberPointers] at h
      obtain h | ⟨k, x, q, hm, hq, h⟩ := h
      · cases h
      · cases h
        exact standard_cons.2 ⟨escape_unescape_escape k, ih hq⟩
    | array xs =>
      rw [Json.pointers, List.mem_cons, Json.mem_itemPointers] at h
      obtain h | ⟨i, x, q, hi, hq, h⟩ := h
      · cases h
      · cases h
        exact standard_cons.2 ⟨escape_unescape_index _, ih hq⟩
    | _ => simp [Json.pointers] at h

theorem append_mem_pointers {p q : Pointer} {v w : Json} (hp : p ∈ v.pointers)
    (h : p.find? v = some w) (hq : q ∈ w.pointers) : p ++ q ∈ v.pointers := by
  induction p generalizing v with
  | nil =>
    cases h
    exact hq
  | cons t p ih =>
    rw [find?_cons] at h
    obtain ⟨x, hx, hw⟩ := Option.bind_eq_some_iff.1 h
    obtain ⟨ht, hs⟩ := standard_cons.1 (standard_of_mem_pointers hp)
    exact cons_mem_pointers ht hx (ih (mem_pointers_of_find? hs hw) hw)

end Pointer

namespace Json

theorem size_le_sizeItems {x : Json} {xs : List Json} (h : x ∈ xs) : x.size ≤ sizeItems xs := by
  induction h with
  | head xs => exact Nat.le_add_right _ _
  | tail y _ ih => exact Nat.le_trans ih (Nat.le_add_left _ _)

theorem size_le_sizeMembers {k : String} {x : Json} {ms : List (String × Json)}
    (h : (k, x) ∈ ms) : x.size ≤ sizeMembers ms := by
  induction h with
  | head ms => exact Nat.le_add_right _ _
  | tail m _ ih => exact Nat.le_trans ih (Nat.le_add_left _ _)

theorem size_le_of_step {v w : Json} {t : String} (h : Pointer.step v t = some w) :
    w.size ≤ v.size := by
  cases v with
  | object ms => exact Nat.le_succ_of_le (size_le_sizeMembers (Names.mem_of_lookup_eq_some h))
  | array xs =>
    obtain ⟨i, _, hx⟩ := Option.bind_eq_some_iff.1 h
    exact Nat.le_succ_of_le (size_le_sizeItems (List.mem_of_getElem? hx))
  | _ => cases h

theorem size_le_of_find? {p : Pointer} {v w : Json} (h : p.find? v = some w) : w.size ≤ v.size := by
  induction p generalizing v with
  | nil =>
    cases h
    exact Nat.le_refl _
  | cons t p ih =>
    rw [Pointer.find?_cons] at h
    obtain ⟨x, hx, hw⟩ := Option.bind_eq_some_iff.1 h
    exact Nat.le_trans (ih hw) (size_le_of_step hx)

end Json

end SchemaEvolution
