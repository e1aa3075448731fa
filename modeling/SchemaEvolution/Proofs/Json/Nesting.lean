import SchemaEvolution.Proofs.Json.Printing

namespace SchemaEvolution.Json

mutual

def depth : Json → Nat
  | .array xs => depthItems xs + 1
  | .object ms => depthMembers ms + 1
  | _ => 0

def depthItems : List Json → Nat
  | [] => 0
  | x :: xs => max x.depth (depthItems xs)

def depthMembers : List (String × Json) → Nat
  | [] => 0
  | (_, x) :: ms => max x.depth (depthMembers ms)

end

mutual

/-- The value with the members of every object in the order of their keys. -/
def sorted : Json → Json
  | .array xs => .array (sortedItems xs)
  | .object ms => ofMembers (sortedMembers ms)
  | v => v

def sortedItems : List Json → List Json
  | [] => []
  | x :: xs => x.sorted :: sortedItems xs

def sortedMembers : List (String × Json) → List (String × Json)
  | [] => []
  | (k, x) :: ms => (k, x.sorted) :: sortedMembers ms

end

mutual

def integers : Json → List Int
  | .number (.integer i) => [i]
  | .array xs => integersItems xs
  | .object ms => integersMembers ms
  | _ => []

def integersItems : List Json → List Int
  | [] => []
  | x :: xs => x.integers ++ integersItems xs

def integersMembers : List (String × Json) → List Int
  | [] => []
  | (_, x) :: ms => x.integers ++ integersMembers ms

end

@[simp] theorem mem_integersItems {i : Int} {xs : List Json} :
    i ∈ integersItems xs ↔ ∃ x ∈ xs, i ∈ x.integers := by
  induction xs with
  | nil => simp [integersItems]
  | cons x xs ih => simp [integersItems, ih]

@[simp] theorem mem_integersMembers {i : Int} {ms : List (String × Json)} :
    i ∈ integersMembers ms ↔ ∃ m ∈ ms, i ∈ m.2.integers := by
  induction ms with
  | nil => simp [integersMembers]
  | cons m ms ih => simp [integersMembers, ih]

def IntegersReadBack (v : Json) : Prop := ∀ i ∈ v.integers, (Number.integer i).ReadsBack

theorem IntegersReadBack.item {xs : List Json} {x : Json} (h : (Json.array xs).IntegersReadBack)
    (hx : x ∈ xs) : x.IntegersReadBack := by
  intro i hi
  exact h i (mem_integersItems.2 ⟨x, hx, hi⟩)

theorem IntegersReadBack.ofString (s : String) : (Json.string s).IntegersReadBack :=
  List.forall_mem_nil _

theorem IntegersReadBack.ofItems {xs : List Json} (h : ∀ x ∈ xs, x.IntegersReadBack) :
    (Json.array xs).IntegersReadBack := by
  intro i hi
  obtain ⟨x, hx, hi⟩ := mem_integersItems.1 hi
  exact h x hx i hi

mutual

theorem value?_form_eq {d : Nat} {v : Json} (hfloats : v.floats = []) (h : v.IntegersReadBack) :
    v.form.value? d = if v.depth ≤ d then some v.sorted else none := by
  match v, d with
  | .null, _ | .bool _, _ | .string _, _ => exact (if_pos (Nat.zero_le _)).symm
  | .number (.integer i), _ =>
    rw [form, Form.value?, h i (.head _)]
    exact (if_pos (Nat.zero_le _)).symm
  | .number (.float x), _ => cases hfloats
  | .array xs, 0 => rw [depth, if_neg (Nat.not_succ_le_zero _)]; rfl
  | .array xs, d + 1 =>
    rw [form, Form.value?, valueItems?_formItems_eq hfloats fun x hx => h.item hx, depth]
    simp only [Nat.add_le_add_iff_right]
    split <;> rfl
  | .object ms, 0 => rw [depth, if_neg (Nat.not_succ_le_zero _)]; rfl
  | .object ms, d + 1 =>
    have hms (m : String × Json) (hm : m ∈ ms) : m.2.IntegersReadBack := by
      intro i hi
      exact h i (mem_integersMembers.2 ⟨m, hm, hi⟩)
    rw [form, Form.value?, valueMembers?_formMembers_eq hfloats hms, depth]
    simp only [Nat.add_le_add_iff_right]
    split <;> rfl

theorem valueItems?_formItems_eq {d : Nat} {xs : List Json} (hfloats : floatsItems xs = [])
    (h : ∀ x ∈ xs, x.IntegersReadBack) : Form.valueItems? d (formItems xs) =
      if depthItems xs ≤ d then some (sortedItems xs) else none := by
  match xs with
  | [] => exact (if_pos (Nat.zero_le _)).symm
  | x :: xs =>
    obtain ⟨hx, hxs⟩ := List.append_eq_nil_iff.1 hfloats
    rw [List.forall_mem_cons] at h
    rw [formItems, Form.valueItems?, value?_form_eq hx h.1, valueItems?_formItems_eq hxs h.2,
      depthItems, sortedItems]
    simp only [Nat.max_le]
    by_cases hd : x.depth ≤ d <;> by_cases hds : depthItems xs ≤ d <;> simp [hd, hds]

theorem valueMembers?_formMembers_eq {d : Nat} {ms : List (String × Json)}
    (hfloats : floatsMembers ms = []) (h : ∀ m ∈ ms, m.2.IntegersReadBack) :
    Form.valueMembers? d (formMembers ms) =
      if depthMembers ms ≤ d then some (sortedMembers ms) else none := by
  match ms with
  | [] => exact (if_pos (Nat.zero_le _)).symm
  | (k, x) :: ms =>
    obtain ⟨hx, hms⟩ := List.append_eq_nil_iff.1 hfloats
    rw [List.forall_mem_cons] at h
    rw [formMembers, Form.valueMembers?, value?_form_eq hx h.1,
      valueMembers?_formMembers_eq hms h.2, depthMembers, sortedMembers]
    simp only [Nat.max_le]
    by_cases hd : x.depth ≤ d <;> by_cases hds : depthMembers ms ≤ d <;> simp [hd, hds]

end

theorem parse?_text {v : Json} (hfloats : v.floats = []) (h : v.IntegersReadBack) :
    parse? v.text = if v.depth ≤ maxDepth then some v.sorted else none := by
  rw [parse?, text, String.toList_ofList,
    ofChars?_of_document (document_render (by simp [hfloats])), value?_form_eq hfloats h]

@[simp] theorem keys_sortedMembers (ms : List (String × Json)) :
    (sortedMembers ms).map (·.1) = ms.map (·.1) := by
  induction ms with
  | nil => rfl
  | cons m ms ih => exact congrArg (m.1 :: ·) ih

theorem find?_sortedMembers (key : String) (ms : List (String × Json)) :
    Names.find? key (sortedMembers ms) = (Names.find? key ms).map sorted := by
  induction ms with
  | nil => rfl
  | cons m ms ih =>
    obtain ⟨k, x⟩ := m
    rw [sortedMembers, Names.find?_cons, Names.find?_cons, ih]
    split <;> rfl

theorem get?_sorted {ms : List (String × Json)} (h : (ms.map (·.1)).Nodup) (key : String) :
    (Json.object ms).sorted.get? key = (Names.find? key ms).map sorted := by
  rw [sorted, ofMembers, get?, Names.find?_foldl_put_of_nodup (by rwa [keys_sortedMembers]) .nil,
    find?_sortedMembers]
  cases (Names.find? key ms).map sorted <;> rfl

end SchemaEvolution.Json
