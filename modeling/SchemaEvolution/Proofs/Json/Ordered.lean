import SchemaEvolution.Json.Parser
import SchemaEvolution.Proofs.Names

namespace SchemaEvolution.Json

mutual

def Ordered : Json → Prop
  | .array xs => OrderedItems xs
  | .object ms => (ms.map (·.1)).Pairwise (· < ·) ∧ OrderedMembers ms
  | _ => True

def OrderedItems : List Json → Prop
  | [] => True
  | x :: xs => x.Ordered ∧ OrderedItems xs

def OrderedMembers : List (String × Json) → Prop
  | [] => True
  | (_, x) :: ms => x.Ordered ∧ OrderedMembers ms

end

theorem orderedItems_iff {xs : List Json} : OrderedItems xs ↔ ∀ x ∈ xs, x.Ordered := by
  induction xs with
  | nil => simp [OrderedItems]
  | cons x xs ih => rw [OrderedItems, ih, List.forall_mem_cons]

theorem orderedMembers_iff {ms : List (String × Json)} :
    OrderedMembers ms ↔ ∀ m ∈ ms, m.2.Ordered := by
  induction ms with
  | nil => simp [OrderedMembers]
  | cons m ms ih => rw [OrderedMembers, ih, List.forall_mem_cons]

theorem ordered_put {k : String} {v : Json} {ms : List (String × Json)} (hv : v.Ordered)
    (hms : (Json.object ms).Ordered) : (Json.object (Names.put k v ms)).Ordered := by
  refine ⟨Names.sorted_keys_put hms.1, orderedMembers_iff.2 ?_⟩
  intro m hm
  obtain rfl | hm := Names.mem_of_mem_put hm
  · exact hv
  · exact orderedMembers_iff.1 hms.2 m hm

theorem ordered_ofMembers {ms : List (String × Json)} (h : OrderedMembers ms) :
    (ofMembers ms).Ordered := by
  have hput (ms acc : List (String × Json)) (hms : ∀ m ∈ ms, m.2.Ordered)
      (hacc : (Json.object acc).Ordered) :
      (Json.object (ms.foldl (fun ms m => Names.put m.1 m.2 ms) acc)).Ordered := by
    induction ms generalizing acc with
    | nil => exact hacc
    | cons m ms ih =>
      exact ih _ (fun n hn => hms n (.tail m hn)) (ordered_put (hms m (.head ms)) hacc)
  exact hput ms [] (orderedMembers_iff.1 h) ⟨.nil, trivial⟩

mutual

theorem ordered_of_takeValue? (fuel : Nat) {depth : Nat} {cs : List Char} {r : Json × List Char}
    (h : takeValue? fuel depth cs = some r) : r.1.Ordered := by
  cases fuel with
  | zero => simp [takeValue?] at h
  | succ fuel =>
    unfold takeValue? at h
    -- one case for each way a value starts: the three words, texts, arrays, objects, numbers
    split at h
    · cases h; trivial
    · cases h; trivial
    · cases h; trivial
    · obtain ⟨s, -, rfl⟩ := Option.map_eq_some_iff.1 h
      trivial
    · split at h
      · cases h
      · split at h
        · cases h; trivial
        · obtain ⟨s, hs, rfl⟩ := Option.map_eq_some_iff.1 h
          exact ordered_of_takeItems? fuel hs
    · split at h
      · cases h
      · split at h
        · cases h
          exact ⟨.nil, trivial⟩
        · obtain ⟨s, hs, rfl⟩ := Option.map_eq_some_iff.1 h
          exact ordered_ofMembers (ordered_of_takeMembers? fuel hs)
    · obtain ⟨l, -, h⟩ := Option.bind_eq_some_iff.1 h
      obtain ⟨n, -, h⟩ := Option.bind_eq_some_iff.1 h
      cases h
      trivial

theorem ordered_of_takeItems? (fuel : Nat) {depth : Nat} {cs : List Char}
    {r : List Json × List Char} (h : takeItems? fuel depth cs = some r) : OrderedItems r.1 := by
  cases fuel with
  | zero => simp [takeItems?] at h
  | succ fuel =>
    rw [takeItems?] at h
    obtain ⟨⟨x, rest⟩, hx, h⟩ := Option.bind_eq_some_iff.1 h
    have hx := ordered_of_takeValue? fuel hx
    dsimp only at h
    split at h
    · cases h
      exact ⟨hx, trivial⟩
    · obtain ⟨xs, hxs, h⟩ := Option.bind_eq_some_iff.1 h
      cases h
      exact ⟨hx, ordered_of_takeItems? fuel hxs⟩
    · cases h

theorem ordered_of_takeMembers? (fuel : Nat) {depth : Nat} {cs : List Char}
    {r : List (String × Json) × List Char} (h : takeMembers? fuel depth cs = some r) :
    OrderedMembers r.1 := by
  cases fuel with
  | zero => simp [takeMembers?] at h
  | succ fuel =>
    rw [takeMembers?] at h
    obtain ⟨⟨k, rest⟩, -, h⟩ := Option.bind_eq_some_iff.1 h
    obtain ⟨rest, -, h⟩ := Option.bind_eq_some_iff.1 h
    obtain ⟨⟨x, rest⟩, hx, h⟩ := Option.bind_eq_some_iff.1 h
    have hx := ordered_of_takeValue? fuel hx
    dsimp only at h
    split at h
    · cases h
      exact ⟨hx, trivial⟩
    · obtain ⟨ms, hms, h⟩ := Option.bind_eq_some_iff.1 h
      cases h
      exact ⟨hx, ordered_of_takeMembers? fuel hms⟩
    · cases h

end

theorem ordered_of_parse? {s : String} {v : Json} (h : parse? s = some v) : v.Ordered := by
  obtain ⟨⟨w, rest⟩, hr, h⟩ := Option.bind_eq_some_iff.1 h
  dsimp only at h
  split at h
  · cases h
    exact ordered_of_takeValue? _ hr
  · cases h

end SchemaEvolution.Json
