import Mathlib.Data.List.Nodup
import Mathlib.Data.List.Sort
import SchemaEvolution.Names

namespace SchemaEvolution.Names

variable {α β : Type*}

theorem mem_of_lookup_eq_some [BEq α] [LawfulBEq α] {xs : List (α × β)} {a : α} {b : β}
    (h : xs.lookup a = some b) : (a, b) ∈ xs := by
  obtain ⟨before, after, rfl, -⟩ := List.lookup_eq_some_iff.1 h
  exact List.mem_append_right _ (.head after)

theorem find?_eq_some_of_nodup_map [BEq β] [LawfulBEq β] {key : α → β} {xs : List α}
    (h : (xs.map key).Nodup) {x : α} (hx : x ∈ xs) : xs.find? (key · == key x) = some x := by
  obtain ⟨y, hy⟩ : ∃ y, xs.find? (key · == key x) = some y :=
    Option.isSome_iff_exists.1 (List.find?_isSome.2 ⟨x, hx, by simp⟩)
  have hkey : key y = key x := by simpa using List.find?_some hy
  rw [hy, List.inj_on_of_nodup_map h (List.mem_of_find?_eq_some hy) hx hkey]

theorem lookup_eq_some_of_nodup_keys [BEq α] [LawfulBEq α] {xs : List (α × β)}
    (h : (xs.map (·.1)).Nodup) {a : α} {b : β} (hx : (a, b) ∈ xs) : xs.lookup a = some b := by
  induction xs with
  | nil => cases hx
  | cons y ys ih =>
    obtain ⟨k, c⟩ := y
    rw [List.map_cons, List.nodup_cons] at h
    cases hx with
    | head => exact List.lookup_cons_self
    | tail _ hx =>
      have ha : a ∈ ys.map (·.1) := List.mem_map_of_mem hx
      have hne : a ≠ k := by
        intro heq
        exact h.1 (heq ▸ ha)
      rw [List.lookup_cons, beq_false_of_ne hne]
      exact ih h.2 hx

theorem find?_perm [BEq β] [LawfulBEq β] {key : α → β} {xs ys : List α} (h : (xs.map key).Nodup)
    (hp : xs.Perm ys) (k : β) : xs.find? (key · == k) = ys.find? (key · == k) := by
  have hys : (ys.map key).Nodup := (hp.map key).nodup_iff.1 h
  cases hx : xs.find? (key · == k) with
  | some x =>
    obtain rfl : key x = k := by simpa using List.find?_some hx
    exact (find?_eq_some_of_nodup_map hys (hp.mem_iff.1 (List.mem_of_find?_eq_some hx))).symm
  | none =>
    refine (List.find?_eq_none.2 fun y hy => ?_).symm
    exact List.find?_eq_none.1 hx y (hp.mem_iff.2 hy)

theorem lookup_perm [BEq α] [LawfulBEq α] {xs ys : List (α × β)} (h : (xs.map (·.1)).Nodup)
    (hp : xs.Perm ys) (a : α) : xs.lookup a = ys.lookup a := by
  have hys : (ys.map (·.1)).Nodup := (hp.map _).nodup_iff.1 h
  cases hx : xs.lookup a with
  | some b =>
    exact (lookup_eq_some_of_nodup_keys hys (hp.mem_iff.1 (mem_of_lookup_eq_some hx))).symm
  | none =>
    refine (List.lookup_eq_none_iff.2 ?_).symm
    intro e he
    exact List.lookup_eq_none_iff.1 hx e (hp.mem_iff.2 he)

theorem ofList_perm {xs : List String} (h : xs.Nodup) : (ofList xs).Perm xs := by
  rw [List.perm_ext_iff_of_nodup (sorted_ofList xs).nodup h]
  intro a
  exact mem_ofList

theorem sublist_of_subset {xs ys : List String} (hxs : xs.Pairwise (· < ·))
    (hys : ys.Pairwise (· < ·)) (h : xs ⊆ ys) : xs.Sublist ys := by
  have hanti : Std.Antisymm (α := String) (· < ·) := by
    refine ⟨?_⟩
    intro _ _ hxy hyx
    exact (String.lt_asymm hxy hyx).elim
  exact List.sublist_of_subperm_of_pairwise (List.subperm_of_subset hxs.nodup h) hxs hys

theorem keys_alter {f : Option α → α} {k : String} {entries : List (String × α)} :
    (alter f k entries).map (·.1) = insert k (entries.map (·.1)) := by
  induction entries with
  | nil => rfl
  | cons e entries ih =>
    obtain ⟨l, a⟩ := e
    rw [alter, List.map_cons, insert]
    split
    · rfl
    · split
      · rfl
      · rw [List.map_cons, ih]

theorem sorted_keys_put {k : String} {a : α} {entries : List (String × α)}
    (h : (entries.map (·.1)).Pairwise (· < ·)) :
    ((put k a entries).map (·.1)).Pairwise (· < ·) := by
  rw [put, keys_alter]
  exact sorted_insert h

theorem mem_of_mem_put {k : String} {a : α} {entries : List (String × α)}
    {e : String × α} (h : e ∈ put k a entries) : e = (k, a) ∨ e ∈ entries := by
  induction entries with
  | nil => exact .inl (List.mem_singleton.1 h)
  | cons d entries ih =>
    obtain ⟨l, b⟩ := d
    rw [put, alter] at h
    split at h
    · exact List.mem_cons.1 h
    · split at h
      next hkl =>
        subst hkl
        exact (List.mem_cons.1 h).imp_right (.tail _)
      · obtain h | h := List.mem_cons.1 h
        · exact .inr (h ▸ .head _)
        · exact (ih h).imp_right (.tail _)

@[simp] theorem put_nil {k : String} {a : α} : put k a [] = [(k, a)] := rfl

theorem put_cons {k l : String} {a b : α} {entries : List (String × α)} :
    put k a ((l, b) :: entries) =
      if k < l then (k, a) :: (l, b) :: entries
      else if k = l then (l, a) :: entries
      else (l, b) :: put k a entries := rfl

theorem lt_or_lt_of_ne {k l : String} (h : k ≠ l) : k < l ∨ l < k := by
  by_contra hnot
  rw [not_or, String.not_lt, String.not_lt] at hnot
  exact h (String.le_antisymm hnot.2 hnot.1)

theorem put_comm {k l : String} (h : k ≠ l) (a b : α) (entries : List (String × α)) :
    put k a (put l b entries) = put l b (put k a entries) := by
  have hkl := lt_or_lt_of_ne h
  induction entries with
  | nil => grind [put_nil, put_cons, String.lt_asymm]
  | cons e entries ih =>
    obtain ⟨m, c⟩ := e
    grind [put_cons, String.lt_trans, String.lt_irrefl]

theorem put_eq_append {k : String} {a : α} {entries : List (String × α)}
    (h : ∀ e ∈ entries, e.1 < k) : put k a entries = entries ++ [(k, a)] := by
  induction entries with
  | nil => rfl
  | cons e entries ih =>
    obtain ⟨l, b⟩ := e
    obtain ⟨hl, hentries⟩ := List.forall_mem_cons.1 h
    have hne : k ≠ l := by
      intro heq
      exact String.lt_irrefl l (heq ▸ hl)
    rw [put_cons, if_neg (String.lt_asymm hl), if_neg hne, ih hentries, List.cons_append]

theorem foldl_put_eq_append (entries acc : List (String × α))
    (h : ((acc ++ entries).map (·.1)).Pairwise (· < ·)) :
    entries.foldl (fun es e => put e.1 e.2 es) acc = acc ++ entries := by
  induction entries generalizing acc with
  | nil => rw [List.append_nil]; rfl
  | cons e entries ih =>
    have hlast : put e.1 e.2 acc = acc ++ [e] := by
      apply put_eq_append
      intro d hd
      rw [List.map_append, List.pairwise_append] at h
      exact h.2.2 d.1 (List.mem_map_of_mem hd) e.1 (.head _)
    rw [List.append_cons] at h ⊢
    rw [List.foldl_cons, hlast, ih _ h]

theorem sorted_keys_foldl_put (entries acc : List (String × α))
    (h : (acc.map (·.1)).Pairwise (· < ·)) :
    ((entries.foldl (fun es e => put e.1 e.2 es) acc).map (·.1)).Pairwise (· < ·) := by
  induction entries generalizing acc with
  | nil => exact h
  | cons e entries ih => exact ih _ (sorted_keys_put h)

theorem mem_of_mem_foldl_put (entries : List (String × α)) {acc : List (String × α)}
    {e : String × α} (h : e ∈ entries.foldl (fun es e => put e.1 e.2 es) acc) :
    e ∈ acc ∨ e ∈ entries := by
  induction entries generalizing acc with
  | nil => exact .inl h
  | cons d entries ih =>
    obtain h | h := ih h
    · obtain rfl | h := mem_of_mem_put h
      · exact .inr (.head _)
      · exact .inl h
    · exact .inr (.tail _ h)

@[simp] theorem find?_cons {k l : String} {a : α} {entries : List (String × α)} :
    find? k ((l, a) :: entries) = if k = l then some a else find? k entries := by
  by_cases h : k = l
  · rw [if_pos h, h, find?, List.lookup_cons_self]
  · rw [if_neg h, find?, List.lookup_cons, beq_false_of_ne h, find?]

@[simp] theorem find?_append {k : String} {xs ys : List (String × α)} :
    find? k (xs ++ ys) = (find? k xs).or (find? k ys) := List.lookup_append

theorem find?_isSome_iff {k : String} {entries : List (String × α)} :
    (find? k entries).isSome ↔ k ∈ entries.map (·.1) := by
  induction entries with
  | nil => simp [find?]
  | cons e entries ih =>
    obtain ⟨l, a⟩ := e
    rw [find?_cons, List.map_cons, List.mem_cons, ← ih]
    by_cases h : k = l <;> simp [h]

theorem find?_alter {f : Option α → α} {k l : String} {entries : List (String × α)}
    (h : (entries.map (·.1)).Pairwise (· < ·)) :
    find? l (alter f k entries) = if l = k then some (f (find? k entries)) else find? l entries := by
  induction entries with
  | nil => rw [alter, find?_cons]; rfl
  | cons e entries ih =>
    obtain ⟨m, a⟩ := e
    rw [List.map_cons, List.pairwise_cons] at h
    rw [alter]
    split
    next hkm =>
      have hk : find? k ((m, a) :: entries) = none := by
        rw [← Option.not_isSome_iff_eq_none, find?_isSome_iff, List.map_cons, List.mem_cons]
        rintro (hk | hk)
        · exact String.ne_of_lt hkm hk
        · exact String.lt_irrefl k (String.lt_trans hkm (h.1 k hk))
      rw [find?_cons, hk]
    next =>
      split
      next hkm =>
        subst hkm
        simp only [find?_cons, if_pos]
        split <;> rfl
      next hkm =>
        rw [find?_cons, find?_cons, find?_cons, ih h.2, if_neg hkm]
        by_cases hl : l = m
        · rw [if_pos hl, if_pos hl, if_neg (hl ▸ Ne.symm hkm)]
        · rw [if_neg hl, if_neg hl]

theorem find?_put {a : α} {k l : String} {entries : List (String × α)}
    (h : (entries.map (·.1)).Pairwise (· < ·)) :
    find? l (put k a entries) = if l = k then some a else find? l entries :=
  find?_alter h

theorem find?_foldl_put_of_nodup {entries acc : List (String × α)} {k : String}
    (h : (entries.map (·.1)).Nodup) (hacc : (acc.map (·.1)).Pairwise (· < ·)) :
    find? k (entries.foldl (fun es e => put e.1 e.2 es) acc) =
      (find? k entries).or (find? k acc) := by
  induction entries generalizing acc with
  | nil => rfl
  | cons e entries ih =>
    obtain ⟨l, a⟩ := e
    rw [List.map_cons, List.nodup_cons] at h
    rw [List.foldl_cons, ih h.2 (sorted_keys_put hacc), find?_put hacc, find?_cons]
    split
    next hkl =>
      subst hkl
      have hnone : find? k entries = none := by
        rw [← Option.not_isSome_iff_eq_none, find?_isSome_iff]
        exact h.1
      rw [hnone]
      rfl
    · rfl

theorem exists_put_of_find?_eq_some {a b : α} {k : String} {entries : List (String × α)}
    (h : (entries.map (·.1)).Pairwise (· < ·)) (hk : find? k entries = some a) :
    ∃ before after, entries = before ++ (k, a) :: after ∧
      put k b entries = before ++ (k, b) :: after := by
  induction entries with
  | nil => cases hk
  | cons e entries ih =>
    obtain ⟨l, c⟩ := e
    rw [List.map_cons, List.pairwise_cons] at h
    rw [find?_cons] at hk
    rw [put_cons]
    split at hk
    next hkl =>
      cases hk
      subst hkl
      exact ⟨[], entries, rfl, by rw [if_neg (String.lt_irrefl k), if_pos rfl]; rfl⟩
    next hkl =>
      obtain ⟨before, after, rfl, hput⟩ := ih h.2 hk
      have hlt : ¬ k < l := String.lt_asymm (h.1 k (by simp))
      exact ⟨(l, c) :: before, after, rfl, by rw [if_neg hlt, if_neg hkl, hput]; rfl⟩

theorem exists_put_of_find?_eq_none {b : α} {k : String} {entries : List (String × α)}
    (hk : find? k entries = none) :
    ∃ before after, entries = before ++ after ∧ put k b entries = before ++ (k, b) :: after := by
  induction entries with
  | nil => exact ⟨[], [], rfl, rfl⟩
  | cons e entries ih =>
    obtain ⟨l, c⟩ := e
    rw [find?_cons] at hk
    rw [put_cons]
    by_cases hlt : k < l
    · exact ⟨[], (l, c) :: entries, rfl, by rw [if_pos hlt]; rfl⟩
    · split at hk
      · cases hk
      next hkl =>
        obtain ⟨before, after, rfl, hput⟩ := ih hk
        exact ⟨(l, c) :: before, after, rfl, by rw [if_neg hlt, if_neg hkl, hput]; rfl⟩

theorem find?_foldl_put (value : String → α) (names : List String) (entries : List (String × α))
    (h : (entries.map (·.1)).Pairwise (· < ·)) :
    let filled := names.foldl (fun es n => put n (value n) es) entries
    (filled.map (·.1)).Pairwise (· < ·) ∧ ∀ n, find? n filled =
      if n ∈ names then some (value n) else find? n entries := by
  induction names generalizing entries with
  | nil => exact ⟨h, fun n => by simp⟩
  | cons m names ih =>
    obtain ⟨hs, hf⟩ := ih _ (sorted_keys_put (k := m) (a := value m) h)
    refine ⟨hs, ?_⟩
    intro n
    rw [List.foldl_cons, hf, put, find?_alter h]
    by_cases hn : n = m
    · subst hn
      simp
    · simp [hn]

end SchemaEvolution.Names
