import Mathlib.Data.List.Pairwise
import SchemaEvolution.Proofs.Names
import SchemaEvolution.Protobuf.Record

namespace SchemaEvolution.Protobuf

mutual

theorem Value.eq_of_equal {a b : Value} (h : a.equal b) : a = b := by
  cases a <;> cases b
  case record.record r s => exact congrArg Value.record (Value.eq_of_equalFields h)
  all_goals first
    | cases h
    | exact congrArg _ (eq_of_beq h)

theorem Value.eq_of_equalFields {a b : List (Nat × List Value)} (h : equalFields a b) : a = b := by
  match a, b with
  | [], [] => rfl
  | (m, xs) :: a, (n, ys) :: b =>
    simp only [equalFields, Bool.and_eq_true, beq_iff_eq] at h
    rw [h.1.1, Value.eq_of_equalAll h.1.2, Value.eq_of_equalFields h.2]

theorem Value.eq_of_equalAll {xs ys : List Value} (h : equalAll xs ys) : xs = ys := by
  match xs, ys with
  | [], [] => rfl
  | x :: xs, y :: ys =>
    simp only [equalAll, Bool.and_eq_true] at h
    rw [Value.eq_of_equal h.1, Value.eq_of_equalAll h.2]

end

mutual

theorem Value.equal_self (v : Value) : v.equal v := by
  cases v with
  | record fields => exact Value.equalFields_self fields
  | _ => exact beq_self_eq_true _

theorem Value.equalFields_self (fields : List (Nat × List Value)) : equalFields fields fields := by
  match fields with
  | [] => rfl
  | (n, vs) :: fields =>
    simp only [equalFields, beq_self_eq_true, equalAll_self vs, equalFields_self fields,
      Bool.and_self]

theorem Value.equalAll_self (vs : List Value) : equalAll vs vs := by
  match vs with
  | [] => rfl
  | v :: vs => simp only [equalAll, equal_self v, equalAll_self vs, Bool.and_self]

end

namespace Record

theorem eq_of_equal {r s : Record} (h : r.equal s) : r = s := Value.eq_of_equalFields h

@[simp] theorem equal_iff {r s : Record} : r.equal s ↔ r = s := by
  refine ⟨eq_of_equal, ?_⟩
  intro h
  exact h ▸ Value.equalFields_self r

@[simp] theorem equal_eq_false_iff {r s : Record} : r.equal s = false ↔ r ≠ s := by
  rw [← Bool.not_eq_true, equal_iff]

def Sorted (r : Record) : Prop := r.Pairwise fun a b => a.1 < b.1

theorem values_eq_nil {r : Record} {n : Nat} (h : r.lookup n = none) : r.values n = [] := by
  rw [values, h, Option.getD_none]

theorem mem_of_mem_alter {f : List Value → List Value} {n : Nat} {r : Record}
    {e : Nat × List Value} (h : e ∈ r.alter f n) : e.1 = n ∨ e ∈ r := by
  induction r with
  | nil =>
    cases List.mem_singleton.1 h
    exact .inl rfl
  | cons x r ih =>
    obtain ⟨m, vs⟩ := x
    rw [alter] at h
    split at h
    · exact (List.mem_cons.1 h).imp (congrArg Prod.fst) id
    · split at h
      next hn =>
        rcases List.mem_cons.1 h with rfl | h
        · exact .inl hn.symm
        · exact .inr (.tail _ h)
      next =>
        rcases List.mem_cons.1 h with rfl | h
        · exact .inr (.head r)
        · exact (ih h).imp id (.tail _)

theorem Sorted.alter {r : Record} (h : r.Sorted) (f : List Value → List Value) (n : Nat) :
    (r.alter f n).Sorted := by
  induction r with
  | nil => exact List.pairwise_singleton _ _
  | cons x r ih =>
    obtain ⟨m, vs⟩ := x
    obtain ⟨hx, hr⟩ := List.pairwise_cons.1 h
    rw [Record.alter]
    split
    next hlt =>
      refine List.pairwise_cons.2 ⟨List.forall_mem_cons.2 ⟨hlt, ?_⟩, h⟩
      intro y hy
      exact Nat.lt_trans hlt (hx y hy)
    next hlt =>
      split
      · exact List.pairwise_cons.2 ⟨hx, hr⟩
      next hne =>
        refine List.pairwise_cons.2 ⟨?_, ih hr⟩
        intro y hy
        obtain hy | hy := mem_of_mem_alter hy
        · simp only [hy]
          omega
        · exact hx y hy

theorem Sorted.lookup_eq_none {r : Record} {n : Nat} (h : ∀ e ∈ r, n < e.1) : r.lookup n = none := by
  rw [List.lookup_eq_none_iff]
  intro e he
  exact bne_iff_ne.2 (Nat.ne_of_lt (h e he))

theorem Sorted.lookup_alter {r : Record} (h : r.Sorted) (f : List Value → List Value) (n m : Nat) :
    (r.alter f n).lookup m = if m = n then some (f (r.values n)) else r.lookup m := by
  induction r with
  | nil =>
    rw [Record.alter, List.lookup_cons]
    by_cases hm : m = n
    · simp [hm, values]
    · simp [hm, beq_false_of_ne hm]
  | cons x r ih =>
    obtain ⟨k, vs⟩ := x
    obtain ⟨hx, hr⟩ := List.pairwise_cons.1 h
    have hvalues : values ((k, vs) :: r) n = if n = k then vs else values r n := by
      rw [values, List.lookup_cons]
      by_cases hk : n = k
      · simp [hk]
      · simp [hk, values, beq_false_of_ne hk]
    rw [Record.alter, hvalues]
    split
    next hlt =>
      have hnil : values r n = [] :=
        values_eq_nil (Sorted.lookup_eq_none fun e he => Nat.lt_trans hlt (hx e he))
      rw [List.lookup_cons, if_neg (by omega : n ≠ k), hnil]
      by_cases hm : m = n
      · simp [hm]
      · simp [hm, beq_false_of_ne hm]
    next =>
      split
      next heq =>
        subst heq
        by_cases hm : m = n
        · simp [hm]
        · simp [hm, List.lookup_cons, beq_false_of_ne hm]
      next hne =>
        rw [List.lookup_cons, List.lookup_cons, ih hr]
        by_cases hm : m = n
        · subst hm
          simp [beq_false_of_ne hne]
        · simp [hm]

theorem Sorted.values_alter {r : Record} (h : r.Sorted) (f : List Value → List Value) (n m : Nat) :
    (r.alter f n).values m = if m = n then f (r.values n) else r.values m := by
  rw [values, h.lookup_alter]
  split <;> rfl

theorem Sorted.keys_nodup {r : Record} (h : r.Sorted) : (r.map (·.1)).Nodup :=
  List.pairwise_map.2 (h.imp Nat.ne_of_lt)

theorem Sorted.lookup_eq_some_iff {r : Record} (h : r.Sorted) {n : Nat} {vs : List Value} :
    r.lookup n = some vs ↔ (n, vs) ∈ r :=
  ⟨Names.mem_of_lookup_eq_some, Names.lookup_eq_some_of_nodup_keys h.keys_nodup⟩

theorem Sorted.ext {r s : Record} (hr : r.Sorted) (hs : s.Sorted)
    (h : ∀ n, r.lookup n = s.lookup n) : r = s := by
  have hmem : ∀ e, e ∈ r ↔ e ∈ s := by
    intro e
    rw [← hr.lookup_eq_some_iff, ← hs.lookup_eq_some_iff, h]
  have hperm : r.Perm s := (List.perm_ext_iff_of_nodup (hr.imp fun hlt heq => by simp [heq] at hlt)
    (hs.imp fun hlt heq => by simp [heq] at hlt)).2 hmem
  exact hperm.eq_of_pairwise (fun a b _ _ hab hba => absurd hba (Nat.lt_asymm hab)) hr hs

@[simp] theorem values_cons (k : Nat) (vs : List Value) (r : Record) (n : Nat) :
    values ((k, vs) :: r) n = if n = k then vs else r.values n := by
  rw [values, List.lookup_cons]
  by_cases h : n = k
  · simp [h]
  · simp [h, beq_false_of_ne h, values]

theorem values_alter_const (r : Record) (vs : List Value) (n m : Nat) :
    (r.alter (fun _ => vs) n).values m = if m = n then vs else r.values m := by
  induction r with
  | nil => exact values_cons n vs [] m
  | cons e r ih =>
    obtain ⟨k, ws⟩ := e
    rw [alter]
    split
    next => exact values_cons n vs ((k, ws) :: r) m
    next =>
      split
      next hnk =>
        rw [values_cons, values_cons, hnk]
        split <;> rfl
      next hnk =>
        rw [values_cons, values_cons, ih]
        by_cases h : m = k
        · rw [if_pos h, if_pos h, if_neg fun hmn : m = n => hnk (hmn.symm.trans h)]
        · rw [if_neg h, if_neg h]

@[simp] theorem values_put (r : Record) (n : Nat) (v : Value) (m : Nat) :
    (r.put n v).values m = if m = n then [v] else r.values m :=
  r.values_alter_const [v] n m

theorem Sorted.alter_alter {r : Record} (h : r.Sorted) (f g : List Value → List Value) (n : Nat) :
    (r.alter f n).alter g n = r.alter (g ∘ f) n := by
  apply ((h.alter f n).alter g n).ext (h.alter _ n)
  intro m
  rw [(h.alter f n).lookup_alter, h.lookup_alter, h.lookup_alter, h.values_alter]
  split <;> simp_all

theorem Sorted.alter_congr {r : Record} (h : r.Sorted) {f g : List Value → List Value} {n : Nat}
    (hfg : f (r.values n) = g (r.values n)) : r.alter f n = r.alter g n := by
  apply (h.alter f n).ext (h.alter g n)
  intro m
  rw [h.lookup_alter, h.lookup_alter, hfg]

theorem Sorted.foldl_add {r : Record} (h : r.Sorted) (n : Nat) (vs : List Value) :
    vs.foldl (fun r v => r.add n v) r = r.addAll n vs := by
  induction vs generalizing r with
  | nil => rfl
  | cons v vs ih =>
    rw [List.foldl_cons, add, ih (h.alter _ n), addAll, addAll]
    cases vs with
    | nil => rfl
    | cons w vs =>
      simp only [List.isEmpty_cons, Bool.false_eq_true, if_false]
      rw [h.alter_alter]
      exact h.alter_congr (by simp)

end Record

end SchemaEvolution.Protobuf
