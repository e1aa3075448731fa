import Mathlib.Data.List.Pairwise
import SchemaEvolution.Proofs.Protobuf.Compatible

namespace SchemaEvolution.Protobuf

namespace Interval

def Holds (i : Interval) (n : Int) : Prop := i.first ≤ n ∧ n ≤ i.last

def Covered (is : List Interval) (n : Int) : Prop := ∃ i ∈ is, i.Holds n

def Before (i j : Interval) : Prop := i.last + 1 < j.first

structure Normal (is : List Interval) : Prop where
  nonempty : ∀ i ∈ is, i.first ≤ i.last
  gaps : is.Pairwise Before

variable {is : List Interval}

@[simp] theorem covered_cons {i : Interval} {n : Int} :
    Covered (i :: is) n ↔ i.Holds n ∨ Covered is n := by
  simp [Covered]

theorem first_le_of_mem_merge {a : Int} (h : ∀ i ∈ is, a ≤ i.first) :
    ∀ i ∈ merge is, a ≤ i.first := by
  fun_induction merge is with
  | case1 => exact h
  | case2 i => exact h
  | case3 i j rest _ ih =>
    exact ih (List.forall_mem_cons.2 ⟨h i (.head _), fun k hk => h k (.tail _ (.tail _ hk))⟩)
  | case4 i j rest _ ih =>
    exact List.forall_mem_cons.2 ⟨h i (.head _), ih fun k hk => h k (.tail _ hk)⟩

theorem normal_merge (hne : ∀ i ∈ is, i.first ≤ i.last)
    (hs : is.Pairwise fun i j => i.first ≤ j.first) : Normal (merge is) := by
  fun_induction merge is with
  | case1 => exact ⟨hne, .nil⟩
  | case2 i => exact ⟨hne, List.pairwise_singleton _ _⟩
  | case3 i j rest _ ih =>
    simp only [List.forall_mem_cons, List.pairwise_cons] at hne hs ih
    exact ih ⟨Int.le_trans hne.1 (Int.le_max_left _ _), hne.2.2⟩ ⟨hs.1.2, hs.2.2⟩
  | case4 i j rest hgap ih =>
    rw [List.forall_mem_cons] at hne
    obtain ⟨hi, hrest⟩ := List.pairwise_cons.1 hs
    obtain ⟨hj, -⟩ := List.pairwise_cons.1 hrest
    have hnormal := ih hne.2 hrest
    have hfirst : ∀ k ∈ merge (j :: rest), j.first ≤ k.first :=
      first_le_of_mem_merge (List.forall_mem_cons.2 ⟨Int.le_refl _, hj⟩)
    refine ⟨List.forall_mem_cons.2 ⟨hne.1, hnormal.nonempty⟩, List.pairwise_cons.2 ⟨?_,
      hnormal.gaps⟩⟩
    intro k hk
    exact Int.lt_of_lt_of_le (Int.not_le.1 hgap) (hfirst k hk)

theorem covered_merge_iff (hne : ∀ i ∈ is, i.first ≤ i.last)
    (hs : is.Pairwise fun i j => i.first ≤ j.first) {n : Int} :
    Covered (merge is) n ↔ Covered is n := by
  fun_induction merge is with
  | case1 => rfl
  | case2 i => rfl
  | case3 i j rest htouch ih =>
    simp only [List.forall_mem_cons, List.pairwise_cons] at hne hs ih
    rw [ih ⟨Int.le_trans hne.1 (Int.le_max_left _ _), hne.2.2⟩ ⟨hs.1.2, hs.2.2⟩]
    simp only [covered_cons, ← or_assoc]
    refine or_congr_left ?_
    -- the second interval starts within the first one or right after it
    have hij := hs.1.1
    simp only [Holds]
    omega
  | case4 i j rest _ ih =>
    simp [ih (List.forall_mem_cons.1 hne).2 (List.pairwise_cons.1 hs).2]

theorem le_total (i j : Interval) : le i j || le j i := by
  simp only [le, Bool.or_eq_true, Bool.and_eq_true, decide_eq_true_eq]
  omega

theorem le_trans (i j k : Interval) (hij : le i j) (hjk : le j k) : le i k := by
  simp only [le, Bool.or_eq_true, Bool.and_eq_true, decide_eq_true_eq] at hij hjk ⊢
  omega

theorem normal_and_covered_normalize (is : List Interval) :
    Normal (normalize is) ∧ ∀ n, Covered (normalize is) n ↔ Covered is n := by
  have hperm := List.mergeSort_perm (is.filter isNonempty) le
  have hmem : ∀ i ∈ (is.filter isNonempty).mergeSort le, i ∈ is ∧ i.first ≤ i.last := by
    intro i hi
    simpa [isNonempty] using hperm.mem_iff.1 hi
  have hne : ∀ i ∈ (is.filter isNonempty).mergeSort le, i.first ≤ i.last := by
    intro i hi
    exact (hmem i hi).2
  have hs : ((is.filter isNonempty).mergeSort le).Pairwise fun i j => i.first ≤ j.first := by
    apply (List.pairwise_mergeSort le_trans le_total _).imp
    intro i j hij
    simp only [le, Bool.or_eq_true, Bool.and_eq_true, decide_eq_true_eq] at hij
    omega
  refine ⟨normal_merge hne hs, ?_⟩
  intro n
  rw [normalize, covered_merge_iff hne hs]
  constructor
  · rintro ⟨i, hi, hn⟩
    exact ⟨i, (hmem i hi).1, hn⟩
  · rintro ⟨i, hi, hn⟩
    have hi' : i ∈ is.filter isNonempty := by
      rw [List.mem_filter]
      exact ⟨hi, decide_eq_true (Int.le_trans hn.1 hn.2)⟩
    exact ⟨i, hperm.mem_iff.2 hi', hn⟩

theorem Normal.eq_or_before (h : Normal is) {i j : Interval} (hi : i ∈ is) (hj : j ∈ is) :
    i = j ∨ i.Before j ∨ j.Before i := by
  have hsymm : Std.Symm fun a b : Interval => a = b ∨ a.Before b ∨ b.Before a := by
    refine ⟨?_⟩
    intro _ _ hab
    exact hab.imp Eq.symm Or.symm
  have hgaps : is.Pairwise fun a b => a = b ∨ a.Before b ∨ b.Before a :=
    h.gaps.imp fun hb => .inr (.inl hb)
  exact hgaps.forall_of_forall (fun _ _ => .inl rfl) hi hj

theorem Normal.exists_of_covered (h : Normal is) {i : Interval} (hi : i.first ≤ i.last)
    (hc : ∀ n, i.Holds n → Covered is n) : ∃ j ∈ is, j.first ≤ i.first ∧ i.last ≤ j.last := by
  obtain ⟨j, hj, hfirst⟩ := hc i.first ⟨Int.le_refl _, hi⟩
  refine ⟨j, hj, hfirst.1, Int.not_lt.1 ?_⟩
  intro hlt
  obtain ⟨k, hk, hnext⟩ := hc (j.last + 1) ⟨by have := hfirst.2; omega, by omega⟩
  simp only [Holds] at hfirst hnext
  rcases h.eq_or_before hj hk with rfl | hb | hb
  · omega
  · simp only [Before] at hb; omega
  · simp only [Before] at hb; omega

end Interval

namespace Reserved

theorem keeps_of_iff {is js : List Interval} {current previous : List String} :
    (of is current).Keeps (of js previous) ↔
      (∀ n, Interval.Covered js n → Interval.Covered is n) ∧ ∀ x ∈ previous, x ∈ current := by
  obtain ⟨his, hcis⟩ := Interval.normal_and_covered_normalize is
  obtain ⟨hjs, hcjs⟩ := Interval.normal_and_covered_normalize js
  have hnames : (∀ x ∈ Names.ofList previous, (of is current).hasName x) ↔
      ∀ x ∈ previous, x ∈ current := by
    simp [of]
  have hintervals : (∀ i ∈ Interval.normalize js, (of is current).coversInterval i) ↔
      ∀ n, Interval.Covered js n → Interval.Covered is n := by
    simp only [coversInterval_iff, of]
    constructor
    · intro h n hn
      obtain ⟨i, hi, hin⟩ := (hcjs n).2 hn
      obtain ⟨j, hj, hji, hij⟩ := h i hi
      exact (hcis n).1 ⟨j, hj, Int.le_trans hji hin.1, Int.le_trans hin.2 hij⟩
    · intro h i hi
      apply his.exists_of_covered (hjs.nonempty i hi)
      intro n hn
      rw [hcis]
      apply h
      rw [← hcjs]
      exact ⟨i, hi, hn⟩
  rw [← hintervals, ← hnames]
  constructor
  · rintro ⟨hcovers, hkept⟩
    exact ⟨hcovers, hkept⟩
  · rintro ⟨hcovers, hkept⟩
    exact ⟨hcovers, hkept⟩

end Reserved

end SchemaEvolution.Protobuf
