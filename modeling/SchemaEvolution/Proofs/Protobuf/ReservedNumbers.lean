import Mathlib.Algebra.Ring.Int.Defs
import SchemaEvolution.Proofs.Protobuf.Retained

namespace SchemaEvolution.Protobuf

namespace Interval

/-- All numbers of the interval are in the set, and those next to it are not. -/
structure IsRun (S : Int → Prop) (i : Interval) : Prop where
  nonempty : i.first ≤ i.last
  holds : ∀ n, i.Holds n → S n
  before : ¬ S (i.first - 1)
  after : ¬ S (i.last + 1)

variable {is js : List Interval}

theorem Normal.not_covered_beside (h : Normal is) {i : Interval} (hi : i ∈ is) {n : Int}
    (hn : n = i.first - 1 ∨ n = i.last + 1) : ¬ Covered is n := by
  rintro ⟨j, hj, hjn⟩
  have hne := h.nonempty i hi
  simp only [Holds] at hjn
  rcases h.eq_or_before hi hj with rfl | hb | hb
  · omega
  · simp only [Before] at hb; omega
  · simp only [Before] at hb; omega

theorem Normal.isRun (h : Normal is) {i : Interval} (hi : i ∈ is) : IsRun (Covered is) i where
  nonempty := h.nonempty i hi
  holds _ hn := ⟨i, hi, hn⟩
  before := h.not_covered_beside hi (.inl rfl)
  after := h.not_covered_beside hi (.inr rfl)

theorem Normal.mem_of_isRun (h : Normal is) {i : Interval} (hi : IsRun (Covered is) i) : i ∈ is := by
  obtain ⟨j, hj, hfirst, hlast⟩ := h.exists_of_covered hi.nonempty hi.holds
  have hne := hi.nonempty
  have hfirst : j.first = i.first := by
    refine Int.le_antisymm hfirst (Int.not_lt.1 fun hlt => hi.before ⟨j, hj, ?_⟩)
    simp only [Holds]; omega
  have hlast : j.last = i.last := by
    refine Int.le_antisymm (Int.not_lt.1 fun hlt => hi.after ⟨j, hj, ?_⟩) hlast
    simp only [Holds]; omega
  have hij : i = j := by
    cases i; cases j
    simp_all
  exact hij ▸ hj

theorem Normal.mem_iff_isRun (h : Normal is) {i : Interval} : i ∈ is ↔ IsRun (Covered is) i :=
  ⟨h.isRun, h.mem_of_isRun⟩

theorem Normal.nodup (h : Normal is) : is.Nodup := by
  apply h.gaps.imp_of_mem
  intro i j hi _ hb
  rintro rfl
  have hne := h.nonempty i hi
  simp only [Before] at hb
  omega

/-- The normal form of a set of numbers is unique. -/
theorem Normal.eq_of_covered_iff (h : Normal is) (h' : Normal js)
    (hc : ∀ n, Covered is n ↔ Covered js n) : is = js := by
  have hsame : Covered is = Covered js := by
    apply funext
    intro n
    exact propext (hc n)
  have hperm : is.Perm js := by
    apply (List.perm_ext_iff_of_nodup h.nodup h'.nodup).2
    intro i
    rw [h.mem_iff_isRun, h'.mem_iff_isRun, hsame]
  refine hperm.eq_of_pairwise (?_) h.gaps h'.gaps
  intro i j hi hj hij hji
  have hi := h.nonempty i hi
  have hj := h'.nonempty j hj
  simp only [Before] at hij hji
  omega

def sum64? (a b : Int) : Option Int :=
  if -2 ^ 63 ≤ a + b ∧ a + b < 2 ^ 63 then some (a + b) else none

def join64? (joined : List Interval) (i : Interval) : Option (List Interval) :=
  match joined with
  | [] => some [i]
  | last :: rest => do
    let next ← sum64? last.last 1
    return if i.first ≤ next then ⟨last.first, max last.last i.last⟩ :: rest else i :: last :: rest

/-- The intervals in order, joined one after the other. -/
def normalize64? (is : List Interval) : Option (List Interval) :=
  (((is.filter isNonempty).mergeSort le).foldlM join64? []).map List.reverse

def HasNext64 (i : Interval) : Prop := -2 ^ 63 ≤ i.last + 1 ∧ i.last + 1 < 2 ^ 63

theorem foldlM_join64? {last : Interval} (rest : List Interval) (hlast : last.HasNext64)
    (h : ∀ i ∈ is, i.HasNext64) :
    is.foldlM join64? (last :: rest) = some ((merge (last :: is)).reverse ++ rest) := by
  induction is generalizing last rest with
  | nil => simp [merge]
  | cons i is ih =>
    obtain ⟨hi, his⟩ := List.forall_mem_cons.1 h
    have hnext : sum64? last.last 1 = some (last.last + 1) := if_pos hlast
    rw [List.foldlM_cons, join64?, hnext, merge]
    by_cases htouch : i.first ≤ last.last + 1
    · have hmax : HasNext64 ⟨last.first, max last.last i.last⟩ := by
        simp only [HasNext64] at hlast hi ⊢
        omega
      simpa [htouch] using ih rest hmax his
    · simpa [htouch] using ih (last :: rest) hi his

theorem normalize64?_eq (h : ∀ i ∈ is, i.HasNext64) : normalize64? is = some (normalize is) := by
  have hsorted : ∀ i ∈ (is.filter isNonempty).mergeSort le, i.HasNext64 := by
    intro i hi
    exact h i (List.mem_of_mem_filter (List.mem_mergeSort.1 hi))
  unfold normalize64? normalize
  cases hsort : (is.filter isNonempty).mergeSort le with
  | nil => simp [merge]
  | cons i rest =>
    rw [hsort] at hsorted
    obtain ⟨hi, hrest⟩ := List.forall_mem_cons.1 hsorted
    have hjoined : (i :: rest).foldlM join64? [] = some ((merge (i :: rest)).reverse ++ []) :=
      foldlM_join64? [] hi hrest
    simp only [hjoined, List.append_nil, Option.map_some, List.reverse_reverse]

end Interval

theorem mapM_eq_some_map {α β : Type*} {g : α → Option β} {f : α → β} {xs : List α}
    (h : ∀ x ∈ xs, g x = some (f x)) : xs.mapM g = some (xs.map f) := by
  induction xs with
  | nil => rfl
  | cons x xs ih =>
    obtain ⟨hx, hxs⟩ := List.forall_mem_cons.1 h
    rw [List.mapM_cons, hx, ih hxs]
    rfl

def DeclaredRange.Fits32 (r : DeclaredRange) : Prop :=
  (-2 ^ 31 ≤ r.start ∧ r.start < 2 ^ 31) ∧ -2 ^ 31 ≤ r.stop ∧ r.stop < 2 ^ 31

instance (r : DeclaredRange) : Decidable r.Fits32 := inferInstanceAs (Decidable (_ ∧ _))

def Message.intervals64? (m : Message) : Option (List Interval) :=
  m.reservedRanges.mapM (fun r => (Interval.sum64? r.stop (-1)).map (Interval.mk r.start)) >>=
    Interval.normalize64?

def EnumType.intervals64? (e : EnumType) : Option (List Interval) :=
  Interval.normalize64? (e.reservedRanges.map fun r => ⟨r.start, r.stop⟩)

theorem Message.intervals64?_eq {m : Message} (h : ∀ r ∈ m.reservedRanges, r.Fits32) :
    m.intervals64? = some (Reserved.ofMessage m).intervals := by
  have hlast : ∀ r ∈ m.reservedRanges,
      (Interval.sum64? r.stop (-1)).map (Interval.mk r.start) = some ⟨r.start, r.stop - 1⟩ := by
    intro r hr
    obtain ⟨-, hstop⟩ := h r hr
    rw [Interval.sum64?, if_pos (by omega)]
    rfl
  rw [intervals64?, mapM_eq_some_map hlast]
  refine Interval.normalize64?_eq fun i hi => ?_
  obtain ⟨r, hr, rfl⟩ := List.mem_map.1 hi
  obtain ⟨-, hstop⟩ := h r hr
  simp only [Interval.HasNext64]
  omega

theorem EnumType.intervals64?_eq {e : EnumType} (h : ∀ r ∈ e.reservedRanges, r.Fits32) :
    e.intervals64? = some (Reserved.ofEnum e).intervals := by
  refine Interval.normalize64?_eq fun i hi => ?_
  obtain ⟨r, hr, rfl⟩ := List.mem_map.1 hi
  obtain ⟨-, hstop⟩ := h r hr
  simp only [Interval.HasNext64]
  omega

namespace Reserved

/-- The intervals are the normal form of the set. -/
structure Describes (r : Reserved) (S : Int → Prop) : Prop where
  normal : Interval.Normal r.intervals
  covered_iff : ∀ n, Interval.Covered r.intervals n ↔ S n

theorem describes_ofMessage (m : Message) : (ofMessage m).Describes m.ReservesNumber := by
  obtain ⟨hnormal, hcovered⟩ := Interval.normal_and_covered_normalize
    (m.reservedRanges.map fun r => ⟨r.start, r.stop - 1⟩)
  refine ⟨hnormal, ?_⟩
  intro n
  exact (hcovered n).trans Message.covered_iff

theorem describes_ofEnum (e : EnumType) : (ofEnum e).Describes e.ReservesNumber := by
  obtain ⟨hnormal, hcovered⟩ := Interval.normal_and_covered_normalize
    (e.reservedRanges.map fun r => ⟨r.start, r.stop⟩)
  refine ⟨hnormal, ?_⟩
  intro n
  exact (hcovered n).trans EnumType.covered_iff

variable {r r' : Reserved} {S T : Int → Prop}

theorem Describes.coversInterval_iff (h : r.Describes S) {i : Interval} (hi : i.first ≤ i.last) :
    r.coversInterval i ↔ ∀ n, i.Holds n → S n := by
  rw [Reserved.coversInterval_iff]
  constructor
  · rintro ⟨j, hj, hfirst, hlast⟩ n hn
    exact (h.covered_iff n).1 ⟨j, hj, Int.le_trans hfirst hn.1, Int.le_trans hn.2 hlast⟩
  · intro hall
    apply h.normal.exists_of_covered hi
    intro n hn
    exact (h.covered_iff n).2 (hall n hn)

theorem Describes.mem_intervals_iff (h : r.Describes S) {i : Interval} :
    i ∈ r.intervals ↔ Interval.IsRun S i := by
  have hsame : Interval.Covered r.intervals = S := by
    apply funext
    intro n
    exact propext (h.covered_iff n)
  rw [h.normal.mem_iff_isRun, hsame]

theorem Describes.intervals_eq (h : r.Describes S) (h' : r'.Describes T) (hST : ∀ n, S n ↔ T n) :
    r.intervals = r'.intervals := by
  apply h.normal.eq_of_covered_iff h'.normal
  intro n
  rw [h.covered_iff, h'.covered_iff, hST]

end Reserved

def lostDiff (location owner : String) (i : Interval) : Diff :=
  ⟨.reservedRangeNotInclusive, location, s!"{owner} no longer reserves {i.text}"⟩

/-- Exactly the runs of `T` that are not wholly in `S`, in increasing order. -/
structure LostRuns (S T : Int → Prop) (runs : List Interval) : Prop where
  ascending : runs.Pairwise Interval.Before
  mem_iff : ∀ i, i ∈ runs ↔ Interval.IsRun T i ∧ ∃ n, i.Holds n ∧ ¬ S n

theorem exists_lostRuns {current previous : Reserved} {S T : Int → Prop}
    (hcurrent : current.Describes S) (hprevious : previous.Describes T) (location owner : String) :
    ∃ runs, LostRuns S T runs ∧
      (reservedDiffs location owner current previous).filter
          (·.kind = .reservedRangeNotInclusive) = runs.map (lostDiff location owner) := by
  refine ⟨previous.intervals.filter (!current.coversInterval ·), ⟨?_, ?_⟩, ?_⟩
  · exact hprevious.normal.gaps.filter _
  · intro i
    rw [List.mem_filter, hprevious.mem_intervals_iff]
    apply and_congr_right
    intro hi
    have hcovers := hcurrent.coversInterval_iff hi.nonempty
    simp only [Bool.not_eq_true', ← Bool.not_eq_true, hcovers, not_forall, exists_prop]
  · -- Names follow the numbers and are told with a kind of their own.
    rw [reservedDiffs, List.filter_append]
    refine (congrArg₂ (· ++ ·) ?_ ?_).trans (List.append_nil _)
    · apply List.filter_eq_self.2
      intro d hd
      obtain ⟨i, -, rfl⟩ := List.mem_map.1 hd
      rfl
    · apply List.filter_eq_nil_iff.2
      intro d hd
      obtain ⟨name, -, rfl⟩ := List.mem_map.1 hd
      exact Bool.false_ne_true

end SchemaEvolution.Protobuf
