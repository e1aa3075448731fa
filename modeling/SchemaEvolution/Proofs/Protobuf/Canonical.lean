import SchemaEvolution.Impact.Detect
import SchemaEvolution.Proofs.Protobuf.Codec
import SchemaEvolution.Proofs.Protobuf.Order
import SchemaEvolution.Protobuf.Build

namespace SchemaEvolution.Protobuf

theorem filesOf_addAll (rs : List Record) : filesOf (Record.addAll 1 (rs.map .record) []) = rs := by
  cases rs with
  | nil => rfl
  | cons r rs =>
    change (Value.record r :: rs.map Value.record).filterMap Value.asRecord? = r :: rs
    rw [← List.map_cons, List.filterMap_map]
    exact List.filterMap_some

theorem fits_of_mem_filesOf {depth : Nat} {set r : Record} (h : Fits (depth + 1) .fileSet set)
    (hr : r ∈ filesOf set) : Fits depth .file r := by
  obtain ⟨v, hv, hrecord⟩ := List.mem_filterMap.1 hr
  have hspec : MessageType.fileSet.field? 1 = some (.subs 1 .file) := rfl
  have hfits := FitsWith.of_mem_values h hspec hv
  cases v with
  | record fields =>
    cases hrecord
    exact hfits
  | number | bits64 | text | bytes => cases hrecord

theorem fits_addAll {depth : Nat} {rs : List Record} (h : ∀ r ∈ rs, Fits depth .file r) :
    Fits (depth + 1) .fileSet (Record.addAll 1 (rs.map .record) []) := by
  have hinitial : Fits (depth + 1) .fileSet [] := fitsWith_initial _ .fileSet
  have hspec : MessageType.fileSet.field? 1 = some (.subs 1 .file) := rfl
  apply FitsWith.addAll hinitial hspec (.inl rfl) _
  intro v hv
  obtain ⟨r, hr, rfl⟩ := List.mem_map.1 hv
  exact h r hr

namespace Registry

variable {bytes : List UInt8} {r : Registry}

theorem parse_of_perm {bytes' : List UInt8} {set set' : Record} (h : parse bytes = .ok r)
    (hset : MessageType.fileSet.decode? bytes = some set)
    (hset' : MessageType.fileSet.decode? bytes' = some set')
    (hperm : (filesOf set').Perm (filesOf set)) : parse bytes' = .ok r := by
  obtain ⟨set₀, hset₀, hr⟩ := parse_eq_ok_iff.1 h
  cases hset.symm.trans hset₀
  exact parse_eq_ok_iff.2 ⟨set', hset', ofRecords_perm hperm.symm hr⟩

theorem parse_canonical (h : parse bytes = .ok r) (hlen : r.canonical.length < 2 ^ 64) :
    parse r.canonical = .ok r := by
  obtain ⟨set, hset, hr⟩ := parse_eq_ok_iff.1 h
  have hfits : Fits maxDepth .fileSet set := fits_of_decode? hset
  obtain ⟨-, -, hrecords⟩ := ofRecords_eq_ok_iff.1 hr
  have hperm : r.records.Perm (filesOf set) := by
    rw [hrecords]
    exact sortFiles_perm _
  have hcanonical : MessageType.fileSet.decode? r.canonical =
      some (Record.addAll 1 (r.records.map .record) []) :=
    decode?_encode (fits_addAll fun f hf => fits_of_mem_filesOf hfits (hperm.mem_iff.1 hf)) hlen
  exact parse_of_perm h hset hcanonical (by rwa [filesOf_addAll])

end Registry

/-- Canonical bytes are read as the registry that they were written for. Other orders of the same files
are read as that registry too, and a registry with the same canonical bytes takes its place in every
comparison. Lengths are written with 64 bits, which the length of anything in memory fits. -/
theorem parse_canonical_and_compare_congr {bytes : List UInt8} {r : Registry}
    (h : Registry.parse bytes = .ok r) :
    (r.canonical.length < 2 ^ 64 → Registry.parse r.canonical = .ok r) ∧
      (∀ bytes' set set', MessageType.fileSet.decode? bytes = some set →
        MessageType.fileSet.decode? bytes' = some set' → (filesOf set').Perm (filesOf set) →
          Registry.parse bytes' = .ok r) ∧
      ∀ bytes' r', Registry.parse bytes' = .ok r' → r'.canonical = r.canonical →
        r.canonical.length < 2 ^ 64 →
          (∀ R s, compare R r' s = compare R r s ∧ compare R s r' = compare R s r) ∧
            ∀ s, Impact.detectChanges r' s = Impact.detectChanges r s ∧
              Impact.detectChanges s r' = Impact.detectChanges s r := by
  refine ⟨Registry.parse_canonical h, ?_, ?_⟩
  · intro bytes' set set'
    exact Registry.parse_of_perm h
  · intro bytes' r' h' hcanonical hlen
    have hparse' := Registry.parse_canonical h' (hcanonical ▸ hlen)
    rw [hcanonical, Registry.parse_canonical h hlen] at hparse'
    cases hparse'
    constructor
    · intro R s
      exact ⟨rfl, rfl⟩
    · intro s
      exact ⟨rfl, rfl⟩

def twoFiles : List Record :=
  let file (name package message : String) : Record :=
    Build.file name package Build.usualEdition [] [Build.message message [] [] [] [] []] []
  [file "a.proto" "a" "A", file "b.proto" "b" "B"]

theorem parse_canonical_and_compare_congr_twoFiles : ∃ r r',
    Registry.parse (Build.descriptorSet twoFiles) = .ok r ∧
      Registry.parse (Build.descriptorSet twoFiles.reverse) = .ok r' ∧
      r'.canonical = r.canonical ∧ r.canonical.length < 2 ^ 64 ∧
      Registry.parse r.canonical = .ok r ∧
      ∀ R s, compare R r' s = compare R r s ∧ compare R s r' = compare R s r := by
  have hdecode : ∀ files : List Record, (MessageType.fileSet.decode? (Build.descriptorSet files)).any
      (Record.equal · [(1, files.map .record)]) →
        MessageType.fileSet.decode? (Build.descriptorSet files) = some [(1, files.map .record)] := by
    intro files hany
    obtain ⟨set, hset, hequal⟩ := (Option.any_eq_true _ _).1 hany
    rw [hset, Record.eq_of_equal hequal]
  have hset := hdecode twoFiles (by decide +kernel)
  have hset' := hdecode twoFiles.reverse (by decide +kernel)
  obtain ⟨r, hr, -⟩ := exists_ok_of_map_toOption (x := Registry.parse (Build.descriptorSet twoFiles))
    (g := fun _ => ()) (b := ()) (by decide +kernel)
  obtain ⟨hcanonical, hperm, hinterchange⟩ := parse_canonical_and_compare_congr hr
  have hr' : Registry.parse (Build.descriptorSet twoFiles.reverse) = .ok r :=
    hperm _ _ _ hset hset' (List.reverse_perm twoFiles)
  have hlen : r.canonical.length < 2 ^ 64 := by
    obtain ⟨set, hset₀, hr⟩ := Registry.parse_eq_ok_iff.1 hr
    cases hset.symm.trans hset₀
    obtain ⟨-, -, rfl⟩ := Registry.ofRecords_eq_ok_iff.1 hr
    have hsorted : Registry.sortFiles twoFiles = twoFiles :=
      List.mergeSort_of_pairwise (by decide +kernel)
    change (MessageType.fileSet.encode (Record.addAll 1
      ((Registry.sortFiles twoFiles).map .record) [])).length < 2 ^ 64
    rw [hsorted]
    decide +kernel
  exact ⟨r, r, hr, hr', rfl, hlen, hcanonical hlen, (hinterchange _ r hr' rfl hlen).1⟩

end SchemaEvolution.Protobuf
