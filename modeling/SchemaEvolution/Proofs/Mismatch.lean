import SchemaEvolution.Proofs.History

namespace SchemaEvolution

def Cause.IsMismatch : Cause → Prop
  | .formatMismatch _ _ => True
  | .incompatible _ => False

namespace Failure

mutual

theorem isIncompatible_iff : ∀ f : Failure, f.isIncompatible ↔ ∀ c ∈ f.causes, ¬ c.IsMismatch
  | .formatMismatch _ _ => by simp [isIncompatible, causes, Cause.IsMismatch]
  | .incompatible _ => by simp [isIncompatible, causes, Cause.IsMismatch]
  | .combined fs => allIncompatible_iff fs

theorem allIncompatible_iff :
    ∀ fs : List Failure, allIncompatible fs ↔ ∀ c ∈ causesOf fs, ¬ c.IsMismatch
  | [] => by simp [allIncompatible, causesOf]
  | f :: fs => by
    rw [allIncompatible, Bool.and_eq_true, isIncompatible_iff f, allIncompatible_iff fs, causesOf,
      List.forall_mem_append]

end

theorem isIncompatible_eq_false_iff (f : Failure) :
    f.isIncompatible = false ↔ ∃ c ∈ f.causes, c.IsMismatch := by
  rw [← Bool.not_eq_true, f.isIncompatible_iff]
  simp

end Failure

theorem Outcome.exists_mismatch_iff (o : Outcome) :
    (∃ f, o = .error f ∧ f.isIncompatible = false) ↔ ∃ c ∈ o.causes, c.IsMismatch := by
  cases o with
  | ok => simp [causes]
  | error f => simp [causes, f.isIncompatible_eq_false_iff]

def Breadth.versions {S : Type u} : Breadth → List S → List S
  | .latest, history => history.take 1
  | .transitive, history => history

theorem Breadth.mem_of_mem_versions {S : Type u} {b : Breadth} {history : List S} {v : S}
    (h : v ∈ b.versions history) : v ∈ history := by
  cases b with
  | latest => exact List.mem_of_mem_take h
  | transitive => exact h

namespace Mode

section History

variable {S : Type u} [Evolves S] (d : Direction) (b : Breadth) (candidate : S) (history : List S)

theorem check_eq_transitive : check (.checked d b) candidate history =
    check (.checked d .transitive) candidate (b.versions history) := by
  cases b with
  | latest => exact check_latest_eq d candidate history
  | transitive => rfl

theorem causes_check : (check (.checked d b) candidate history).causes =
    (b.versions history).flatMap fun v => (d.outcome candidate v).causes := by
  rw [check_eq_transitive, causes_check_transitive]

theorem check_eq_ok_iff : check (.checked d b) candidate history = .ok () ↔
    ∀ v ∈ b.versions history, d.outcome candidate v = .ok () := by
  rw [check_eq_transitive, check_transitive_eq_ok_iff]

end History

end Mode

def Direction.mismatches (candidate version : Format) : Direction → List Cause
  | .backward => [.formatMismatch candidate version]
  | .forward => [.formatMismatch version candidate]
  | .full => [.formatMismatch version candidate, .formatMismatch candidate version]

theorem Direction.mismatches_ne_nil (d : Direction) (candidate version : Format) :
    d.mismatches candidate version ≠ [] := by
  cases d <;> simp [mismatches]

theorem Direction.isMismatch_of_mem_mismatches {d : Direction} {candidate version : Format}
    {c : Cause} (h : c ∈ d.mismatches candidate version) : c.IsMismatch := by
  cases d with
  | backward => cases List.mem_singleton.1 h; trivial
  | forward => cases List.mem_singleton.1 h; trivial
  | full =>
    obtain rfl | h := List.mem_cons.1 h
    · trivial
    · cases List.mem_singleton.1 h; trivial

namespace Schema

theorem exists_compare_of_format_eq {current previous : Schema} (R : RuleSet)
    (h : previous.format = current.format) : ∃ r, compare R current previous = .ok r := by
  match current, previous with
  | .protobuf _, .protobuf _ => exact ⟨_, rfl⟩
  | .json _, .json _ => exact ⟨_, rfl⟩
  | .avro _, .avro _ => exact ⟨_, rfl⟩
  | .protobuf _, .json _ => cases h
  | .protobuf _, .avro _ => cases h
  | .json _, .protobuf _ => cases h
  | .json _, .avro _ => cases h
  | .avro _, .protobuf _ => cases h
  | .avro _, .json _ => cases h

theorem backward_eq_outcome {current previous : Schema} {r : Report}
    (h : compare .backward current previous = .ok r) :
    Evolves.backward current previous = r.outcome :=
  congrArg (· >>= Report.outcome) h

theorem not_isMismatch_of_format_eq {current previous : Schema}
    (h : previous.format = current.format) {c : Cause}
    (hc : c ∈ (Evolves.backward current previous).causes) : ¬ c.IsMismatch := by
  obtain ⟨r, hr⟩ := exists_compare_of_format_eq .backward h
  rw [backward_eq_outcome hr, Report.outcome] at hc
  split at hc
  · cases hc
  · cases List.mem_singleton.1 hc
    exact id

variable (d : Direction) {candidate version : Schema}

theorem causes_outcome_of_format_ne (h : version.format ≠ candidate.format) :
    (d.outcome candidate version).causes = d.mismatches candidate.format version.format := by
  cases d with
  | backward => exact causes_of_format_ne (Ne.symm h)
  | forward => exact causes_of_format_ne h
  | full =>
    rw [Direction.causes_full, Direction.outcome, Direction.outcome, causes_of_format_ne h,
      causes_of_format_ne (Ne.symm h)]
    rfl

theorem not_isMismatch_of_mem_outcome (h : version.format = candidate.format) {c : Cause}
    (hc : c ∈ (d.outcome candidate version).causes) : ¬ c.IsMismatch := by
  cases d with
  | backward => exact not_isMismatch_of_format_eq h hc
  | forward => exact not_isMismatch_of_format_eq h.symm hc
  | full =>
    rw [Direction.causes_full, List.mem_append] at hc
    obtain hc | hc := hc
    · exact not_isMismatch_of_format_eq h.symm hc
    · exact not_isMismatch_of_format_eq h hc

theorem exists_mismatch_iff : (∃ c ∈ (d.outcome candidate version).causes, c.IsMismatch) ↔
    version.format ≠ candidate.format := by
  constructor
  · rintro ⟨c, hc, hmismatch⟩ h
    exact not_isMismatch_of_mem_outcome d h hc hmismatch
  · intro h
    rw [causes_outcome_of_format_ne d h]
    obtain ⟨c, hc⟩ := List.exists_mem_of_ne_nil _ (d.mismatches_ne_nil _ _)
    exact ⟨c, hc, Direction.isMismatch_of_mem_mismatches hc⟩

end Schema

namespace Mode

variable (d : Direction) (b : Breadth) {candidate : Schema} {history : List Schema}

theorem exists_mismatch_iff :
    (∃ f, check (.checked d b) candidate history = .error f ∧ f.isIncompatible = false) ↔
      ∃ v ∈ b.versions history, v.format ≠ candidate.format := by
  simp only [Outcome.exists_mismatch_iff, causes_check, List.mem_flatMap,
    ← Schema.exists_mismatch_iff d]
  constructor
  · rintro ⟨c, ⟨v, hv, hc⟩, hmismatch⟩
    exact ⟨v, hv, c, hc, hmismatch⟩
  · rintro ⟨v, hv, c, hc, hmismatch⟩
    exact ⟨c, ⟨v, hv, hc⟩, hmismatch⟩

theorem mismatches_subset_causes {v : Schema} (hv : v ∈ b.versions history)
    (h : v.format ≠ candidate.format) :
    d.mismatches candidate.format v.format ⊆ (check (.checked d b) candidate history).causes := by
  intro c hc
  rw [causes_check, List.mem_flatMap]
  exact ⟨v, hv, Schema.causes_outcome_of_format_ne d h ▸ hc⟩

theorem isIncompatible_of_format_eq {m : Mode} (h : ∀ v ∈ history, v.format = candidate.format)
    {f : Failure} (hf : m.check candidate history = .error f) : f.isIncompatible := by
  cases m with
  | unchecked => cases hf
  | checked d b =>
    rw [← Bool.not_eq_false]
    intro hfalse
    obtain ⟨v, hv, hne⟩ := (exists_mismatch_iff d b).1 ⟨f, hf, hfalse⟩
    exact hne (h v (Breadth.mem_of_mem_versions hv))

end Mode

end SchemaEvolution
