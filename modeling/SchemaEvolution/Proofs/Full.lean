import Mathlib.Data.List.Perm.Basic
import SchemaEvolution.Proofs.History

namespace SchemaEvolution

variable {S : Type u} [Evolves S]

theorem Outcome.diffs_perm {o p : Outcome} (h : o.causes.Perm p.causes) : o.diffs.Perm p.diffs := by
  rw [o.diffs_eq, p.diffs_eq]
  exact h.flatMap_right Cause.diffs

namespace Direction

variable (a b : S)

theorem causes_full_perm :
    (full.outcome a b).causes.Perm (full.outcome b a).causes := by
  rw [causes_full, causes_full]
  exact List.perm_append_comm

theorem diffs_full_perm : (full.outcome a b).diffs.Perm (full.outcome b a).diffs :=
  Outcome.diffs_perm (causes_full_perm a b)

theorem outcome_full_comm : full.outcome a b = .ok () ↔ full.outcome b a = .ok () := by
  rw [outcome_full_eq_ok_iff, outcome_full_eq_ok_iff]
  exact and_comm

end Direction

namespace Mode

variable (candidate : S) (history : List S)

theorem causes_check_full_transitive_perm :
    (check (.checked .full .transitive) candidate history).causes.Perm
      ((check (.checked .forward .transitive) candidate history).causes ++
        (check (.checked .backward .transitive) candidate history).causes) := by
  simp only [causes_check_transitive, Direction.causes_full]
  exact (List.flatMap_append_perm history _ _).symm

theorem diffs_check_full_transitive_perm :
    (check (.checked .full .transitive) candidate history).diffs.Perm
      ((check (.checked .forward .transitive) candidate history).diffs ++
        (check (.checked .backward .transitive) candidate history).diffs) := by
  simp only [Outcome.diffs_eq, ← List.flatMap_append]
  exact (causes_check_full_transitive_perm candidate history).flatMap_right Cause.diffs

theorem check_full_transitive_eq_ok_iff :
    check (.checked .full .transitive) candidate history = .ok () ↔
      check (.checked .forward .transitive) candidate history = .ok () ∧
        check (.checked .backward .transitive) candidate history = .ok () := by
  simp only [check_transitive_eq_ok_iff, Direction.outcome_full_eq_ok_iff, ← forall₂_and]

/-- A full check of a history passes iff the checks both ways do, and reports what they report,
each diff as often. Which of two schemas is the candidate does not matter to it. -/
theorem full_is_both_ways :
    (check (.checked .full .transitive) candidate history = .ok () ↔
      check (.checked .forward .transitive) candidate history = .ok () ∧
        check (.checked .backward .transitive) candidate history = .ok ()) ∧
    (check (.checked .full .transitive) candidate history).diffs.Perm
      ((check (.checked .forward .transitive) candidate history).diffs ++
        (check (.checked .backward .transitive) candidate history).diffs) ∧
    ∀ a b : S, (Direction.full.outcome a b = .ok () ↔ Direction.full.outcome b a = .ok ()) ∧
      (Direction.full.outcome a b).diffs.Perm (Direction.full.outcome b a).diffs := by
  refine ⟨?_, ?_, ?_⟩
  · exact check_full_transitive_eq_ok_iff candidate history
  · exact diffs_check_full_transitive_perm candidate history
  · intro a b
    exact ⟨Direction.outcome_full_comm a b, Direction.diffs_full_perm a b⟩

end Mode

end SchemaEvolution
