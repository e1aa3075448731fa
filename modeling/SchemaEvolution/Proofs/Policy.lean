import Mathlib.Data.List.Chain
import SchemaEvolution.Policy

namespace SchemaEvolution

@[simp] theorem Outcome.failure?_eq_none_iff {o : Outcome} : o.failure? = none ↔ o = .ok () := by
  cases o with
  | ok u => simp [failure?]
  | error f => simp [failure?]

@[simp] theorem Failure.ofList?_eq_none_iff {fs : List Failure} : ofList? fs = none ↔ fs = [] := by
  match fs with
  | [] => simp [ofList?]
  | [f] => simp [ofList?]
  | f :: g :: fs => simp [ofList?]

@[simp] theorem combine_eq_ok_iff {outcomes : List Outcome} :
    combine outcomes = .ok () ↔ ∀ o ∈ outcomes, o = .ok () := by
  have h : combine outcomes = .ok () ↔
      Failure.ofList? (outcomes.filterMap Outcome.failure?) = none := by
    unfold combine
    cases Failure.ofList? (outcomes.filterMap Outcome.failure?) with
    | none => simp [Outcome.ofFailure?]
    | some f => simp [Outcome.ofFailure?]
  rw [h, Failure.ofList?_eq_none_iff, List.filterMap_eq_nil_iff]
  simp only [Outcome.failure?_eq_none_iff]

variable {S : Type u} [Evolves S]

@[simp] theorem Direction.outcome_full_eq_ok_iff {current previous : S} :
    Direction.full.outcome current previous = .ok () ↔
      Direction.forward.outcome current previous = .ok () ∧
        Direction.backward.outcome current previous = .ok () := by
  simp [Direction.outcome]

namespace Mode

@[simp] theorem check_transitive_eq_ok_iff {d : Direction} {candidate : S} {history : List S} :
    check (.checked d .transitive) candidate history = .ok () ↔
      ∀ h ∈ history, d.outcome candidate h = .ok () := by
  simp [check]

def Composes {T : Type v} (version : T → S) : Prop :=
  ∀ {a b c : T}, Evolves.backward (version b) (version a) = .ok () →
    Evolves.backward (version c) (version b) = .ok () →
      Evolves.backward (version c) (version a) = .ok ()

theorem Composes.outcome {T : Type v} {version : T → S} (h : Composes version) (d : Direction)
    {a b c : T} (hcb : d.outcome (version c) (version b) = .ok ())
    (hba : d.outcome (version b) (version a) = .ok ()) :
    d.outcome (version c) (version a) = .ok () := by
  cases d with
  | backward => exact h hba hcb
  | forward => exact h hcb hba
  | full =>
    rw [Direction.outcome_full_eq_ok_iff] at hcb hba ⊢
    exact ⟨h hcb.1 hba.1, h hba.2 hcb.2⟩

theorem Composes.check_transitive {T : Type v} {version : T → S} (h : Composes version)
    (d : Direction) {candidate : T} {history : List T}
    (steps : (candidate :: history).IsChain fun newer older =>
      check (.checked d .latest) (version newer) [version older] = .ok ()) :
    check (.checked d .transitive) (version candidate) (history.map version) = .ok () := by
  let accepts (newer older : T) : Prop := d.outcome (version newer) (version older) = .ok ()
  have : Trans accepts accepts accepts := ⟨fun hcb hba => h.outcome d hcb hba⟩
  have chain : (candidate :: history).IsChain accepts := steps
  rw [check_transitive_eq_ok_iff]
  intro s hs
  obtain ⟨older, holder, rfl⟩ := List.mem_map.1 hs
  exact chain.rel_cons holder

end Mode

end SchemaEvolution
