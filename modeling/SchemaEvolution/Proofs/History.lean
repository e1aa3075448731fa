import SchemaEvolution.Proofs.Policy
import SchemaEvolution.Schema

namespace SchemaEvolution

inductive Cause
  | formatMismatch (expected found : Format)
  | incompatible (report : Report)
  deriving DecidableEq, Repr

def Cause.diffs : Cause → List Diff
  | .formatMismatch _ _ => []
  | .incompatible r => r.diffs

namespace Failure

mutual

/-- What a failure is made of, in the order in which it is reported. -/
def causes : Failure → List Cause
  | .formatMismatch e f => [.formatMismatch e f]
  | .incompatible r => [.incompatible r]
  | .combined fs => causesOf fs

def causesOf : List Failure → List Cause
  | [] => []
  | f :: fs => f.causes ++ causesOf fs

end

@[simp] theorem causesOf_eq (fs : List Failure) : causesOf fs = fs.flatMap causes := by
  induction fs with
  | nil => rfl
  | cons f fs ih => rw [causesOf, ih, List.flatMap_cons]

mutual

theorem diffs_eq : ∀ f : Failure, f.diffs = f.causes.flatMap Cause.diffs
  | .formatMismatch _ _ => rfl
  | .incompatible r => by simp [diffs, causes, Cause.diffs]
  | .combined fs => diffsOf_eq fs

theorem diffsOf_eq : ∀ fs : List Failure, diffsOf fs = (causesOf fs).flatMap Cause.diffs
  | [] => rfl
  | f :: fs => by rw [diffsOf, causesOf, List.flatMap_append, diffs_eq f, diffsOf_eq fs]

end

end Failure

namespace Outcome

def causes : Outcome → List Cause
  | .ok () => []
  | .error f => f.causes

def diffs : Outcome → List Diff
  | .ok () => []
  | .error f => f.diffs

theorem diffs_eq (o : Outcome) : o.diffs = o.causes.flatMap Cause.diffs := by
  cases o with
  | ok => rfl
  | error f => exact f.diffs_eq

@[simp] theorem causes_ofFailure? (f : Option Failure) :
    (ofFailure? f).causes = f.toList.flatMap Failure.causes := by
  cases f with
  | none => rfl
  | some f => simp [ofFailure?, causes]

theorem causes_eq (o : Outcome) : o.causes = o.failure?.toList.flatMap Failure.causes := by
  cases o with
  | ok => rfl
  | error f => simp [failure?, causes]

end Outcome

theorem Failure.causes_ofList? (fs : List Failure) :
    (ofList? fs).toList.flatMap causes = fs.flatMap causes := by
  match fs with
  | [] => rfl
  | [f] => rfl
  | f :: g :: fs => simp [ofList?, causes, causesOf, causesOf_eq]

theorem causes_combine (outcomes : List Outcome) :
    (combine outcomes).causes = outcomes.flatMap Outcome.causes := by
  rw [combine, Outcome.causes_ofFailure?, Failure.causes_ofList?]
  induction outcomes with
  | nil => rfl
  | cons o outcomes ih =>
    rw [List.flatMap_cons, ← ih, o.causes_eq]
    cases ho : o.failure? with
    | none => simp [ho]
    | some f => simp [ho]

@[simp] theorem combine_singleton (o : Outcome) : combine [o] = o := by
  cases o with
  | ok => rfl
  | error f => rfl

variable {S : Type u} [Evolves S] (d : Direction) (candidate : S)

theorem Direction.causes_full (previous : S) :
    (Direction.full.outcome candidate previous).causes =
      (Direction.forward.outcome candidate previous).causes ++
        (Direction.backward.outcome candidate previous).causes := by
  simp [outcome, causes_combine]

namespace Mode

theorem causes_check_transitive (history : List S) :
    (check (.checked d .transitive) candidate history).causes =
      history.flatMap fun v => (d.outcome candidate v).causes := by
  simp only [check, causes_combine, List.flatMap_map]

theorem causes_check_transitive_append (h h' : List S) :
    (check (.checked d .transitive) candidate (h ++ h')).causes =
      (check (.checked d .transitive) candidate h).causes ++
        (check (.checked d .transitive) candidate h').causes := by
  simp only [causes_check_transitive, List.flatMap_append]

theorem diffs_check_transitive_append (h h' : List S) :
    (check (.checked d .transitive) candidate (h ++ h')).diffs =
      (check (.checked d .transitive) candidate h).diffs ++
        (check (.checked d .transitive) candidate h').diffs := by
  simp only [Outcome.diffs_eq, causes_check_transitive_append, List.flatMap_append]

theorem check_transitive_append_eq_ok_iff (h h' : List S) :
    check (.checked d .transitive) candidate (h ++ h') = .ok () ↔
      check (.checked d .transitive) candidate h = .ok () ∧
        check (.checked d .transitive) candidate h' = .ok () := by
  simp [or_imp, forall_and]

theorem check_latest_eq (history : List S) :
    check (.checked d .latest) candidate history =
      check (.checked d .transitive) candidate (history.take 1) := by
  cases history with
  | nil => rfl
  | cons latest older => exact (combine_singleton _).symm

theorem check_transitive_eq_ok_iff_latest (history : List S) :
    check (.checked d .transitive) candidate history = .ok () ↔
      check (.checked d .latest) candidate history = .ok () ∧
        check (.checked d .transitive) candidate history.tail = .ok () := by
  rw [check_latest_eq, ← List.drop_one, ← check_transitive_append_eq_ok_iff, List.take_append_drop]

/-- A check of a whole history is the sum of the checks of its parts: it passes iff each version
does, it reports version by version, and the most recent version is a history of its own. -/
theorem check_history (h h' : List S) :
    (check (.checked d .transitive) candidate h = .ok () ↔
      ∀ v ∈ h, d.outcome candidate v = .ok ()) ∧
    (check (.checked d .transitive) candidate h).causes =
      h.flatMap (fun v => (d.outcome candidate v).causes) ∧
    (check (.checked d .transitive) candidate (h ++ h')).causes =
      (check (.checked d .transitive) candidate h).causes ++
        (check (.checked d .transitive) candidate h').causes ∧
    (check (.checked d .transitive) candidate (h ++ h')).diffs =
      (check (.checked d .transitive) candidate h).diffs ++
        (check (.checked d .transitive) candidate h').diffs ∧
    (check (.checked d .transitive) candidate (h ++ h') = .ok () ↔
      check (.checked d .transitive) candidate h = .ok () ∧
        check (.checked d .transitive) candidate h' = .ok ()) ∧
    check (.checked d .latest) candidate h =
      check (.checked d .transitive) candidate (h.take 1) ∧
    check (.checked d .latest) candidate ([] : List S) = .ok () ∧
    (check (.checked d .transitive) candidate h = .ok () ↔
      check (.checked d .latest) candidate h = .ok () ∧
        check (.checked d .transitive) candidate h.tail = .ok ()) :=
  ⟨check_transitive_eq_ok_iff, causes_check_transitive d candidate h,
    causes_check_transitive_append d candidate h h',
    diffs_check_transitive_append d candidate h h',
    check_transitive_append_eq_ok_iff d candidate h h', check_latest_eq d candidate h, rfl,
    check_transitive_eq_ok_iff_latest d candidate h⟩

end Mode

namespace Schema

theorem causes_of_format_ne {current previous : Schema} (h : current.format ≠ previous.format) :
    (Evolves.backward current previous).causes =
      [.formatMismatch current.format previous.format] := by
  match current, previous with
  | .protobuf _, .json _ => rfl
  | .protobuf _, .avro _ => rfl
  | .json _, .protobuf _ => rfl
  | .json _, .avro _ => rfl
  | .avro _, .protobuf _ => rfl
  | .avro _, .json _ => rfl
  | .protobuf _, .protobuf _ => exact (h rfl).elim
  | .json _, .json _ => exact (h rfl).elim
  | .avro _, .avro _ => exact (h rfl).elim

example (e : JsonSchema.Explored) (r : Protobuf.Registry) :
    (Mode.check (.checked .full .transitive) (avro (.plain .int)) [json e, protobuf r]).causes =
      [.formatMismatch .json .avro, .formatMismatch .avro .json,
        .formatMismatch .protobuf .avro, .formatMismatch .avro .protobuf] :=
  rfl

end Schema

end SchemaEvolution
