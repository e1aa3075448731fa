import SchemaEvolution.Format
import SchemaEvolution.Report

namespace SchemaEvolution

inductive Failure
  | formatMismatch (expected found : Format)
  | incompatible (report : Report)
  | combined (failures : List Failure)
  deriving Repr

abbrev Outcome := Except Failure Unit

namespace Failure

mutual

def isIncompatible : Failure → Bool
  | .formatMismatch _ _ => false
  | .incompatible _ => true
  | .combined fs => allIncompatible fs

def allIncompatible : List Failure → Bool
  | [] => true
  | f :: fs => f.isIncompatible && allIncompatible fs

end

mutual

def diffs : Failure → List Diff
  | .formatMismatch _ _ => []
  | .incompatible r => r.diffs
  | .combined fs => diffsOf fs

def diffsOf : List Failure → List Diff
  | [] => []
  | f :: fs => f.diffs ++ diffsOf fs

end

mutual

def message : Failure → String
  | .formatMismatch e f => "schema format mismatch: expected " ++ e.tag ++ ", found " ++ f.tag
  | .incompatible r => r.text
  | .combined fs => "; ".intercalate (messages fs)

def messages : List Failure → List String
  | [] => []
  | f :: fs => f.message :: messages fs

end

def ofList? : List Failure → Option Failure
  | [] => none
  | [f] => some f
  | fs => some (.combined fs)

end Failure

def Outcome.failure? : Outcome → Option Failure
  | .ok () => none
  | .error f => some f

def Outcome.ofFailure? : Option Failure → Outcome
  | none => .ok ()
  | some f => .error f

def combine (outcomes : List Outcome) : Outcome :=
  .ofFailure? (Failure.ofList? (outcomes.filterMap Outcome.failure?))

def Report.outcome (r : Report) : Outcome :=
  if r.isEmpty then .ok () else .error (.incompatible r)

@[simp] theorem Report.outcome_eq_ok_iff {r : Report} : r.outcome = .ok () ↔ r.diffs = [] := by
  unfold outcome isEmpty; split <;> simp_all

end SchemaEvolution
