import SchemaEvolution.Proofs.Mismatch

/-!
How failures are put together. Grouping the outcomes first changes the shape of the failure and
nothing that is read off it, and no check gives a failure with nothing in it, so the text of an
incompatibility is that of its changes.
-/

namespace SchemaEvolution

theorem intercalate_flatten (separator : String) {groups : List (List String)}
    (h : ∀ g ∈ groups, g ≠ []) :
    separator.intercalate (groups.map separator.intercalate) =
      separator.intercalate groups.flatten := by
  induction groups with
  | nil => rfl
  | cons g groups ih =>
    obtain ⟨hg, hgroups⟩ := List.forall_mem_cons.1 h
    cases groups with
    | nil => simp
    | cons g' groups =>
      have hne : (g' :: groups).flatten ≠ [] := by simp [hgroups g' (.head _)]
      rw [List.map_cons, String.intercalate_cons_of_ne_nil (by simp), ih hgroups,
        List.flatten_cons (l := g), String.intercalate_append_of_ne_nil hg hne]

namespace Failure

@[simp] theorem messages_eq (fs : List Failure) : messages fs = fs.map message := by
  induction fs with
  | nil => rfl
  | cons f fs ih => rw [messages, ih, List.map_cons]

@[simp] theorem message_combined (fs : List Failure) :
    (combined fs).message = "; ".intercalate (fs.map message) :=
  congrArg "; ".intercalate (messages_eq fs)

@[simp] theorem diffs_combined (fs : List Failure) : (combined fs).diffs = fs.flatMap diffs := by
  rw [diffs]
  induction fs with
  | nil => rfl
  | cons f fs ih => rw [diffsOf, ih, List.flatMap_cons]

@[simp] theorem isIncompatible_combined (fs : List Failure) :
    (combined fs).isIncompatible = fs.all isIncompatible := by
  rw [isIncompatible]
  induction fs with
  | nil => rfl
  | cons f fs ih => rw [allIncompatible, ih, List.all_cons]

structure Agrees (f g : Failure) : Prop where
  diffs : f.diffs = g.diffs
  message : f.message = g.message
  isIncompatible : f.isIncompatible = g.isIncompatible

theorem Agrees.refl (f : Failure) : f.Agrees f := ⟨rfl, rfl, rfl⟩

theorem Agrees.trans {f g h : Failure} (hfg : f.Agrees g) (hgh : g.Agrees h) : f.Agrees h :=
  ⟨hfg.diffs.trans hgh.diffs, hfg.message.trans hgh.message,
    hfg.isIncompatible.trans hgh.isIncompatible⟩

theorem Agrees.symm {f g : Failure} (h : f.Agrees g) : g.Agrees f :=
  ⟨h.diffs.symm, h.message.symm, h.isIncompatible.symm⟩

theorem agrees_of_ofList? {fs : List Failure} {f : Failure} (h : ofList? fs = some f) :
    f.Agrees (.combined fs) := by
  match fs with
  | [] => cases h
  | [g] =>
    cases h
    exact ⟨by simp [diffs_combined], by simp [message_combined], by simp [isIncompatible_combined]⟩
  | g :: g' :: fs => cases h; exact .refl _

theorem Agrees.combined_cons {f : Failure} {fs gs hs : List Failure} (hf : f.Agrees (.combined fs))
    (hfs : fs ≠ []) (hg : (combined gs).Agrees (.combined hs)) (hempty : gs = [] ↔ hs = []) :
    (combined (f :: gs)).Agrees (.combined (fs ++ hs)) where
  diffs := by
    have hdiffs := hg.diffs
    simp only [diffs_combined] at hdiffs ⊢
    simp [hdiffs, hf.diffs]
  message := by
    have hmessage := hg.message
    simp only [message_combined] at hmessage ⊢
    rw [List.map_cons, List.map_append]
    by_cases hgs : gs = []
    · simp [hgs, hempty.1 hgs, hf.message]
    · rw [String.intercalate_cons_of_ne_nil (by simpa using hgs), hmessage, hf.message,
        message_combined, String.intercalate_append_of_ne_nil (by simpa using hfs)
          (by simpa using mt hempty.2 hgs)]
  isIncompatible := by
    have hall := hg.isIncompatible
    simp only [isIncompatible_combined] at hall ⊢
    simp [hall, hf.isIncompatible]

end Failure

namespace Outcome

def failures (outcomes : List Outcome) : List Failure := outcomes.filterMap failure?

@[simp] theorem failures_append (os os' : List Outcome) :
    failures (os ++ os') = failures os ++ failures os' :=
  List.filterMap_append

@[simp] theorem failure?_ofFailure? (f : Option Failure) : (ofFailure? f).failure? = f := by
  cases f <;> rfl

@[simp] theorem failures_eq_nil_iff {outcomes : List Outcome} :
    failures outcomes = [] ↔ ∀ o ∈ outcomes, o = .ok () := by
  simp [failures]

end Outcome

open Outcome (failures failures_append failures_eq_nil_iff)

@[simp] theorem failure?_combine (outcomes : List Outcome) :
    (combine outcomes).failure? = Failure.ofList? (failures outcomes) :=
  Outcome.failure?_ofFailure? _

theorem ofList?_of_combine {outcomes : List Outcome} {f : Failure}
    (h : combine outcomes = .error f) : Failure.ofList? (failures outcomes) = some f := by
  rw [← failure?_combine, h]
  rfl

theorem combine_groups_eq_ok_iff (groups : List (List Outcome)) :
    combine (groups.map combine) = .ok () ↔ combine groups.flatten = .ok () := by
  simp only [combine_eq_ok_iff, List.forall_mem_map, List.mem_flatten]
  constructor
  · rintro h o ⟨os, hos, ho⟩
    exact h os hos o ho
  · intro h os hos o ho
    exact h o ⟨os, hos, ho⟩

theorem failures_groups_eq_nil_iff (groups : List (List Outcome)) :
    failures (groups.map combine) = [] ↔ failures groups.flatten = [] := by
  rw [failures_eq_nil_iff, failures_eq_nil_iff, ← combine_eq_ok_iff, ← combine_eq_ok_iff,
    combine_groups_eq_ok_iff]

theorem agrees_failures_groups (groups : List (List Outcome)) :
    (Failure.combined (failures (groups.map combine))).Agrees
      (.combined (failures groups.flatten)) := by
  induction groups with
  | nil => exact .refl _
  | cons os groups ih =>
    rw [List.map_cons, List.flatten_cons, failures_append, failures, List.filterMap_cons,
      failure?_combine, ← failures]
    cases hos : Failure.ofList? (failures os) with
    | none => rw [Failure.ofList?_eq_none_iff.1 hos]; exact ih
    | some f =>
      have hne : failures os ≠ [] := by
        intro h
        rw [h] at hos
        cases hos
      exact (Failure.agrees_of_ofList? hos).combined_cons hne ih (failures_groups_eq_nil_iff groups)

theorem agrees_of_combine_groups {groups : List (List Outcome)} {f g : Failure}
    (hf : combine (groups.map combine) = .error f) (hg : combine groups.flatten = .error g) :
    f.Agrees g :=
  (Failure.agrees_of_ofList? (ofList?_of_combine hf)).trans
    ((agrees_failures_groups groups).trans
      (Failure.agrees_of_ofList? (ofList?_of_combine hg)).symm)

namespace Failure

/-- At every depth, several failures are at least two and a report has a change in it. -/
inductive Solid : Failure → Prop
  | formatMismatch (expected found : Format) : Solid (.formatMismatch expected found)
  | incompatible {r : Report} (h : r.diffs ≠ []) : Solid (.incompatible r)
  | combined {fs : List Failure} (several : 2 ≤ fs.length) (h : ∀ f ∈ fs, Solid f) :
      Solid (.combined fs)

theorem Solid.diffs_ne_nil {f : Failure} (h : f.Solid) (hf : f.isIncompatible) : f.diffs ≠ [] := by
  induction h with
  | formatMismatch => cases hf
  | incompatible h => exact h
  | @combined fs hlen h ih =>
    obtain ⟨f, hmem⟩ := List.exists_mem_of_length_pos (Nat.lt_of_lt_of_le Nat.zero_lt_two hlen)
    rw [isIncompatible_combined, List.all_eq_true] at hf
    rw [diffs_combined]
    intro hnil
    exact ih f hmem (hf f hmem) (List.flatMap_eq_nil_iff.1 hnil f hmem)

theorem Solid.message_eq {f : Failure} (h : f.Solid) (hf : f.isIncompatible) :
    f.message = "; ".intercalate (f.diffs.map Diff.text) := by
  induction h with
  | formatMismatch => cases hf
  | incompatible => rfl
  | @combined fs hlen h ih =>
    rw [isIncompatible_combined, List.all_eq_true] at hf
    have hmessages : fs.map message =
        (fs.map fun f => f.diffs.map Diff.text).map "; ".intercalate := by
      rw [List.map_map]
      apply List.map_congr_left
      intro f hmem
      exact ih f hmem (hf f hmem)
    have hne : ∀ g ∈ fs.map fun f => f.diffs.map Diff.text, g ≠ [] := by
      simp only [List.forall_mem_map]
      intro f hmem hnil
      exact (h f hmem).diffs_ne_nil (hf f hmem) (List.map_eq_nil_iff.1 hnil)
    rw [message_combined, hmessages, intercalate_flatten _ hne, diffs_combined, List.map_flatMap,
      List.flatMap_def]

theorem solid_of_ofList? {fs : List Failure} {f : Failure} (h : ofList? fs = some f)
    (hfs : ∀ g ∈ fs, g.Solid) : f.Solid := by
  match fs with
  | [] => cases h
  | [g] => cases h; exact hfs _ (.head _)
  | g :: g' :: fs => cases h; exact .combined (by simp) hfs

end Failure

def Outcome.Solid (o : Outcome) : Prop := ∀ f, o = .error f → f.Solid

theorem Report.solid_outcome (r : Report) : r.outcome.Solid := by
  intro f hf
  have hne : r.diffs ≠ [] := by
    intro h
    simp [outcome_eq_ok_iff.2 h] at hf
  rw [outcome] at hf
  split at hf
  · cases hf
  · cases hf; exact .incompatible hne

theorem solid_combine {outcomes : List Outcome} (h : ∀ o ∈ outcomes, o.Solid) :
    (combine outcomes).Solid := by
  intro f hf
  refine Failure.solid_of_ofList? (ofList?_of_combine hf) fun g hg => ?_
  obtain ⟨o, ho, hog⟩ := List.mem_filterMap.1 hg
  cases o with
  | ok => cases hog
  | error e => cases hog; exact h _ ho _ rfl

section Checks

variable {S : Type u} [Evolves S] (h : ∀ a b : S, (Evolves.backward a b).Solid)
include h

theorem Direction.solid_outcome (d : Direction) (a b : S) : (d.outcome a b).Solid := by
  cases d with
  | backward => exact h a b
  | forward => exact h b a
  | full =>
    apply solid_combine
    intro o ho
    obtain rfl | ho := List.mem_cons.1 ho
    · exact h b a
    · cases List.mem_singleton.1 ho; exact h a b

theorem Mode.solid_check (m : Mode) (candidate : S) (history : List S) :
    (m.check candidate history).Solid := by
  match m, history with
  | .unchecked, _ => exact nofun
  | .checked _ .latest, [] => exact nofun
  | .checked d .latest, latest :: _ => exact d.solid_outcome h candidate latest
  | .checked d .transitive, history =>
    exact solid_combine (List.forall_mem_map.2 fun v _ => d.solid_outcome h candidate v)

end Checks

namespace Schema

theorem eq_formatMismatch_of_compare {R : RuleSet} {current previous : Schema} {f : Failure}
    (h : compare R current previous = .error f) :
    f = .formatMismatch current.format previous.format := by
  unfold compare at h
  split at h
  · cases h
  · cases h
  · cases h
  · cases h; rfl

theorem solid_backward (current previous : Schema) :
    (Evolves.backward current previous).Solid := by
  cases hr : compare .backward current previous with
  | ok r => rw [backward_eq_outcome hr]; exact r.solid_outcome
  | error e =>
    intro f hf
    rw [show Evolves.backward current previous = .error e from congrArg (· >>= Report.outcome) hr,
      eq_formatMismatch_of_compare hr] at hf
    cases hf
    exact .formatMismatch _ _

end Schema

/-- Outcomes may be put together group by group: the check passes for the same outcomes, and a
failure reads as if they had not been grouped. In a failure of a check there is no part with nothing
in it, so an incompatibility is told by the texts of its changes, one after the other. -/
theorem combine_groups_and_check :
    (∀ groups : List (List Outcome),
      (combine (groups.map combine) = .ok () ↔ combine groups.flatten = .ok ()) ∧
      ∀ f, combine (groups.map combine) = .error f →
        ∃ g, combine groups.flatten = .error g ∧ f.diffs = g.diffs ∧ f.message = g.message ∧
          f.isIncompatible = g.isIncompatible) ∧
    ∀ (m : Mode) (candidate : Schema) (history : List Schema) (f : Failure),
      m.check candidate history = .error f →
      f.Solid ∧ (f.isIncompatible → f.message =
        "; ".intercalate (f.diffs.map fun d => d.location ++ ": " ++ d.message)) := by
  constructor
  · intro groups
    refine ⟨combine_groups_eq_ok_iff groups, ?_⟩
    intro f hf
    cases hg : combine groups.flatten with
    | ok => simp [(combine_groups_eq_ok_iff groups).2 hg] at hf
    | error g =>
      have hfg := agrees_of_combine_groups hf hg
      exact ⟨g, rfl, hfg.diffs, hfg.message, hfg.isIncompatible⟩
  · intro m candidate history f hf
    have hsolid := m.solid_check Schema.solid_backward candidate history f hf
    exact ⟨hsolid, hsolid.message_eq⟩

theorem combine_groups_and_check_plain :
    ∃ f g h, Mode.check (.checked .full .transitive) (Schema.avro (.plain .int))
        [.avro (.plain .string), .avro (.plain .boolean)] = .error f ∧
      f.Solid ∧ f.isIncompatible ∧
      f.message = "; ".intercalate (f.diffs.map fun d => d.location ++ ": " ++ d.message) ∧
      combine ([[.error f, .ok ()], [], [.error f, .error f]].map combine) = .error g ∧
      combine [.error f, .ok (), .error f, .error f] = .error h ∧ g.message = h.message := by
  obtain ⟨hgroups, hcheck⟩ := combine_groups_and_check
  have hne : Evolves.backward (Schema.avro (.plain .int)) (.avro (.plain .string)) ≠ .ok () := by
    rw [Schema.backward_eq_outcome rfl, ne_eq, Report.outcome_eq_ok_iff]
    decide +kernel
  cases hf : Mode.check (.checked .full .transitive) (Schema.avro (.plain .int))
      [.avro (.plain .string), .avro (.plain .boolean)] with
  | ok =>
    have hfull := Mode.check_transitive_eq_ok_iff.1 hf (.avro (.plain .string)) (.head _)
    exact absurd (Direction.outcome_full_eq_ok_iff.1 hfull).2 hne
  | error f =>
    obtain ⟨hsolid, hmessage⟩ := hcheck _ _ _ f hf
    have hincompatible := Mode.isIncompatible_of_format_eq (by simp [Schema.format]) hf
    obtain ⟨h, hh, -, hgh, -⟩ := (hgroups [[.error f, .ok ()], [], [.error f, .error f]]).2 _ rfl
    exact ⟨f, _, h, rfl, hsolid, hincompatible, hmessage hincompatible, rfl, hh, hgh⟩

end SchemaEvolution
