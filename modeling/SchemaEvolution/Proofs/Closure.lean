import Mathlib.Data.List.Perm.Subperm
import Mathlib.Logic.Relation
import SchemaEvolution.Closure

namespace SchemaEvolution.Closure

variable {α : Type u} {next : α → List α} {bound : Nat} {start todo seen result : List α}

/-- What the given elements lead to in any number of steps. -/
inductive Reachable (next : α → List α) (start : List α) : α → Prop
  | start {x : α} : x ∈ start → Reachable next start x
  | step {x y : α} : Reachable next start x → y ∈ next x → Reachable next start y

theorem reachable_singleton_iff {x y : α} :
    Reachable next [x] y ↔ Relation.ReflTransGen (fun a b => b ∈ next a) x y := by
  constructor
  · intro h
    induction h with
    | start h => exact List.mem_singleton.1 h ▸ .refl
    | step _ hy ih => exact ih.tail hy
  · intro h
    induction h with
    | refl => exact .start (List.mem_singleton_self x)
    | tail _ hy ih => exact ih.step hy

/-- The search without a bound: what is to do and what was seen end in a result. -/
inductive Run (next : α → List α) : List α → List α → List α → Prop
  | done {seen : List α} : Run next [] seen seen
  | skip {x : α} {todo seen result : List α} :
    x ∈ seen → Run next todo seen result → Run next (x :: todo) seen result
  | enter {x : α} {todo seen result : List α} :
    x ∉ seen → Run next (next x ++ todo) (seen ++ [x]) result → Run next (x :: todo) seen result

structure Covers (next : α → List α) (start todo seen : List α) : Prop where
  start : ∀ x ∈ start, x ∈ seen ∨ x ∈ todo
  step : ∀ x ∈ seen, ∀ y ∈ next x, y ∈ seen ∨ y ∈ todo

theorem Covers.skip {x : α} (h : Covers next start (x :: todo) seen) (hx : x ∈ seen) :
    Covers next start todo seen where
  start y hy := by
    have := h.start y hy
    rw [List.mem_cons] at this
    grind
  step y hy z hz := by
    have := h.step y hy z hz
    rw [List.mem_cons] at this
    grind

theorem Covers.enter {x : α} (h : Covers next start (x :: todo) seen) :
    Covers next start (next x ++ todo) (seen ++ [x]) where
  start y hy := by
    have := h.start y hy
    simp only [List.mem_cons, List.mem_append, List.not_mem_nil, or_false] at this ⊢
    tauto
  step y hy z hz := by
    rcases List.mem_append.1 hy with hy | hy
    · have := h.step y hy z hz
      simp only [List.mem_cons, List.mem_append, List.not_mem_nil, or_false] at this ⊢
      tauto
    · rw [List.mem_singleton.1 hy] at hz
      exact .inr (List.mem_append_left _ hz)

theorem forall_mem_enter {P : α → Prop} {x : α} (hnext : ∀ y ∈ next x, P y) (hx : P x)
    (htodo : ∀ y ∈ x :: todo, P y) (hseen : ∀ y ∈ seen, P y) :
    (∀ y ∈ next x ++ todo, P y) ∧ ∀ y ∈ seen ++ [x], P y := by
  rw [List.forall_mem_cons] at htodo
  rw [List.forall_mem_append, List.forall_mem_append, List.forall_mem_singleton]
  exact ⟨⟨hnext, htodo.2⟩, hseen, hx⟩

theorem nodup_enter {x : α} (hx : x ∉ seen) (h : seen.Nodup) : (seen ++ [x]).Nodup := by
  rw [List.nodup_append]
  refine ⟨h, List.pairwise_singleton _ x, ?_⟩
  rintro y hy z hz rfl
  rw [List.mem_singleton] at hz
  exact hx (hz ▸ hy)

namespace Run

theorem nodup (h : Run next todo seen result) (hseen : seen.Nodup) : result.Nodup := by
  induction h with
  | done => exact hseen
  | skip _ _ ih => exact ih hseen
  | enter hx _ ih => exact ih (nodup_enter hx hseen)

theorem covers (h : Run next todo seen result) (hcovers : Covers next start todo seen) :
    Covers next start [] result := by
  induction h with
  | done => exact hcovers
  | skip hx _ ih => exact ih (hcovers.skip hx)
  | enter _ _ ih => exact ih hcovers.enter

theorem reachable (h : Run next todo seen result) (htodo : ∀ x ∈ todo, Reachable next start x)
    (hseen : ∀ x ∈ seen, Reachable next start x) : ∀ x ∈ result, Reachable next start x := by
  induction h with
  | done => exact hseen
  | skip _ _ ih => exact ih (fun y hy => htodo y (.tail _ hy)) hseen
  | enter _ _ ih =>
    have hx := htodo _ (.head _)
    obtain ⟨htodo, hseen⟩ := forall_mem_enter (fun y hy => hx.step hy) hx htodo hseen
    exact ih htodo hseen

theorem mem_iff (h : Run next start [] result) {x : α} : x ∈ result ↔ Reachable next start x := by
  have hnil : ∀ x ∈ ([] : List α), Reachable next start x := fun x hx => nomatch hx
  have hcovers := h.covers ⟨fun x hx => .inr hx, fun x hx => nomatch hx⟩
  constructor
  · exact h.reachable (fun x hx => .start hx) hnil x
  · intro hx
    induction hx with
    | start hx => exact (hcovers.start _ hx).resolve_right List.not_mem_nil
    | step _ hy ih => exact (hcovers.step _ ih _ hy).resolve_right List.not_mem_nil

theorem length_le (h : Run next todo seen result) : seen.length ≤ result.length := by
  induction h with
  | done => exact Nat.le_refl _
  | skip _ _ ih => exact ih
  | enter _ _ ih => rw [List.length_append] at ih; exact Nat.le_of_add_right_le ih

end Run

variable [DecidableEq α]

theorem run_visit {all : List α} (hall : ∀ x, Reachable next start x → x ∈ all)
    (hbound : all.length ≤ bound) (hnodup : seen.Nodup)
    (htodo : ∀ x ∈ todo, Reachable next start x) (hseen : ∀ x ∈ seen, Reachable next start x) :
    Run next todo seen (visit next bound todo seen) := by
  fun_induction visit next bound todo seen with
  | case1 seen => exact .done
  | case2 seen x todo hx ih => exact .skip hx (ih hnodup (fun y hy => htodo y (.tail x hy)) hseen)
  | case3 seen x todo hx hb ih =>
    have hxr : Reachable next start x := htodo x (.head todo)
    obtain ⟨htodo, hseen⟩ := forall_mem_enter (fun y hy => hxr.step hy) hxr htodo hseen
    exact .enter hx (ih (nodup_enter hx hnodup) htodo hseen)
  | case4 seen x todo hx hb =>
    -- what was seen and `x` are different elements of `all`, too many for the bound
    have hsub : (x :: seen).Subset all := by
      intro y hy
      rcases List.mem_cons.1 hy with rfl | hy
      · exact hall y (htodo y (.head todo))
      · exact hall y (hseen y hy)
    have hlen : (x :: seen).length ≤ all.length :=
      (List.subperm_of_subset (List.nodup_cons.2 ⟨hx, hnodup⟩) hsub).length_le
    rw [List.length_cons] at hlen
    omega

/-- The search ends by itself whenever what can be reached fits the bound. -/
theorem run_of {all : List α} (hall : ∀ x, Reachable next start x → x ∈ all)
    (hbound : all.length ≤ bound) : Run next start [] (of next bound start) := by
  apply run_visit hall hbound .nil
  · intro x hx
    exact .start hx
  · intro x hx
    cases hx

theorem Run.visit_eq (h : Run next todo seen result) (hbound : result.length ≤ bound) :
    visit next bound todo seen = result := by
  induction h with
  | done => rw [visit]
  | skip hx _ ih => rw [visit, if_pos hx, ih hbound]
  | @enter x todo seen result hx hrun ih =>
    have hlength := hrun.length_le
    rw [List.length_append, List.length_singleton] at hlength
    rw [visit, if_neg hx, if_pos (by omega), ih hbound]

theorem Run.of_eq (h : Run next start [] result) (hbound : result.length ≤ bound) :
    of next bound start = result :=
  h.visit_eq hbound

theorem of_singleton {x : α} (hnext : next x = []) (hbound : 0 < bound) :
    of next bound [x] = [x] := by
  have hrun : Run next [x] [] [x] := .enter List.not_mem_nil (by rw [hnext]; exact .done)
  exact hrun.of_eq hbound

end SchemaEvolution.Closure
