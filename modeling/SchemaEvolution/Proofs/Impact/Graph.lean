import SchemaEvolution.Impact.Graph
import SchemaEvolution.Proofs.Closure
import SchemaEvolution.Proofs.Names

namespace SchemaEvolution.Impact.Graph

def Sorted (g : Graph) : Prop := (g.entries.map (·.1)).Pairwise (· < ·)

theorem sorted_empty : Sorted empty := .nil

theorem Sorted.addEdge {g : Graph} (h : g.Sorted) (referenced referencing : String) :
    (g.addEdge referenced referencing).Sorted := by
  rw [Sorted, Graph.addEdge, Names.keys_alter]
  exact Names.sorted_insert h

theorem Sorted.mem_dependents_addEdge {g : Graph} (h : g.Sorted) {a b n d : String} :
    d ∈ (g.addEdge a b).dependents n ↔ (n = a ∧ d = b) ∨ d ∈ g.dependents n := by
  rw [dependents, Graph.addEdge, Names.find?_alter h]
  by_cases hn : n = a
  · subst hn
    rw [if_pos rfl, Option.getD_some, Names.mem_insert]
    simp [dependents]
  · simp [hn, dependents]

theorem sorted_and_mem_dependents_foldl {g : Graph} (h : g.Sorted)
    (edges : List (String × String)) :
    let g' := edges.foldl (fun g e => g.addEdge e.1 e.2) g
    g'.Sorted ∧ ∀ n d, d ∈ g'.dependents n ↔ (n, d) ∈ edges ∨ d ∈ g.dependents n := by
  induction edges generalizing g with
  | nil => exact ⟨h, by simp⟩
  | cons e edges ih =>
    obtain ⟨hs, hm⟩ := ih (h.addEdge e.1 e.2)
    refine ⟨hs, ?_⟩
    intro n d
    rw [List.foldl_cons, hm, h.mem_dependents_addEdge, List.mem_cons, Prod.ext_iff]
    tauto

@[simp] theorem mem_dependents_ofEdges {edges : List (String × String)} {n d : String} :
    d ∈ (ofEdges edges).dependents n ↔ (n, d) ∈ edges := by
  have h := (sorted_and_mem_dependents_foldl sorted_empty edges).2 n d
  rw [ofEdges, h]
  simp [dependents, empty, Names.find?]

theorem weight_eq (g : Graph) : g.weight = (g.entries.flatMap (·.2)).length := by
  have h : ∀ (entries : List (String × List String)) (n : Nat),
      entries.foldl (fun n e => n + e.2.length) n = n + (entries.flatMap (·.2)).length := by
    intro entries
    induction entries with
    | nil => simp
    | cons e entries ih => intro n; rw [List.foldl_cons, ih]; simp; omega
  rw [weight, h]
  omega

theorem mem_entries_of_mem_dependents {g : Graph} {n d : String} (h : d ∈ g.dependents n) :
    d ∈ g.entries.flatMap (·.2) := by
  rw [dependents] at h
  cases hn : Names.find? n g.entries with
  | none => simp [hn] at h
  | some ds =>
    rw [hn, Option.getD_some] at h
    exact List.mem_flatMap.2 ⟨(n, ds), Names.mem_of_lookup_eq_some hn, h⟩

theorem run_impactedBy (g : Graph) (start : String) :
    Closure.Run g.dependents [start] [] (Closure.of g.dependents (g.weight + 1) [start]) := by
  have hall : ∀ x, Closure.Reachable g.dependents [start] x →
      x ∈ start :: g.entries.flatMap (·.2) := by
    intro x hx
    cases hx with
    | start hx => exact List.mem_cons.2 (.inl (List.mem_singleton.1 hx))
    | step _ hy => exact .tail _ (mem_entries_of_mem_dependents hy)
  have hbound : (start :: g.entries.flatMap (·.2)).length ≤ g.weight + 1 :=
    Nat.succ_le_succ (Nat.le_of_eq (weight_eq g).symm)
  exact Closure.run_of hall hbound

theorem mem_impactedBy_iff {g : Graph} {start n : String} :
    n ∈ g.impactedBy start ↔ Closure.Reachable g.dependents [start] n := by
  simp [impactedBy, (run_impactedBy g start).mem_iff]

theorem sorted_impactedBy (g : Graph) (start : String) :
    (g.impactedBy start).Pairwise (· < ·) :=
  Names.sorted_ofList _

@[simp] theorem mem_impactedBy_ofEdges {edges : List (String × String)} {start n : String} :
    n ∈ (ofEdges edges).impactedBy start ↔
      Relation.ReflTransGen (fun a b => (a, b) ∈ edges) start n := by
  simp [mem_impactedBy_iff, Closure.reachable_singleton_iff]

theorem impactedBy_sublist {edges further : List (String × String)} (h : edges ⊆ further)
    (start : String) :
    ((ofEdges edges).impactedBy start).Sublist ((ofEdges further).impactedBy start) := by
  apply Names.sublist_of_subset (sorted_impactedBy _ _) (sorted_impactedBy _ _)
  intro n hn
  rw [mem_impactedBy_ofEdges] at hn ⊢
  exact Relation.ReflTransGen.mono (fun _ _ he => h he) _ _ hn

theorem ofEdges_append_singleton (edges : List (String × String)) (a b : String) :
    ofEdges (edges ++ [(a, b)]) = (ofEdges edges).addEdge a b := by
  rw [ofEdges, List.foldl_append]
  rfl

/-- In a graph made of any edges the search for what is impacted ends by itself. It finds the names
that the edges lead to in any number of steps, the start first of all, each once and in increasing
order. Neither the order of the edges nor how often one is added matters, and a further edge takes
no name away. -/
theorem impactedBy_exact (edges : List (String × String)) (start : String) :
    Closure.Run (ofEdges edges).dependents [start] []
      (Closure.of (ofEdges edges).dependents ((ofEdges edges).weight + 1) [start]) ∧
    (∀ n, n ∈ (ofEdges edges).impactedBy start ↔
      Relation.ReflTransGen (fun a b => (a, b) ∈ edges) start n) ∧
    ((ofEdges edges).impactedBy start).Pairwise (· < ·) ∧
    (∀ others : List (String × String), (∀ e, e ∈ others ↔ e ∈ edges) →
      (ofEdges others).impactedBy start = (ofEdges edges).impactedBy start) ∧
    ∀ a b, ((ofEdges edges).impactedBy start).Sublist
      (((ofEdges edges).addEdge a b).impactedBy start) := by
  refine ⟨run_impactedBy _ start, fun n => mem_impactedBy_ofEdges, sorted_impactedBy _ start,
    ?_, ?_⟩
  · intro others h
    have hle := impactedBy_sublist (fun e he => (h e).1 he) start
    have hge := impactedBy_sublist (fun e he => (h e).2 he) start
    exact hle.antisymm hge
  · intro a b
    rw [← ofEdges_append_singleton]
    exact impactedBy_sublist (List.subset_append_left edges [(a, b)]) start

theorem impactedBy_exact_cycle :
    (ofEdges [("a.C", "a.B"), ("a.A", "a.B"), ("a.B", "a.A"), ("a.A", "a.A"), ("a.A", "a.B"),
      ("a.B", "a.C")]).impactedBy "a.B" =
      (ofEdges [("a.A", "a.A"), ("a.A", "a.B"), ("a.B", "a.A"), ("a.B", "a.C"),
        ("a.C", "a.B")]).impactedBy "a.B" ∧
    "a.C" ∈ (ofEdges [("a.A", "a.A"), ("a.A", "a.B"), ("a.B", "a.A"), ("a.B", "a.C"),
      ("a.C", "a.B")]).impactedBy "a.A" := by
  constructor
  · apply (impactedBy_exact _ "a.B").2.2.2.1 _
    intro e
    simp
    tauto
  · refine ((impactedBy_exact _ "a.A").2.1 "a.C").2 (.tail (.single (b := "a.B") ?_) ?_)
    · decide
    · decide

end SchemaEvolution.Impact.Graph
