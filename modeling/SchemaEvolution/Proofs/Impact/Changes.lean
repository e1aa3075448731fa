import Mathlib.Data.List.Perm.Lattice
import SchemaEvolution.Impact.Event
import SchemaEvolution.Proofs.Names

namespace SchemaEvolution.Impact

namespace ChangeSet

variable {c : ChangeSet}

/-- The types that changed, once each, are the ones whose changed members are listed. -/
structure Coherent (c : ChangeSet) : Prop where
  nodup : c.updated.Nodup
  sorted : (c.members.map (·.1)).Pairwise (· < ·)
  keys : ∀ n, n ∈ c.members.map (·.1) ↔ n ∈ c.updated

theorem coherent_empty : empty.Coherent where
  nodup := .nil
  sorted := .nil
  keys _ := .rfl

@[simp] theorem mem_updated_record {name n : String} {members : List String} :
    n ∈ (c.record name members).updated ↔ n = name ∨ n ∈ c.updated := by
  rw [record]
  split
  next h => exact ⟨.inr, fun hn => hn.elim (fun hn => hn ▸ h) id⟩
  next => rw [List.mem_append, List.mem_singleton, or_comm]

theorem Coherent.record (h : c.Coherent) (name : String) (members : List String) :
    (c.record name members).Coherent where
  nodup := by
    rw [ChangeSet.record]
    split
    next => exact h.nodup
    next hn =>
      refine List.nodup_append.2 ⟨h.nodup, List.nodup_singleton name, ?_⟩
      intro x hx y hy hxy
      exact hn (List.mem_singleton.1 hy ▸ hxy ▸ hx)
  sorted := by
    rw [ChangeSet.record, Names.keys_alter]
    exact Names.sorted_insert h.sorted
  keys n := by
    rw [mem_updated_record, ChangeSet.record, Names.keys_alter, Names.mem_insert, h.keys]

theorem coherent_ofList (changes : List (String × List String)) : (ofList changes).Coherent := by
  have h : ∀ c : ChangeSet, c.Coherent →
      (changes.foldl (fun c e => c.record e.1 e.2) c).Coherent := by
    induction changes with
    | nil => exact fun c hc => hc
    | cons e changes ih => exact fun c hc => ih _ (hc.record e.1 e.2)
  exact h _ coherent_empty

theorem mem_updated_ofList {changes : List (String × List String)} {n : String} :
    n ∈ (ofList changes).updated ↔ n ∈ changes.map (·.1) := by
  have h : ∀ c : ChangeSet, n ∈ (changes.foldl (fun c e => c.record e.1 e.2) c).updated ↔
      n ∈ c.updated ∨ n ∈ changes.map (·.1) := by
    induction changes with
    | nil => simp
    | cons e changes ih =>
      intro c
      rw [List.foldl_cons, ih, mem_updated_record, List.map_cons, List.mem_cons]
      tauto
  rw [ofList, h]
  simp [empty]

def Lists (c : ChangeSet) (type member : String) : Prop :=
  ∃ members, Names.find? type c.members = some members ∧ member ∈ members

theorem Coherent.lists_record (h : c.Coherent) {name type member : String} {members : List String} :
    (c.record name members).Lists type member ↔
      c.Lists type member ∨ (type = name ∧ member ∈ members) := by
  rw [Lists, ChangeSet.record, Names.find?_alter h.sorted]
  by_cases hname : type = name
  · subst hname
    cases hfind : Names.find? type c.members <;> simp [Lists, hfind]
  · simp [hname, Lists]

theorem lists_ofList {changes : List (String × List String)} {type member : String} :
    (ofList changes).Lists type member ↔ ∃ members, (type, members) ∈ changes ∧ member ∈ members := by
  have h : ∀ c : ChangeSet, c.Coherent →
      ((changes.foldl (fun c e => c.record e.1 e.2) c).Lists type member ↔
        c.Lists type member ∨ ∃ members, (type, members) ∈ changes ∧ member ∈ members) := by
    induction changes with
    | nil => simp
    | cons e changes ih =>
      obtain ⟨name, members⟩ := e
      intro c hc
      rw [List.foldl_cons, ih _ (hc.record name members), hc.lists_record, or_assoc]
      refine or_congr_right ?_
      simp only [List.mem_cons, Prod.mk.injEq, or_and_right, exists_or]
      refine or_congr_left ⟨fun h => ⟨members, ⟨h.1, rfl⟩, h.2⟩, ?_⟩
      rintro ⟨_, ⟨rfl, rfl⟩, hmember⟩
      exact ⟨rfl, hmember⟩
  rw [ofList, h _ coherent_empty]
  simp [Lists, empty, Names.find?]

theorem mem_updated_of_lists {changes : List (String × List String)} {type member : String}
    (h : (ofList changes).Lists type member) : type ∈ (ofList changes).updated := by
  obtain ⟨members, hchange, -⟩ := lists_ofList.1 h
  exact mem_updated_ofList.2 (List.mem_map_of_mem hchange)

theorem Coherent.keys_perm (h : c.Coherent) : (c.members.map (·.1)).Perm c.updated :=
  (List.perm_ext_iff_of_nodup (h.sorted.imp String.ne_of_lt) h.nodup).2 h.keys

end ChangeSet

theorem find?_impactOf {g : Graph} {changes : ChangeSet} {n : String} (h : n ∈ changes.updated) :
    Names.find? n (impactOf g changes) = some (g.impactedBy n) := by
  rw [impactOf, (Names.find?_foldl_put _ _ [] .nil).2 n, if_pos h]

theorem keys_impactOf_perm {g : Graph} {changes : ChangeSet} (h : changes.updated.Nodup) :
    ((impactOf g changes).map (·.1)).Perm changes.updated := by
  obtain ⟨hs, hf⟩ := Names.find?_foldl_put g.impactedBy changes.updated [] .nil
  apply (List.perm_ext_iff_of_nodup (hs.imp String.ne_of_lt) h).2
  intro n
  rw [← Names.find?_isSome_iff, hf]
  by_cases hn : n ∈ changes.updated
  · simp [hn]
  · simp [hn, Names.find?]

end SchemaEvolution.Impact
