import SchemaEvolution.JsonSchema.Explored
import SchemaEvolution.Proofs.Json.Pointer

namespace SchemaEvolution.JsonSchema

def placeOf? (location : String) : Option Pointer :=
  match location.toList with
  | '#' :: cs => Pointer.ofText? (String.ofList cs)
  | _ => none

theorem placeOf?_locationText {p : Pointer} (h : p.Plain) : placeOf? (locationText p) = some p := by
  have hlist : (locationText p).toList = '#' :: p.text.toList := by simp [locationText]
  unfold placeOf?
  rw [hlist]
  simp only [String.ofList_toList]
  exact Pointer.ofText?_text h

theorem locationText_injective {p q : Pointer} (hp : p.Plain) (hq : q.Plain)
    (h : locationText p = locationText q) : p = q := by
  have := (placeOf?_locationText hp).symm.trans (h ▸ placeOf?_locationText hq)
  exact Option.some.inj this

@[simp] theorem locationText_append (p q : Pointer) : locationText (p ++ q) = locationText p ++ q.text := by
  simp [locationText, locationText, String.append_assoc]

namespace Explored

variable {e : Explored} {location : String} {v : Json}

theorem mem_nodes : (location, v) ∈ e.nodes ↔
    ∃ p ∈ e.places, p.find? e.root = some v ∧ location = locationText p := by
  unfold nodes
  rw [List.mem_filterMap]
  apply exists_congr
  intro p
  apply and_congr_right
  intro _
  cases p.find? e.root <;> simp [and_comm, eq_comm]

theorem mem_nodes_of_node? (h : e.node? location = some v) : (location, v) ∈ e.nodes := by
  obtain ⟨p, hp, hv⟩ := Option.bind_eq_some_iff.1 h
  have hlocation : locationText p = location := by simpa using List.find?_some hp
  exact mem_nodes.2 ⟨p, List.mem_of_find?_eq_some hp, hv, hlocation.symm⟩

end Explored

end SchemaEvolution.JsonSchema
