import SchemaEvolution.Proofs.Avro.Canonical
import SchemaEvolution.Proofs.Avro.Printing
import SchemaEvolution.Proofs.Json.Nesting

namespace SchemaEvolution.Avro

theorem readsBack_of_fitsWord {n : Int} (h : Text.fitsWord 64 n) :
    (Json.Number.integer n).ReadsBack := by
  simp only [Text.fitsWord, Bool.and_eq_true, decide_eq_true_eq] at h
  obtain ⟨hleast, hgreatest⟩ := h
  cases n with
  | ofNat n =>
    have hn : (n : Int) < 2 ^ 63 := hgreatest
    have hword : n ≤ 2 ^ 64 - 1 := by omega
    exact Json.Number.readsBack_ofNat hword
  | negSucc n =>
    have hn : -2 ^ 63 ≤ -(n.succ : Int) := hleast
    have hword : n.succ ≤ 2 ^ 63 := by omega
    exact Json.Number.readsBack_neg_succ hword

theorem fitsWord_of_integer? {x : Json} {n : Int} (h : integer? x = some n) :
    Text.fitsWord 64 n := by
  match x with
  | .number (.integer m) =>
    obtain ⟨hfits, hn⟩ := Option.ite_none_right_eq_some.1 h
    exact Option.some.inj hn ▸ hfits
  | .string s => exact Text.fitsWord_of_integer? h
  | .number (.float _) | .null | .bool _ | .array _ | .object _ => cases h

namespace Form

def ReadsBack (f : Form) : Prop := f.toJson.IntegersReadBack

theorem readsBack_string (s : String) : (string s).ReadsBack := .ofString s

theorem readsBack_integer {n : Int} (h : Text.fitsWord 64 n) : (integer n).ReadsBack := by
  intro i hi
  obtain rfl := List.mem_singleton.1 hi
  exact readsBack_of_fitsWord h

theorem readsBack_array {fs : List Form} (h : ∀ f ∈ fs, f.ReadsBack) : (array fs).ReadsBack := by
  apply Json.IntegersReadBack.ofItems
  rw [itemsToJson_eq_map]
  exact List.forall_mem_map.2 h

theorem readsBack_object {ms : List (String × Form)} (h : ∀ m ∈ ms, m.2.ReadsBack) :
    (object ms).ReadsBack := by
  intro i hi
  obtain ⟨m, hm, hi⟩ := Json.mem_integersMembers.1 hi
  rw [membersToJson_eq_map] at hm
  obtain ⟨m', hm', rfl⟩ := List.mem_map.1 hm
  exact h m' hm' i hi

theorem readsBack_form {p : Parts} (h : ∀ part ∈ p.toList, ∀ f ∈ part.2, f.ReadsBack) :
    p.form.ReadsBack := by
  apply readsBack_object
  intro m hm
  obtain ⟨part, hpart, hm⟩ := List.mem_filterMap.1 hm
  obtain ⟨f, hf, rfl⟩ := Option.map_eq_some_iff.1 hm
  exact h part hpart f hf

end Form

section

variable {w w' : Written} {f : Form} {part : Option Form} {key : String}
  {ms : List (String × Json)}

theorem readsBack_numberAt (h : (numberAt key ms).run w = some (part, w')) :
    ∀ f ∈ part, f.ReadsBack := by
  obtain ⟨-, hpart⟩ := of_numberAt h
  cases hx : (Json.object ms).get? key with
  | none =>
    rw [hx] at hpart
    subst hpart
    nofun
  | some x =>
    rw [hx] at hpart
    obtain ⟨n, hn, rfl⟩ := hpart
    intro f hf
    cases hf
    exact Form.readsBack_integer (fitsWord_of_integer? hn)

theorem readsBack_reduce {visit : String → Writing (Option Form)} {name? : Option String}
    (hvisit : ∀ key part w w', (visit key).run w = some (part, w') → ∀ f ∈ part, f.ReadsBack)
    (h : (reduce visit name? ms).run w = some (f, w')) : f.ReadsBack := by
  obtain ⟨p, w₁, w₂, w₃, w₄, w₅, w₆, rfl, hfields, hitems, hname, horder, hprecision, hscale, hsize,
    hsymbols, htype, hvalues⟩ := of_reduce h
  have hnamed : ∀ f ∈ p.name, f.ReadsBack := by
    cases name? with
    | none => exact hvisit _ _ _ _ hname
    | some name =>
      obtain ⟨hp, -⟩ := Writing.of_pure hname
      intro f hf
      rw [← hp] at hf
      obtain ⟨_, -, rfl⟩ := Option.map_eq_some_iff.1 hf
      exact Form.readsBack_string name
  apply Form.readsBack_form
  simp only [Parts.toList, List.forall_mem_cons]
  exact ⟨hnamed, hvisit _ _ _ _ htype, hvisit _ _ _ _ hfields, hvisit _ _ _ _ hsymbols,
    hvisit _ _ _ _ hitems, hvisit _ _ _ _ hvalues, readsBack_numberAt hsize,
    hvisit _ _ _ _ horder, readsBack_numberAt hprecision, readsBack_numberAt hscale, nofun⟩

end

mutual

theorem readsBack_canonical {v : Json} {w w' : Written} {f : Form}
    (h : (canonical v).run w = some (f, w')) : f.ReadsBack := by
  match v with
  | .string s =>
    obtain ⟨rfl, -⟩ := of_string h
    exact Form.readsBack_string s
  | .array xs =>
    obtain ⟨gs, rfl, hgs⟩ := of_items h
    exact Form.readsBack_array (readsBack_canonicalAll hgs)
  | .object ms =>
    obtain ⟨s, rfl, -⟩ | ⟨u, h, -⟩ := of_object h
    · exact Form.readsBack_string s
    · apply readsBack_reduce _ h
      intro key part u u'
      exact readsBack_canonicalAt
  | .null | .bool _ | .number _ =>
    rw [canonical] at h
    · cases h
    all_goals nofun

theorem readsBack_canonicalAll {vs : List Json} {w w' : Written} {fs : List Form}
    (h : (canonicalAll vs).run w = some (fs, w')) : ∀ f ∈ fs, f.ReadsBack := by
  match vs with
  | [] =>
    rw [canonicalAll] at h
    obtain ⟨rfl, -⟩ := Writing.of_pure h
    nofun
  | v :: vs =>
    obtain ⟨g, gs, u, rfl, hg, hgs⟩ := of_canonicalAll_cons h
    exact List.forall_mem_cons.2 ⟨readsBack_canonical hg, readsBack_canonicalAll hgs⟩

theorem readsBack_canonicalAt {ms : List (String × Json)} {key : String} {w w' : Written}
    {part : Option Form} (h : (canonicalAt key ms).run w = some (part, w')) :
    ∀ f ∈ part, f.ReadsBack := by
  match ms with
  | [] =>
    rw [canonicalAt] at h
    obtain ⟨rfl, -⟩ := Writing.of_pure h
    nofun
  | (k, x) :: ms =>
    rw [canonicalAt_cons] at h
    split at h
    · obtain ⟨g, rfl, hg⟩ := of_some h
      intro f hf
      cases hf
      exact readsBack_canonical hg
    · exact readsBack_canonicalAt h

end

/-- A form in which nothing has to be escaped is read back unless it is nested too deep. -/
theorem parse?_text_of_plain {f : Form} (hplain : f.Plain) (h : f.ReadsBack) :
    Json.parse? f.text =
      if f.toJson.depth ≤ Json.maxDepth then some f.toJson.sorted else none := by
  rw [Form.text_eq_of_plain hplain]
  exact Json.parse?_text (Form.floats_toJson f) h

end SchemaEvolution.Avro
