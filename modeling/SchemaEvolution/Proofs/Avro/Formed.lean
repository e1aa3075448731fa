import SchemaEvolution.Proofs.Avro.Canonical

namespace SchemaEvolution.Avro

namespace Form

def part (key : String) (f : Form) : Form := (f.get? key).getD (.string "")

def ifNamed {α : Type} (named full : α) : Form → α
  | .string _ => named
  | _ => full

@[simp] theorem ifNamed_string {α : Type} (named full : α) (s : String) :
    (string s).ifNamed named full = named := rfl

@[simp] theorem ifNamed_form {α : Type} (named full : α) (p : Parts) :
    p.form.ifNamed named full = full := rfl

def Tells (f : Form) (name key : String) (part : Form) : Prop :=
  f = .string name ∨ (f.get? "name" = some (.string name) ∧ f.get? key = some part)

theorem Tells.eq {f : Form} {name name' key : String} {part part' : Form}
    (h : f.Tells name key part) (h' : f.Tells name' key part') :
    name = name' ∧ (f = .string name ∨ part = part') := by
  obtain rfl | ⟨hname, hpart⟩ := h
  · obtain hname' | ⟨hname', -⟩ := h'
    · obtain rfl := Form.string.inj hname'
      exact ⟨rfl, .inl rfl⟩
    · cases hname'
  · obtain rfl | ⟨hname', hpart'⟩ := h'
    · cases hname
    · rw [hname] at hname'
      rw [hpart] at hpart'
      cases hname'
      cases hpart'
      exact ⟨rfl, .inr rfl⟩

end Form

def Schema.HasForm (s : Schema) (f : Form) : Prop :=
  ∃ w w', (canonical s.toJson).run w = some (f, w')

def HaveForms (vs : List Json) (fs : List Form) : Prop :=
  ∃ w w', (canonicalAll vs).run w = some (fs, w')

theorem HaveForms.cons {v : Json} {vs : List Json} {fs : List Form} (h : HaveForms (v :: vs) fs) :
    ∃ g gs w w', fs = g :: gs ∧ (canonical v).run w = some (g, w') ∧ HaveForms vs gs := by
  obtain ⟨w, w', h⟩ := h
  obtain ⟨g, gs, u, rfl, hg, hgs⟩ := of_canonicalAll_cons h
  exact ⟨g, gs, w, u, rfl, hg, u, w', hgs⟩

namespace Schema.HasForm

variable {f : Form} {name : String} {attributes : Attributes}

theorem fixed {size : Nat} (h : (Schema.fixed name size attributes).HasForm f) :
    f.Tells name "size" (.integer size) := by
  obtain ⟨w, w', h⟩ := h
  obtain ⟨-, rfl, -⟩ | ⟨-, p, u, u', v, rfl, hname, -, -, -, hsize, -⟩ :=
    of_introduces (isLeaf_fixed name size).toIntroduces h
  · exact .inl rfl
  · obtain ⟨-, n, hn, hp⟩ := of_numberAt hsize
    obtain rfl : n = size := by
      simp only [integerJson, integer?, Option.ite_none_right_eq_some, Option.some.injEq] at hn
      exact hn.2.symm
    exact .inr ⟨Parts.get?_name.trans hname, Parts.get?_size.trans hp⟩

theorem enum {symbols : List String} {default : Option String}
    (h : (Schema.enum name symbols default attributes).HasForm f) :
    f.Tells name "symbols" (.array (symbols.map .string)) := by
  obtain ⟨w, w', h⟩ := h
  obtain ⟨-, rfl, -⟩ | ⟨-, p, u, u', v, rfl, hname, -, -, -, -, hsymbols, -⟩ :=
    of_introduces (isLeaf_enum name symbols).toIntroduces h
  · exact .inl rfl
  · obtain ⟨hp, -⟩ := of_symbols rfl hsymbols
    exact .inr ⟨Parts.get?_name.trans hname, Parts.get?_symbols.trans hp⟩

theorem record {fields : List (FieldHead × Schema)}
    (h : (Schema.record name fields attributes).HasForm f) :
    f = .string name ∨ ∃ gs, f.get? "name" = some (.string name) ∧
      f.get? "fields" = some (.array gs) ∧ HaveForms (Schema.fieldsToJson fields) gs := by
  obtain ⟨w, w', h⟩ := h
  obtain ⟨-, rfl, -⟩ | ⟨-, p, gs, u, rfl, hname, hfields, hrun, -⟩ := of_record h
  · exact .inl rfl
  · exact .inr ⟨gs, Parts.get?_name.trans hname, Parts.get?_fields.trans hfields, _, _, hrun⟩

theorem array {items : Schema} (h : (Schema.array items attributes).HasForm f) :
    items.HasForm (f.part "items") := by
  obtain ⟨w, w', h⟩ := h
  obtain ⟨p, g, w₁, w₂, rfl, -, -, hitems, -, -, hrun, -⟩ := of_array h
  rw [Form.part, Parts.get?_items, hitems]
  exact ⟨w₁, w₂, hrun⟩

theorem map {values : Schema} (h : (Schema.map values attributes).HasForm f) :
    values.HasForm (f.part "values") := by
  obtain ⟨w, w', h⟩ := h
  obtain ⟨p, g, w₁, rfl, -, -, -, hvalues, -, hrun⟩ := of_map h
  rw [Form.part, Parts.get?_values, hvalues]
  exact ⟨w₁, w', hrun⟩

theorem union {members : List Schema} (h : (Schema.union members).HasForm f) :
    HaveForms (Schema.membersToJson members) f.items := by
  obtain ⟨w, w', h⟩ := h
  obtain ⟨gs, rfl, hrun⟩ := of_union h
  exact ⟨w, w', hrun⟩

theorem ref (h : (Schema.ref name).HasForm f) : f = .string name := by
  obtain ⟨w, w', h⟩ := h
  obtain ⟨rfl, -⟩ := of_string h
  rfl

end Schema.HasForm

theorem hasForm_of_field {head : FieldHead} {s : Schema} {f : Form} {w w' : Written}
    (hs : s.isWordRef = false) (h : (canonical (.object ([("name", .string head.name),
      ("type", s.toJson)] ++ head.attributes))).run w = some (f, w')) :
    f.get? "name" = some (.string head.name) ∧ s.HasForm (f.part "type") := by
  obtain ⟨p, g, w₁, w₂, rfl, hname, htype, -, hrun, -⟩ := of_field hs h
  refine ⟨Parts.get?_name.trans hname, ?_⟩
  rw [Form.part, Parts.get?_type, htype]
  exact ⟨w₁, w₂, hrun⟩

theorem Schema.exists_run_canonicalForm {s : Schema} (h : s.canonicalForm?.isSome) :
    ∃ w, (canonical s.toJson).run ⟨[]⟩ = some (s.canonicalForm, w) := by
  obtain ⟨f, hf⟩ := Option.isSome_iff_exists.1 h
  obtain ⟨⟨g, w⟩, hrun, rfl⟩ := Option.map_eq_some_iff.1 hf
  rw [canonicalForm, hf]
  exact ⟨w, hrun⟩

end SchemaEvolution.Avro
