import Mathlib.Logic.Relation
import SchemaEvolution.Avro.Canonical
import SchemaEvolution.Proofs.Names

namespace SchemaEvolution.Avro

namespace Writing

variable {α β : Type} {x : Writing α} {f : α → Writing β} {a : α} {b : β} {w w' : Written}

theorem of_bind (h : (x >>= f).run w = some (b, w')) :
    ∃ a v, x.run w = some (a, v) ∧ (f a).run v = some (b, w') := by
  obtain ⟨⟨a, v⟩, hx, hf⟩ := Option.bind_eq_some_iff.1 h
  exact ⟨a, v, hx, hf⟩

theorem of_pure {a' : α} (h : (pure a : Writing α).run w = some (a', w')) : a = a' ∧ w = w' := by
  cases h
  exact ⟨rfl, rfl⟩

theorem of_liftM {o : Option α} (h : (liftM o : Writing α).run w = some (a, w')) :
    o = some a ∧ w = w' := by
  cases o with
  | none => cases h
  | some a' =>
    cases h
    exact ⟨rfl, rfl⟩

end Writing

namespace Written

def enter (w : Written) (name : String) : Written where
  names := name :: w.names

end Written

theorem of_named {name : String} {full : Writing Form} {w w' : Written} {f : Form}
    (h : (named (some name) full).run w = some (f, w')) :
    (name ∈ w.names ∧ f = .string name ∧ w = w') ∨
      (name ∉ w.names ∧ full.run (w.enter name) = some (f, w')) := by
  change (if name ∈ w.names then (pure (.string name) : Writing Form) else
    (fun _ => full.run (w.enter name))) w = _ at h
  by_cases hname : name ∈ w.names
  · rw [if_pos hname] at h
    obtain ⟨rfl, rfl⟩ := Writing.of_pure h
    exact .inl ⟨hname, rfl, rfl⟩
  · rw [if_neg hname] at h
    exact .inr ⟨hname, h⟩

namespace Form

def get? (key : String) : Form → Option Form
  | .object ms => Names.find? key ms
  | _ => none

def items : Form → List Form
  | .array xs => xs
  | _ => []

@[simp] theorem items_array (xs : List Form) : (Form.array xs).items = xs := rfl

end Form

namespace Parts

theorem find?_filterMap {key : String} {parts : List (String × Option Form)}
    (h : (parts.map (·.1)).Nodup) :
    Names.find? key (parts.filterMap fun part => part.2.map (part.1, ·)) =
      (Names.find? key parts).join := by
  induction parts with
  | nil => rfl
  | cons p parts ih =>
    obtain ⟨k, part⟩ := p
    obtain ⟨hk, hparts⟩ := List.nodup_cons.1 h
    cases part with
    | none =>
      rw [List.filterMap_cons_none rfl, ih hparts, Names.find?_cons]
      split
      next hkey =>
        have hnone : Names.find? key parts = none := by
          rw [← Option.not_isSome_iff_eq_none, Names.find?_isSome_iff, hkey]
          exact hk
        rw [hnone]
        rfl
      next => rfl
    | some f =>
      change Names.find? key ((k, f) :: List.filterMap _ parts) = _
      rw [Names.find?_cons, Names.find?_cons, ih hparts]
      split
      · rfl
      · rfl

theorem nodup_keys (p : Parts) : (p.toList.map (·.1)).Nodup := by
  have hkeys : p.toList.map (·.1) = ["name", "type", "fields", "symbols", "items", "values",
    "size", "order", "precision", "scale"] := rfl
  rw [hkeys]
  decide

@[simp] theorem get?_form (p : Parts) (key : String) :
    p.form.get? key = (Names.find? key p.toList).join := find?_filterMap p.nodup_keys

variable {p q : Parts}

@[simp] theorem get?_name : p.form.get? "name" = p.name := by
  rw [get?_form]
  rfl

@[simp] theorem get?_type : p.form.get? "type" = p.type := by
  rw [get?_form]
  rfl

@[simp] theorem get?_fields : p.form.get? "fields" = p.fields := by
  rw [get?_form]
  rfl

@[simp] theorem get?_symbols : p.form.get? "symbols" = p.symbols := by
  rw [get?_form]
  rfl

@[simp] theorem get?_items : p.form.get? "items" = p.items := by
  rw [get?_form]
  rfl

@[simp] theorem get?_values : p.form.get? "values" = p.values := by
  rw [get?_form]
  rfl

@[simp] theorem get?_size : p.form.get? "size" = p.size := by
  rw [get?_form]
  rfl

end Parts

@[simp] theorem canonicalAt_cons (key k : String) (x : Json) (ms : List (String × Json)) :
    canonicalAt key ((k, x) :: ms) =
      if key = k then do return some (← canonical x) else canonicalAt key ms := by
  rw [canonicalAt]

theorem canonical_object (ms : List (String × Json)) :
    canonical (.object ms) = named (writtenName? (.object ms)) (match soleType? ms with
      | some type => return .string type
      | none => reduce (fun key => canonicalAt key ms) (writtenName? (.object ms)) ms) := by
  unfold canonical
  rfl

theorem of_sole {type? : Option String} {full : Writing Form} {w w' : Written} {f : Form}
    (h : (match type? with
      | some type => return .string type
      | none => full : Writing Form).run w = some (f, w')) :
    (∃ s, f = .string s ∧ w = w') ∨ full.run w = some (f, w') := by
  cases type? with
  | none => exact .inr h
  | some type =>
    obtain ⟨rfl, rfl⟩ := Writing.of_pure h
    exact .inl ⟨type, rfl, rfl⟩

theorem of_object {ms : List (String × Json)} {w w' : Written} {f : Form}
    (h : (canonical (.object ms)).run w = some (f, w')) :
    (∃ s, f = .string s ∧ (writtenName? (.object ms) = none → w = w')) ∨
      ∃ u, (reduce (fun key => canonicalAt key ms) (writtenName? (.object ms)) ms).run u =
        some (f, w') ∧ (writtenName? (.object ms) = none → w = u) := by
  rw [canonical_object] at h
  cases hname : writtenName? (.object ms) with
  | none =>
    rw [hname, named] at h
    obtain ⟨s, rfl, rfl⟩ | h := of_sole h
    · exact .inl ⟨s, rfl, fun _ => rfl⟩
    · exact .inr ⟨w, h, fun _ => rfl⟩
  | some name =>
    rw [hname] at h
    obtain ⟨-, rfl, -⟩ | ⟨-, h⟩ := of_named h
    · exact .inl ⟨name, rfl, nofun⟩
    · obtain ⟨s, rfl, -⟩ | h := of_sole h
      · exact .inl ⟨s, rfl, nofun⟩
      · exact .inr ⟨_, h, nofun⟩

theorem canonicalAt_eq (key : String) (ms : List (String × Json)) :
    canonicalAt key ms = match (Json.object ms).get? key with
      | some x => do return some (← canonical x)
      | none => return none := by
  induction ms with
  | nil => rfl
  | cons m ms ih =>
    rw [Json.get?] at ih
    rw [canonicalAt_cons, Json.get?, Names.find?_cons, ih]
    split <;> rfl

theorem of_string {s : String} {w w' : Written} {f : Form}
    (h : (canonical (.string s)).run w = some (f, w')) : f = .string s ∧ w = w' := by
  rw [canonical] at h
  obtain ⟨rfl, rfl⟩ := Writing.of_pure h
  exact ⟨rfl, rfl⟩

theorem of_items {xs : List Json} {w w' : Written} {f : Form}
    (h : (canonical (.array xs)).run w = some (f, w')) :
    ∃ gs, f = .array gs ∧ (canonicalAll xs).run w = some (gs, w') := by
  rw [canonical] at h
  obtain ⟨gs, v, hgs, h⟩ := Writing.of_bind h
  obtain ⟨rfl, rfl⟩ := Writing.of_pure h
  exact ⟨gs, rfl, hgs⟩

theorem of_canonicalAll_cons {x : Json} {xs : List Json} {w w' : Written} {fs : List Form}
    (h : (canonicalAll (x :: xs)).run w = some (fs, w')) :
    ∃ g gs v, fs = g :: gs ∧ (canonical x).run w = some (g, v) ∧
      (canonicalAll xs).run v = some (gs, w') := by
  rw [canonicalAll] at h
  obtain ⟨g, v, hg, h⟩ := Writing.of_bind h
  obtain ⟨gs, v', hgs, h⟩ := Writing.of_bind h
  obtain ⟨rfl, rfl⟩ := Writing.of_pure h
  exact ⟨g, gs, v, rfl, hg, hgs⟩

theorem of_numberAt {key : String} {ms : List (String × Json)} {part : Option Form}
    {w w' : Written} (h : (numberAt key ms).run w = some (part, w')) :
    w = w' ∧ match (Json.object ms).get? key with
      | some x => ∃ n, integer? x = some n ∧ part = some (.integer n)
      | none => part = none := by
  rw [numberAt] at h
  cases hx : (Json.object ms).get? key with
  | none =>
    rw [hx] at h
    obtain ⟨rfl, rfl⟩ := Writing.of_pure h
    exact ⟨rfl, rfl⟩
  | some x =>
    rw [hx] at h
    dsimp only at h
    obtain ⟨n, v, hn, h⟩ := Writing.of_bind h
    obtain ⟨hinteger, rfl⟩ := Writing.of_liftM hn
    obtain ⟨rfl, rfl⟩ := Writing.of_pure h
    exact ⟨rfl, n, hinteger, rfl⟩

/-- What a run over an object leaves at each key, and the runs in between. -/
theorem of_reduce {visit : String → Writing (Option Form)} {name? : Option String}
    {ms : List (String × Json)} {w w' : Written} {f : Form}
    (h : (reduce visit name? ms).run w = some (f, w')) :
    ∃ p w₁ w₂ w₃ w₄ w₅ w₆, f = Parts.form p ∧ (visit "fields").run w = some (p.fields, w₁) ∧
      (visit "items").run w₁ = some (p.items, w₂) ∧
      (nameAt visit ms name?).run w₂ = some (p.name, w₃) ∧
      (visit "order").run w₃ = some (p.order, w₄) ∧
      (numberAt "precision" ms).run w₄ = some (p.precision, w₄) ∧
      (numberAt "scale" ms).run w₄ = some (p.scale, w₄) ∧
      (numberAt "size" ms).run w₄ = some (p.size, w₄) ∧
      (visit "symbols").run w₄ = some (p.symbols, w₅) ∧
      (visit "type").run w₅ = some (p.type, w₆) ∧ (visit "values").run w₆ = some (p.values, w') := by
  rw [reduce] at h
  obtain ⟨fields, w₁, hfields, h⟩ := Writing.of_bind h
  obtain ⟨items, w₂, hitems, h⟩ := Writing.of_bind h
  obtain ⟨name, w₃, hname, h⟩ := Writing.of_bind h
  obtain ⟨order, w₄, horder, h⟩ := Writing.of_bind h
  obtain ⟨precision, w₅, hprecision, h⟩ := Writing.of_bind h
  obtain ⟨rfl, -⟩ := of_numberAt hprecision
  obtain ⟨scale, w₅, hscale, h⟩ := Writing.of_bind h
  obtain ⟨rfl, -⟩ := of_numberAt hscale
  obtain ⟨size, w₅, hsize, h⟩ := Writing.of_bind h
  obtain ⟨rfl, -⟩ := of_numberAt hsize
  obtain ⟨symbols, w₆, hsymbols, h⟩ := Writing.of_bind h
  obtain ⟨type, w₇, htype, h⟩ := Writing.of_bind h
  obtain ⟨values, w₈, hvalues, h⟩ := Writing.of_bind h
  obtain ⟨rfl, rfl⟩ := Writing.of_pure h
  exact ⟨⟨name, type, fields, symbols, items, values, size, order, precision, scale⟩, w₁, w₂, w₃,
    _, w₆, w₇, rfl, hfields, hitems, hname, horder, hprecision, hscale, hsize, hsymbols, htype,
    hvalues⟩

def visitedKeys : List String := ["fields", "items", "order", "symbols", "type", "values"]

/-- One part after the other is written. -/
def Visits (ms : List (String × Json)) : Written → Written → Prop :=
  Relation.ReflTransGen fun w w' =>
    ∃ key ∈ visitedKeys, ∃ part, (canonicalAt key ms).run w = some (part, w')

def Gives (ms : List (String × Json)) (key : String) (part : Option Form) : Prop :=
  ∃ w w', (canonicalAt key ms).run w = some (part, w')

section

variable {ms : List (String × Json)} {key : String} {part : Option Form} {u v w w' : Written}

theorem Gives.of_run (h : (canonicalAt key ms).run w = some (part, w')) : Gives ms key part :=
  ⟨w, w', h⟩

theorem Visits.refl : Visits ms w w := Relation.ReflTransGen.refl

theorem Visits.step (hkey : key ∈ visitedKeys) (huv : Visits ms u v)
    (h : (canonicalAt key ms).run v = some (part, w)) : Visits ms u w := by
  apply huv.tail
  exact ⟨key, hkey, part, h⟩

theorem canonical_unnamed (hname : writtenName? (.object ms) = none) (hsole : soleType? ms = none) :
    canonical (.object ms) = reduce (fun key => canonicalAt key ms) none ms := by
  rw [canonical_object, hname, hsole]
  rfl

theorem canonical_named {name : String} (hname : writtenName? (.object ms) = some name)
    (hsole : soleType? ms = none) : canonical (.object ms) =
      named (some name) (reduce (fun key => canonicalAt key ms) (some name) ms) := by
  rw [canonical_object, hname, hsole]

theorem of_some {x : Json}
    (h : (do return some (← canonical x) : Writing (Option Form)).run w = some (part, w')) :
    ∃ g, part = some g ∧ (canonical x).run w = some (g, w') := by
  obtain ⟨g, v, hg, h⟩ := Writing.of_bind h
  obtain ⟨rfl, rfl⟩ := Writing.of_pure h
  exact ⟨g, rfl, hg⟩

theorem of_some_string {s : String}
    (h : (do return some (← canonical (.string s)) : Writing (Option Form)).run w = some (part, w')) :
    part = some (.string s) ∧ w = w' := by
  obtain ⟨g, hpart, hrun⟩ := of_some h
  obtain ⟨rfl, rfl⟩ := of_string hrun
  exact ⟨hpart, rfl⟩

end

/-- A field whose type is a mention of such a name is taken for a named type itself. -/
def Schema.isWordRef : Schema → Bool
  | .ref name => name ∈ namedWords
  | _ => false

section

variable {w w' : Written} {f : Form} {attributes : Attributes}

theorem Attributes.find?_eq_none {key : String} (hkey : key ∈ typeKeys) :
    Names.find? key attributes.members = none := by
  rw [← Option.not_isSome_iff_eq_none, Names.find?_isSome_iff, List.mem_map]
  rintro ⟨m, hm, rfl⟩
  exact attributes.foreign m hm hkey

theorem Attributes.of_canonicalAt {key : String} {part : Option Form} (hkey : key ∈ typeKeys)
    (h : (canonicalAt key attributes.members).run w = some (part, w')) : part = none ∧ w = w' := by
  rw [canonicalAt_eq, Json.get?, find?_eq_none hkey] at h
  obtain ⟨rfl, rfl⟩ := Writing.of_pure h
  exact ⟨rfl, rfl⟩

theorem of_array {items : Schema}
    (h : (canonical (Schema.array items attributes).toJson).run w = some (f, w')) :
    ∃ p g w₁ w₂, f = Parts.form p ∧ p.name = none ∧
      Gives attributes.members "fields" p.fields ∧ p.items = some g ∧
      Gives attributes.members "values" p.values ∧ Visits attributes.members w w₁ ∧
      (canonical items.toJson).run w₁ = some (g, w₂) ∧ Visits attributes.members w₂ w' := by
  rw [Schema.toJson, canonical_unnamed rfl rfl] at h
  obtain ⟨p, w₁, w₂, w₃, w₄, w₅, w₆, rfl, hfields, hitems, hname, horder, -, -, -, hsymbols, htype,
    hvalues⟩ := of_reduce h
  simp only [List.cons_append, List.nil_append, canonicalAt_cons, String.reduceEq, if_true, if_false,
    nameAt] at hfields hitems hname horder hsymbols htype hvalues
  obtain ⟨g, hg, hrun⟩ := of_some hitems
  obtain ⟨hp, rfl⟩ := Attributes.of_canonicalAt (by decide) hname
  obtain ⟨-, rfl⟩ := of_some_string htype
  have hbefore : Visits attributes.members w w₁ := Visits.refl.step (by decide) hfields
  have hafter : Visits attributes.members w₂ w' :=
    ((Visits.refl.step (by decide) horder).step (by decide) hsymbols).step (by decide) hvalues
  exact ⟨p, g, w₁, w₂, rfl, hp, .of_run hfields, hg, .of_run hvalues, hbefore, hrun, hafter⟩

theorem of_map {values : Schema}
    (h : (canonical (Schema.map values attributes).toJson).run w = some (f, w')) :
    ∃ p g w₁, f = Parts.form p ∧ p.name = none ∧
      Gives attributes.members "fields" p.fields ∧ Gives attributes.members "items" p.items ∧
      p.values = some g ∧ Visits attributes.members w w₁ ∧
      (canonical values.toJson).run w₁ = some (g, w') := by
  rw [Schema.toJson, canonical_unnamed rfl rfl] at h
  obtain ⟨p, w₁, w₂, w₃, w₄, w₅, w₆, rfl, hfields, hitems, hname, horder, -, -, -, hsymbols, htype,
    hvalues⟩ := of_reduce h
  simp only [List.cons_append, List.nil_append, canonicalAt_cons, String.reduceEq, if_true, if_false,
    nameAt] at hfields hitems hname horder hsymbols htype hvalues
  obtain ⟨g, hg, hrun⟩ := of_some hvalues
  obtain ⟨hp, rfl⟩ := Attributes.of_canonicalAt (by decide) hname
  obtain ⟨-, rfl⟩ := of_some_string htype
  have hfirst := Visits.refl.step (by decide) hfields
  have hbefore : Visits attributes.members w w₅ :=
    ((hfirst.step (by decide) hitems).step (by decide) horder).step (by decide) hsymbols
  exact ⟨p, g, w₅, rfl, hp, .of_run hfields, .of_run hitems, hg, hbefore, hrun⟩

theorem of_union {members : List Schema}
    (h : (canonical (Schema.union members).toJson).run w = some (f, w')) :
    ∃ gs, f = .array gs ∧ (canonicalAll (Schema.membersToJson members)).run w = some (gs, w') := by
  rw [Schema.toJson] at h
  exact of_items h

theorem canonicalAt_append {own ms : List (String × Json)} {key : String}
    (h : Names.find? key own = none) : canonicalAt key (own ++ ms) = canonicalAt key ms := by
  simp [canonicalAt_eq, canonicalAt_eq, Json.get?, Json.get?, h]

structure Introduces (own : List (String × Json)) (name : String) : Prop where
  type : ∃ word ∈ namedWords, Names.find? "type" own = some (.string word)
  name : Names.find? "name" own = some (.string name)
  sole : ∀ ms, soleType? (own ++ ms) = none
  space : Names.find? "namespace" own = none
  items : Names.find? "items" own = none
  order : Names.find? "order" own = none
  values : Names.find? "values" own = none

variable {own : List (String × Json)} {name : String}

theorem Introduces.writtenName?_eq (h : Introduces own name) :
    writtenName? (.object (own ++ attributes.members)) = some name := by
  obtain ⟨word, hword, htype⟩ := h.type
  have hspace : Names.find? "namespace" attributes.members = none :=
    Attributes.find?_eq_none (by decide)
  simp [writtenName?, Json.string?, Json.get?, htype, hword, h.name, h.space, hspace,
    Json.asString?]

theorem of_introduces (hown : Introduces own name)
    (h : (canonical (.object (own ++ attributes.members))).run w = some (f, w')) :
    (name ∈ w.names ∧ f = .string name ∧ w = w') ∨
      name ∉ w.names ∧ ∃ p u u' v, f = Parts.form p ∧ p.name = some (.string name) ∧
        (canonicalAt "fields" (own ++ attributes.members)).run (w.enter name) = some (p.fields, u) ∧
        Gives attributes.members "items" p.items ∧ Visits attributes.members u u' ∧
        (numberAt "size" (own ++ attributes.members)).run u' = some (p.size, u') ∧
        (canonicalAt "symbols" (own ++ attributes.members)).run u' = some (p.symbols, v) ∧
        Gives attributes.members "values" p.values ∧ Visits attributes.members v w' := by
  rw [canonical_named hown.writtenName?_eq (hown.sole _)] at h
  obtain hagain | ⟨hfirst, h⟩ := of_named h
  · exact .inl hagain
  obtain ⟨p, w₁, w₂, w₃, w₄, w₅, w₆, rfl, hfields, hitems, hname, horder, -, -, hsize, hsymbols,
    htype, hvalues⟩ := of_reduce h
  obtain ⟨word, -, hword⟩ := hown.type
  obtain ⟨hpname, rfl⟩ := Writing.of_pure hname
  rw [Json.get?, Names.find?_append, hown.name] at hpname
  rw [canonicalAt_append hown.items] at hitems
  rw [canonicalAt_append hown.order] at horder
  rw [canonicalAt_append hown.values] at hvalues
  rw [canonicalAt_eq, Json.get?, Names.find?_append, hword] at htype
  obtain ⟨-, rfl⟩ := of_some_string htype
  have hbetween : Visits attributes.members w₁ w₄ :=
    (Visits.refl.step (by decide) hitems).step (by decide) horder
  have hafter : Visits attributes.members w₅ w' := Visits.refl.step (by decide) hvalues
  exact .inr ⟨hfirst, p, w₁, w₄, w₅, rfl, hpname.symm, hfields, .of_run hitems, hbetween, hsize,
    hsymbols, .of_run hvalues, hafter⟩

structure IsLeaf (own : List (String × Json)) (name : String) : Prop extends Introduces own name where
  fields : Names.find? "fields" own = none
  symbols : Names.find? "symbols" own = none ∨
    ∃ symbols : List String, Names.find? "symbols" own = some (.array (symbols.map .string))

theorem of_canonicalAll_strings {symbols : List String} {gs : List Form}
    (h : (canonicalAll (symbols.map .string)).run w = some (gs, w')) :
    gs = symbols.map .string ∧ w = w' := by
  induction symbols generalizing gs w w' with
  | nil =>
    obtain ⟨rfl, rfl⟩ := Writing.of_pure h
    exact ⟨rfl, rfl⟩
  | cons s symbols ih =>
    obtain ⟨g, rest, v, rfl, hg, hrest⟩ := of_canonicalAll_cons h
    obtain ⟨rfl, rfl⟩ := of_string hg
    obtain ⟨rfl, rfl⟩ := ih hrest
    exact ⟨rfl, rfl⟩

theorem of_symbols {symbols : List String} {ms : List (String × Json)} {part : Option Form}
    (hsymbols : Names.find? "symbols" ms = some (.array (symbols.map .string)))
    (h : (canonicalAt "symbols" ms).run w = some (part, w')) :
    part = some (.array (symbols.map .string)) ∧ w = w' := by
  rw [canonicalAt_eq, Json.get?, hsymbols] at h
  obtain ⟨g, hpart, hrun⟩ := of_some h
  obtain ⟨gs, rfl, hgs⟩ := of_items hrun
  obtain ⟨rfl, rfl⟩ := of_canonicalAll_strings hgs
  exact ⟨hpart, rfl⟩

theorem of_leaf (hown : IsLeaf own name)
    (h : (canonical (.object (own ++ attributes.members))).run w = some (f, w')) :
    (name ∈ w.names ∧ f = .string name ∧ w = w') ∨
      name ∉ w.names ∧ ∃ p, f = Parts.form p ∧ p.name = some (.string name) ∧
        Gives attributes.members "fields" p.fields ∧ Gives attributes.members "items" p.items ∧
        Gives attributes.members "values" p.values ∧ Visits attributes.members (w.enter name) w' := by
  obtain hagain | ⟨hfirst, p, u, u', v, rfl, hname, hfields, hitems, hu, -, hsymbols, hvalues, hv⟩ :=
    of_introduces hown.toIntroduces h
  · exact .inl hagain
  rw [canonicalAt_append hown.fields] at hfields
  have huv : Visits attributes.members u' v := by
    obtain hnone | ⟨symbols, hsome⟩ := hown.symbols
    · rw [canonicalAt_append hnone] at hsymbols
      exact Visits.refl.step (by decide) hsymbols
    · have hat : Names.find? "symbols" (own ++ attributes.members) =
          some (.array (symbols.map .string)) := by rw [Names.find?_append, hsome, Option.some_or]
      obtain ⟨-, rfl⟩ := of_symbols hat hsymbols
      exact .refl
  have hall : Visits attributes.members (w.enter name) w' :=
    (((Visits.refl.step (by decide) hfields).trans hu).trans huv).trans hv
  exact .inr ⟨hfirst, p, rfl, hname, .of_run hfields, hitems, hvalues, hall⟩

theorem isLeaf_fixed (name : String) (size : Nat) : IsLeaf [("type", .string "fixed"),
    ("name", .string name), ("size", integerJson size)] name where
  type := ⟨"fixed", by decide, rfl⟩
  name := rfl
  sole _ := rfl
  space := rfl
  items := rfl
  order := rfl
  values := rfl
  fields := rfl
  symbols := .inl rfl

theorem isLeaf_decimal (name : String) (size precision scale : Nat) :
    IsLeaf [("logicalType", .string "decimal"), ("precision", integerJson precision),
      ("scale", integerJson scale), ("type", .string "fixed"), ("name", .string name),
      ("size", integerJson size)] name where
  type := ⟨"fixed", by decide, rfl⟩
  name := rfl
  sole _ := rfl
  space := rfl
  items := rfl
  order := rfl
  values := rfl
  fields := rfl
  symbols := .inl rfl

theorem isLeaf_enum (name : String) (symbols : List String) : IsLeaf [("type", .string "enum"),
    ("name", .string name), ("symbols", .array (symbols.map .string))] name where
  type := ⟨"enum", by decide, rfl⟩
  name := rfl
  sole _ := rfl
  space := rfl
  items := rfl
  order := rfl
  values := rfl
  fields := rfl
  symbols := .inr ⟨symbols, rfl⟩

theorem of_record {fields : List (FieldHead × Schema)}
    (h : (canonical (Schema.record name fields attributes).toJson).run w = some (f, w')) :
    (name ∈ w.names ∧ f = .string name ∧ w = w') ∨
      name ∉ w.names ∧ ∃ p gs u, f = Parts.form p ∧ p.name = some (.string name) ∧
        p.fields = some (.array gs) ∧
        (canonicalAll (Schema.fieldsToJson fields)).run (w.enter name) = some (gs, u) ∧
        Gives attributes.members "items" p.items ∧ Gives attributes.members "values" p.values ∧
        Visits attributes.members u w' := by
  have hown : Introduces [("type", .string "record"), ("name", .string name),
      ("fields", .array (Schema.fieldsToJson fields))] name := by
    refine ⟨⟨"record", by decide, rfl⟩, rfl, ?_, rfl, rfl, rfl, rfl⟩
    intro _
    rfl
  rw [Schema.toJson] at h
  obtain hagain | ⟨hfirst, p, u, u', v, rfl, hname, hfields, hitems, hu, -, hsymbols, hvalues, hv⟩ :=
    of_introduces hown h
  · exact .inl hagain
  obtain ⟨g, hg, hrun⟩ := of_some hfields
  obtain ⟨gs, rfl, hgs⟩ := of_items hrun
  have hafter := (hu.step (by decide) hsymbols).trans hv
  exact .inr ⟨hfirst, p, gs, _, rfl, hname, hg, hgs, hitems, hvalues, hafter⟩

theorem Schema.asString?_toJson {s : Schema} (hs : s.isWordRef = false) :
    (s.toJson.asString?.any (· ∈ namedWords)) = false := by
  cases s with
  | plain k => cases k <;> rfl
  | ref name => exact hs
  | _ => rfl

theorem of_field {head : FieldHead} {s : Schema} (hs : s.isWordRef = false)
    (h : (canonical (.object ([("name", .string head.name), ("type", s.toJson)] ++
      head.attributes))).run w = some (f, w')) :
    ∃ p g w₁ w₂, f = Parts.form p ∧ p.name = some (.string head.name) ∧ p.type = some g ∧
      Visits head.attributes w w₁ ∧ (canonical s.toJson).run w₁ = some (g, w₂) ∧
      Visits head.attributes w₂ w' := by
  have hunnamed : writtenName? (.object ([("name", .string head.name), ("type", s.toJson)] ++
      head.attributes)) = none := by
    apply if_neg
    rw [Bool.not_eq_true]
    exact Schema.asString?_toJson hs
  rw [canonical_unnamed hunnamed rfl] at h
  obtain ⟨p, w₁, w₂, w₃, w₄, w₅, w₆, rfl, hfields, hitems, hname, horder, -, -, -, hsymbols, htype,
    hvalues⟩ := of_reduce h
  simp only [List.cons_append, List.nil_append, canonicalAt_cons, String.reduceEq, if_true, if_false,
    nameAt] at hfields hitems hname horder hsymbols htype hvalues
  obtain ⟨hpname, rfl⟩ := of_some_string hname
  obtain ⟨g, hg, hrun⟩ := of_some htype
  have hfirst := Visits.refl.step (by decide) hfields
  have hbefore : Visits head.attributes w w₅ :=
    ((hfirst.step (by decide) hitems).step (by decide) horder).step (by decide) hsymbols
  have hafter : Visits head.attributes w₆ w' := Visits.refl.step (by decide) hvalues
  exact ⟨p, g, w₅, w₆, rfl, hpname, hg, hbefore, hrun, hafter⟩

theorem of_bare {ms : List (String × Json)} {x : Json}
    (htype : Names.find? "type" ms = some x) (hx : x.asString?.any (· ∈ namedWords) = false)
    (hsole : soleType? ms = none)
    (hrest : ∀ key ∈ ["name", "fields", "items", "order", "symbols", "values"],
      Names.find? key ms = none)
    (h : (canonical (.object ms)).run w = some (f, w')) :
    ∃ p g, f = Parts.form p ∧ p.name = none ∧ p.fields = none ∧ p.items = none ∧
      p.values = none ∧ (canonical x).run w = some (g, w') := by
  have hunnamed : writtenName? (.object ms) = none := by
    apply if_neg
    rw [Bool.not_eq_true, Json.string?, Json.get?, htype]
    exact hx
  have hskip (key : String)
      (hkey : key ∈ ["name", "fields", "items", "order", "symbols", "values"]) :
      canonicalAt key ms = return none := by
    rw [canonicalAt_eq, Json.get?, hrest key hkey]
  rw [canonical_unnamed hunnamed hsole] at h
  obtain ⟨p, w₁, w₂, w₃, w₄, w₅, w₆, rfl, hfields, hitems, hname, horder, -, -, -, hsymbols, hp,
    hvalues⟩ := of_reduce h
  rw [hskip _ (by simp)] at hfields hitems horder hsymbols hvalues
  rw [nameAt, hskip _ (by simp)] at hname
  obtain ⟨hnofields, rfl⟩ := Writing.of_pure hfields
  obtain ⟨hnoitems, rfl⟩ := Writing.of_pure hitems
  obtain ⟨hnoname, rfl⟩ := Writing.of_pure hname
  obtain ⟨-, rfl⟩ := Writing.of_pure horder
  obtain ⟨-, rfl⟩ := Writing.of_pure hsymbols
  obtain ⟨hnovalues, rfl⟩ := Writing.of_pure hvalues
  rw [canonicalAt_eq, Json.get?, htype] at hp
  obtain ⟨g, -, hrun⟩ := of_some hp
  exact ⟨p, g, rfl, hnoname.symm, hnofields.symm, hnoitems.symm, hnovalues.symm, hrun⟩

def Kind.isDuration (k : Kind) : Bool := k.primitiveName?.isNone && k.carrier?.isNone

theorem Kind.toJson_cases (k : Kind) :
    (∃ name, k.toJson = .string name) ∨
      (∃ type meaning, type ∉ namedWords ∧
        k.toJson = .object [("type", .string type), ("logicalType", .string meaning)]) ∨
      (k.isDuration = true ∧
        k.toJson = .object [("type", durationType), ("logicalType", .string "duration")]) := by
  cases k <;> first
    | exact .inl ⟨_, rfl⟩
    | exact .inr (.inl ⟨_, _, by decide, rfl⟩)
    | exact .inr (.inr ⟨rfl, rfl⟩)

theorem of_plain {k : Kind} (h : (canonical k.toJson).run w = some (f, w')) :
    (∃ name, f = .string name ∧ w = w') ∨
      ∃ p, f = Parts.form p ∧ p.name = none ∧ p.fields = none ∧ p.items = none ∧
        p.values = none ∧ (k.isDuration = false → w = w') := by
  obtain ⟨name, hk⟩ | ⟨type, meaning, htype, hk⟩ | ⟨hduration, hk⟩ := k.toJson_cases
  · rw [hk] at h
    obtain ⟨rfl, rfl⟩ := of_string h
    exact .inl ⟨name, rfl, rfl⟩
  · rw [hk] at h
    have hword : (Json.string type).asString?.any (· ∈ namedWords) = false := by
      simpa [Json.asString?] using htype
    obtain ⟨p, g, rfl, hname, hfields, hitems, hvalues, hrun⟩ :=
      of_bare rfl hword rfl (by simp [Names.find?]) h
    obtain ⟨-, rfl⟩ := of_string hrun
    exact .inr ⟨p, rfl, hname, hfields, hitems, hvalues, fun _ => rfl⟩
  · rw [hk] at h
    obtain ⟨p, g, rfl, hname, hfields, hitems, hvalues, -⟩ :=
      of_bare rfl rfl rfl (by simp [Names.find?]) h
    refine .inr ⟨p, rfl, hname, hfields, hitems, hvalues, ?_⟩
    intro hnot
    rw [hduration] at hnot
    cases hnot

theorem of_decimal_bytes {precision scale : Nat}
    (h : (canonical (.object [("logicalType", .string "decimal"), ("precision", integerJson precision),
      ("scale", integerJson scale), ("type", .string "bytes")])).run w = some (f, w')) :
    ∃ p, f = Parts.form p ∧ p.name = none ∧ p.fields = none ∧ p.items = none ∧ p.values = none ∧
      w = w' := by
  obtain ⟨p, g, rfl, hname, hfields, hitems, hvalues, hrun⟩ :=
    of_bare rfl rfl rfl (by simp [Names.find?]) h
  obtain ⟨-, rfl⟩ := of_string hrun
  exact ⟨p, rfl, hname, hfields, hitems, hvalues, rfl⟩

end

end SchemaEvolution.Avro
