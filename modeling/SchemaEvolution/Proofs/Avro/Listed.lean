import SchemaEvolution.Proofs.Avro.Written

namespace SchemaEvolution.Avro

structure Lists (l : Listing) (ds : List Declaration) : Prop where
  types : ∀ t, t ∈ l.types ↔ ∃ d ∈ ds, d.name = t
  fields : ∀ x, x ∈ l.fields ↔ ∃ d ∈ ds, ∃ f ∈ d.fields, d.name ++ "." ++ f = x

namespace Lists

variable {l l' : Listing} {ds es : List Declaration}

theorem nil : Lists ∅ [] := ⟨by simp, by simp⟩

theorem append (h : Lists l ds) (h' : Lists l' es) : Lists (l ++ l') (ds ++ es) where
  types t := by simp [h.types, h'.types, or_and_right, exists_or]
  fields x := by simp [h.fields, h'.fields, or_and_right, exists_or]

theorem singleton (name : String) : Lists ⟨[name], []⟩ [⟨name, []⟩] where
  types t := by simp [eq_comm]
  fields x := by simp

theorem field {owner name : String} {names : List String} (h : Lists l ds)
    (hrest : Lists (⟨[owner], []⟩ ++ l') (⟨owner, names⟩ :: es)) :
    Lists (⟨[owner], [owner ++ "." ++ name]⟩ ++ l ++ l') (⟨owner, name :: names⟩ :: (ds ++ es)) where
  types t := by
    have hds := h.types t
    have hes := hrest.types t
    simp only [Listing.types_append, List.cons_append, List.nil_append, List.mem_cons,
      exists_eq_or_imp, List.mem_append] at hds hes ⊢
    grind
  fields x := by
    have hds := h.fields x
    have hes := hrest.fields x
    simp only [Listing.fields_append, List.cons_append, List.nil_append, List.mem_cons,
      exists_eq_or_imp, List.mem_append] at hds hes ⊢
    grind

end Lists

theorem lists_leaf {own : List (String × Json)} {attributes : Attributes} {name : String}
    {w w' : Written} {f : Form} (hown : IsLeaf own name)
    (hsilent : silentMembers attributes.members)
    (h : (canonical (.object (own ++ attributes.members))).run w = some (f, w')) :
    Lists (f.listing .type) (f.ifNamed [] [⟨name, []⟩]) := by
  obtain ⟨-, rfl, -⟩ | ⟨-, p, rfl, hname, hfields, hitems, hvalues, -⟩ := of_leaf hown h
  · simp [Lists.nil]
  · have hlisting : p.form.listing .type = ⟨[name], []⟩ := by
      simp [hname, hfields.listing_eq (by decide) hsilent, hitems.listing_eq (by decide) hsilent,
        hvalues.listing_eq (by decide) hsilent]
    rw [hlisting, Form.ifNamed_form]
    exact .singleton name

theorem lists_bare {p : Parts} (hname : p.name = none) (hfields : p.fields = none)
    (hitems : p.items = none) (hvalues : p.values = none) : Lists (p.form.listing .type) [] := by
  simp [hname, hfields, hitems, hvalues, Lists.nil]

mutual

theorem lists_canonical {w w' : Written} {s : Schema} {f : Form} (hquiet : s.Quiet)
    (h : (canonical s.toJson).run w = some (f, w')) :
    Lists (f.listing .type) (s.written f) := by
  match s with
  | .plain k =>
    obtain ⟨name, rfl, -⟩ | ⟨p, rfl, hname, hfields, hitems, hvalues, -⟩ := of_plain h
    · simp [Schema.written, Lists.nil]
    · exact lists_bare hname hfields hitems hvalues
  | .decimal precision scale carrier =>
    cases carrier with
    | fixed name size attributes =>
      exact lists_leaf (isLeaf_decimal name size precision scale) (hquiet _ (.head _)) h
    | _ =>
      obtain ⟨p, rfl, hname, hfields, hitems, hvalues, -⟩ := of_decimal_bytes h
      exact lists_bare hname hfields hitems hvalues
  | .fixed name size _ => exact lists_leaf (isLeaf_fixed name size) (hquiet _ (.head _)) h
  | .enum name symbols _ _ => exact lists_leaf (isLeaf_enum name symbols) (hquiet _ (.head _)) h
  | .array items attributes =>
    obtain ⟨hsilent, hitems⟩ := List.forall_mem_cons.1 hquiet
    obtain ⟨p, g, w₁, w₂, rfl, hname, hfields, hg, hvalues, -, hrun, -⟩ := of_array h
    have hlisting : p.form.listing .type = g.listing .type := by
      simp [hname, hg, hfields.listing_eq (by decide) hsilent,
        hvalues.listing_eq (by decide) hsilent]
    rw [hlisting, Schema.written, Form.part, Parts.get?_items, hg]
    exact lists_canonical hitems hrun
  | .map values attributes =>
    obtain ⟨hsilent, hvalues⟩ := List.forall_mem_cons.1 hquiet
    obtain ⟨p, g, w₁, rfl, hname, hfields, hitems, hg, -, hrun⟩ := of_map h
    have hlisting : p.form.listing .type = g.listing .type := by
      simp [hname, hg, hfields.listing_eq (by decide) hsilent,
        hitems.listing_eq (by decide) hsilent]
    rw [hlisting, Schema.written, Form.part, Parts.get?_values, hg]
    exact lists_canonical hvalues hrun
  | .union members =>
    obtain ⟨-, hmembers⟩ := List.forall_mem_cons.1 hquiet
    obtain ⟨gs, rfl, hgs⟩ := of_union h
    rw [Form.listing_type_array]
    exact lists_canonicalMembers hmembers hgs
  | .record name fields attributes =>
    obtain ⟨hsilent, hfields⟩ := List.forall_mem_cons.1 hquiet
    obtain ⟨hsilent, hheads⟩ := Bool.and_eq_true_iff.1 hsilent
    obtain ⟨-, rfl, -⟩ | ⟨-, p, gs, u, rfl, hname, hg, hgs, hitems, hvalues, -⟩ := of_record h
    · simp [Schema.written, Lists.nil]
    · have hlisting : p.form.listing .type =
          ⟨[name], []⟩ ++ Form.listingAll (.field (some name)) gs := by
        simp [hname, hg, hitems.listing_eq (by decide) hsilent,
          hvalues.listing_eq (by decide) hsilent]
      rw [hlisting, Schema.written, Form.ifNamed_form, Form.part, Parts.get?_fields, hg]
      exact lists_canonicalFields name (List.all_eq_true.1 hheads) hfields hgs
  | .ref name =>
    obtain ⟨rfl, -⟩ := of_string h
    simp [Schema.written, Lists.nil]

theorem lists_canonicalMembers {w w' : Written} {ss : List Schema} {fs : List Form}
    (hquiet : ∀ t ∈ memberParts ss, t.keepsSilent)
    (h : (canonicalAll (Schema.membersToJson ss)).run w = some (fs, w')) :
    Lists (Form.listingAll .type fs) (writtenMembers ss fs) := by
  match ss with
  | [] =>
    obtain ⟨rfl, -⟩ := Writing.of_pure h
    exact .nil
  | s :: ss =>
    obtain ⟨hs, hrest⟩ := List.forall_mem_append.1 hquiet
    obtain ⟨g, gs, u, rfl, hg, hgs⟩ := of_canonicalAll_cons h
    exact (lists_canonical hs hg).append (lists_canonicalMembers hrest hgs)

theorem lists_canonicalFields {w w' : Written} {fields : List (FieldHead × Schema)}
    {fs : List Form} (owner : String)
    (hheads : ∀ f ∈ fields, silentMembers f.1.attributes && !f.2.isWordRef)
    (hquiet : ∀ t ∈ fieldParts fields, t.keepsSilent)
    (h : (canonicalAll (Schema.fieldsToJson fields)).run w = some (fs, w')) :
    Lists (⟨[owner], []⟩ ++ Form.listingAll (.field (some owner)) fs)
      (⟨owner, fields.map (·.1.name)⟩ :: writtenFields fields fs) := by
  match fields with
  | [] =>
    obtain ⟨rfl, -⟩ := Writing.of_pure h
    exact .singleton owner
  | (head, s) :: fields =>
    obtain ⟨hs, hrest⟩ := List.forall_mem_append.1 hquiet
    obtain ⟨hhead, hheads⟩ := List.forall_mem_cons.1 hheads
    obtain ⟨-, hword⟩ := Bool.and_eq_true_iff.1 hhead
    obtain ⟨g, gs, u, rfl, hg, hgs⟩ := of_canonicalAll_cons h
    rw [Bool.not_eq_true'] at hword
    obtain ⟨p, t, w₁, w₂, rfl, hname, ht, -, hrun, -⟩ := of_field hword hg
    have hlisting : p.form.listing (.field (some owner)) =
        ⟨[], [owner ++ "." ++ head.name]⟩ ++ t.listing .type := by simp [hname, ht]
    rw [Form.listingAll, hlisting, writtenFields, Form.part, Parts.get?_type, ht,
      Option.getD_some]
    exact (lists_canonical hs hrun).field (lists_canonicalFields owner hheads hrest hgs)

end

end SchemaEvolution.Avro
