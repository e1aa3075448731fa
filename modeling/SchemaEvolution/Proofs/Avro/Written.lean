import SchemaEvolution.Proofs.Avro.Formed
import SchemaEvolution.Proofs.Avro.Quiet

namespace SchemaEvolution.Avro

mutual

def Schema.written : Schema → Form → List Declaration
  | .array items _, f => items.written (f.part "items")
  | .map values _, f => values.written (f.part "values")
  | .union members, f => writtenMembers members f.items
  | .record name fields _, f =>
    f.ifNamed [] (⟨name, fields.map (·.1.name)⟩ :: writtenFields fields (f.part "fields").items)
  | s, f => f.ifNamed [] s.declaration?.toList

def writtenMembers : List Schema → List Form → List Declaration
  | s :: ss, f :: fs => s.written f ++ writtenMembers ss fs
  | _, _ => []

def writtenFields : List (FieldHead × Schema) → List Form → List Declaration
  | (_, s) :: fields, f :: fs => s.written (f.part "type") ++ writtenFields fields fs
  | _, _ => []

end

theorem ifNamed_sublist {f : Form} {ds es : List Declaration} (h : es.Sublist ds) :
    (f.ifNamed [] es).Sublist ds := by
  cases f with
  | string => exact List.nil_sublist ds
  | _ => exact h

mutual

theorem written_sublist (s : Schema) (f : Form) : (s.written f).Sublist s.declared := by
  match s with
  | .array items _ => exact written_sublist items _
  | .map values _ => exact written_sublist values _
  | .union members => exact writtenMembers_sublist members _
  | .record name fields _ =>
    exact ifNamed_sublist ((writtenFields_sublist fields _).cons_cons _)
  | .decimal _ _ carrier =>
    cases carrier with
    | fixed => exact ifNamed_sublist (.refl _)
    | _ => exact ifNamed_sublist (.refl [])
  | .fixed .. | .enum .. => exact ifNamed_sublist (.refl _)
  | .plain _ | .ref _ => exact ifNamed_sublist (.refl [])

theorem writtenMembers_sublist (ss : List Schema) (fs : List Form) :
    (writtenMembers ss fs).Sublist ((memberParts ss).filterMap Schema.declaration?) := by
  match ss, fs with
  | [], _ => exact .slnil
  | _ :: _, [] => exact List.nil_sublist _
  | s :: ss, f :: fs =>
    rw [memberParts, List.filterMap_append]
    exact (written_sublist s f).append (writtenMembers_sublist ss fs)

theorem writtenFields_sublist (fields : List (FieldHead × Schema)) (fs : List Form) :
    (writtenFields fields fs).Sublist ((fieldParts fields).filterMap Schema.declaration?) := by
  match fields, fs with
  | [], _ => exact .slnil
  | _ :: _, [] => exact List.nil_sublist _
  | (_, s) :: fields, f :: fs =>
    rw [fieldParts, List.filterMap_append]
    exact (written_sublist s _).append (writtenFields_sublist fields fs)

end

/-- The parts of a schema name their declarations apart from each other and from what was written
before, and no part is a duration. -/
structure Fresh (w : Written) (parts : List Schema) : Prop where
  nodup : ((parts.filterMap Schema.declaration?).map Declaration.name).Nodup
  notMem : ∀ d ∈ parts.filterMap Schema.declaration?, d.name ∉ w.names
  notDuration : ∀ s ∈ parts, s.isDuration = false

namespace Fresh

variable {w w' : Written} {s : Schema} {ps qs : List Schema} {d : Declaration}

theorem left (h : Fresh w (ps ++ qs)) : Fresh w ps where
  nodup := by
    have hnodup := h.nodup
    rw [List.filterMap_append, List.map_append] at hnodup
    exact (List.nodup_append.1 hnodup).1
  notMem d hd := h.notMem d (List.filterMap_append ▸ List.mem_append_left _ hd)
  notDuration s hs := h.notDuration s (List.mem_append_left _ hs)

theorem right (h : Fresh w (ps ++ qs)) (hw : ∀ n ∈ w'.names, n ∈ w.names ∨
    n ∈ (ps.filterMap Schema.declaration?).map Declaration.name) : Fresh w' qs := by
  have hnodup := h.nodup
  rw [List.filterMap_append, List.map_append] at hnodup
  obtain ⟨-, hqs, hdisjoint⟩ := List.nodup_append.1 hnodup
  refine ⟨hqs, ?_, fun s hs => h.notDuration s (List.mem_append_right _ hs)⟩
  intro d hd hmem
  obtain hmem | hmem := hw _ hmem
  · exact h.notMem d (List.filterMap_append ▸ List.mem_append_right _ hd) hmem
  · exact hdisjoint _ hmem _ (List.mem_map_of_mem hd) rfl

theorem tail (h : Fresh w (s :: ps)) : Fresh w ps := by
  apply @right w w [s] ps h
  intro _ hn
  exact .inl hn

theorem enter (h : Fresh w (s :: ps)) (hs : s.declaration? = some d) :
    d.name ∉ w.names ∧ Fresh (w.enter d.name) ps := by
  have hd : [s].filterMap Schema.declaration? = [d] := List.filterMap_cons_some hs
  refine ⟨h.notMem d (List.mem_filterMap.2 ⟨s, .head _, hs⟩), @right w _ [s] ps h ?_⟩
  intro n hn
  rw [hd]
  apply (List.mem_cons.1 hn).symm.imp_right
  intro hn
  exact List.mem_singleton.2 hn

end Fresh

def WrittenAfter (w w' : Written) (ds : List Declaration) : Prop :=
  ∀ n ∈ w'.names, n ∈ w.names ∨ n ∈ ds.map Declaration.name

namespace WrittenAfter

variable {w w' w'' : Written} {ds es : List Declaration}

theorem refl (w : Written) : WrittenAfter w w ds := by
  intro _ hn
  exact .inl hn

theorem trans (h : WrittenAfter w w' ds) (h' : WrittenAfter w' w'' es) :
    WrittenAfter w w'' (ds ++ es) := by
  intro n hn
  rw [List.map_append, List.mem_append]
  obtain hn | hn := h' n hn
  · exact (h n hn).imp_right .inl
  · exact .inr (.inr hn)

theorem enter (w : Written) (d : Declaration) : WrittenAfter w (w.enter d.name) [d] := by
  intro _ hn
  apply (List.mem_cons.1 hn).symm.imp_right
  intro hn
  exact List.mem_singleton.2 hn

end WrittenAfter

theorem written_leaf {own : List (String × Json)} {attributes : Attributes} {name : String}
    {w w' : Written} {f : Form} (hown : IsLeaf own name) (hname : name ∉ w.names)
    (hsilent : silentMembers attributes.members)
    (h : (canonical (.object (own ++ attributes.members))).run w = some (f, w')) :
    f.ifNamed [] [⟨name, []⟩] = [(⟨name, []⟩ : Declaration)] ∧ WrittenAfter w w' [⟨name, []⟩] := by
  obtain ⟨hagain, -⟩ | ⟨-, p, rfl, -, -, -, -, hvisits⟩ := of_leaf hown h
  · exact absurd hagain hname
  · rw [← hvisits.eq hsilent]
    exact ⟨Form.ifNamed_form _ _ p, .enter w ⟨name, []⟩⟩

mutual

/-- Each declaration is written at its only place. -/
theorem written_eq_declared {w w' : Written} {s : Schema} {f : Form} (hs : Fresh w s.parts)
    (hquiet : s.Quiet) (h : (canonical s.toJson).run w = some (f, w')) :
    s.written f = s.declared ∧ WrittenAfter w w' s.declared := by
  match s with
  | .plain k =>
    have hduration : k.isDuration = false := hs.notDuration _ (.head _)
    obtain ⟨name, rfl, rfl⟩ | ⟨p, rfl, -, -, -, -, hsame⟩ := of_plain h
    · exact ⟨rfl, .refl w⟩
    · rw [← hsame hduration]
      exact ⟨rfl, .refl w⟩
  | .decimal precision scale carrier =>
    cases carrier with
    | fixed name size attributes =>
      exact written_leaf (isLeaf_decimal name size precision scale) (hs.enter rfl).1
        (hquiet _ (.head _)) h
    | _ =>
      obtain ⟨p, rfl, -, -, -, -, rfl⟩ := of_decimal_bytes h
      exact ⟨rfl, .refl w⟩
  | .fixed name size _ =>
    exact written_leaf (isLeaf_fixed name size) (hs.enter rfl).1 (hquiet _ (.head _)) h
  | .enum name symbols _ _ =>
    exact written_leaf (isLeaf_enum name symbols) (hs.enter rfl).1 (hquiet _ (.head _)) h
  | .array items attributes =>
    obtain ⟨hsilent, hitems⟩ := List.forall_mem_cons.1 hquiet
    obtain ⟨p, g, w₁, w₂, rfl, -, -, hg, -, hbefore, hrun, hafter⟩ := of_array h
    rw [hbefore.eq hsilent, ← hafter.eq hsilent, Schema.written, Form.part, Parts.get?_items, hg]
    exact written_eq_declared (s := items) (hbefore.eq hsilent ▸ hs.tail) hitems hrun
  | .map values attributes =>
    obtain ⟨hsilent, hvalues⟩ := List.forall_mem_cons.1 hquiet
    obtain ⟨p, g, w₁, rfl, -, -, -, hg, hbefore, hrun⟩ := of_map h
    rw [hbefore.eq hsilent, Schema.written, Form.part, Parts.get?_values, hg]
    exact written_eq_declared (s := values) (hbefore.eq hsilent ▸ hs.tail) hvalues hrun
  | .union members =>
    obtain ⟨-, hmembers⟩ := List.forall_mem_cons.1 hquiet
    obtain ⟨gs, rfl, hgs⟩ := of_union h
    exact writtenMembers_eq_declared hs.tail hmembers hgs
  | .record name fields attributes =>
    obtain ⟨hsilent, hfields⟩ := List.forall_mem_cons.1 hquiet
    obtain ⟨hsilent, hheads⟩ := Bool.and_eq_true_iff.1 hsilent
    obtain ⟨hname, hfresh⟩ := hs.enter rfl
    obtain ⟨hagain, -⟩ | ⟨-, p, gs, u, rfl, -, hg, hgs, -, -, hvisits⟩ := of_record h
    · exact absurd hagain hname
    · obtain ⟨hwritten, hafter⟩ :=
        writtenFields_eq_declared hfresh (List.all_eq_true.1 hheads) hfields hgs
      rw [← hvisits.eq hsilent, Schema.written, Form.ifNamed_form, Form.part, Parts.get?_fields, hg]
      refine ⟨?_, (WrittenAfter.enter w ⟨name, fields.map (·.1.name)⟩).trans hafter⟩
      exact congrArg _ hwritten
  | .ref name =>
    obtain ⟨rfl, rfl⟩ := of_string h
    exact ⟨rfl, .refl w⟩

theorem writtenMembers_eq_declared {w w' : Written} {ss : List Schema} {fs : List Form}
    (hss : Fresh w (memberParts ss)) (hquiet : ∀ t ∈ memberParts ss, t.keepsSilent)
    (h : (canonicalAll (Schema.membersToJson ss)).run w = some (fs, w')) :
    writtenMembers ss fs = (memberParts ss).filterMap Schema.declaration? ∧
      WrittenAfter w w' ((memberParts ss).filterMap Schema.declaration?) := by
  match ss with
  | [] =>
    obtain ⟨rfl, rfl⟩ := Writing.of_pure h
    exact ⟨rfl, .refl w⟩
  | s :: ss =>
    obtain ⟨hs, hrest⟩ := List.forall_mem_append.1 hquiet
    obtain ⟨g, gs, u, rfl, hg, hgs⟩ := of_canonicalAll_cons h
    obtain ⟨hwritten, hafter⟩ := written_eq_declared hss.left hs hg
    obtain ⟨hwrittens, hafters⟩ := writtenMembers_eq_declared (hss.right hafter) hrest hgs
    rw [memberParts, List.filterMap_append, writtenMembers, hwritten, hwrittens]
    exact ⟨rfl, hafter.trans hafters⟩

theorem writtenFields_eq_declared {w w' : Written} {fields : List (FieldHead × Schema)}
    {fs : List Form} (hfresh : Fresh w (fieldParts fields))
    (hheads : ∀ f ∈ fields, silentMembers f.1.attributes && !f.2.isWordRef)
    (hquiet : ∀ t ∈ fieldParts fields, t.keepsSilent)
    (h : (canonicalAll (Schema.fieldsToJson fields)).run w = some (fs, w')) :
    writtenFields fields fs = (fieldParts fields).filterMap Schema.declaration? ∧
      WrittenAfter w w' ((fieldParts fields).filterMap Schema.declaration?) := by
  match fields with
  | [] =>
    obtain ⟨rfl, rfl⟩ := Writing.of_pure h
    exact ⟨rfl, .refl w⟩
  | (head, s) :: fields =>
    obtain ⟨hs, hrest⟩ := List.forall_mem_append.1 hquiet
    obtain ⟨hhead, hheads⟩ := List.forall_mem_cons.1 hheads
    obtain ⟨hsilent, hword⟩ := Bool.and_eq_true_iff.1 hhead
    obtain ⟨g, gs, u, rfl, hg, hgs⟩ := of_canonicalAll_cons h
    rw [Bool.not_eq_true'] at hword
    obtain ⟨p, t, w₁, w₂, rfl, -, ht, hbefore, hrun, hafter⟩ := of_field hword hg
    have hstart := hbefore.eq hsilent
    have hend := hafter.eq hsilent
    subst hstart hend
    obtain ⟨hwritten, hafter⟩ := written_eq_declared hfresh.left hs hrun
    obtain ⟨hwrittens, hafters⟩ :=
      writtenFields_eq_declared (hfresh.right hafter) hheads hrest hgs
    rw [fieldParts, List.filterMap_append, writtenFields, Form.part, Parts.get?_type, ht,
      Option.getD_some, hwritten, hwrittens]
    exact ⟨rfl, hafter.trans hafters⟩

end

end SchemaEvolution.Avro
