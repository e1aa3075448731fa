import Mathlib.Data.List.Sublists
import SchemaEvolution.Proofs.Avro.Canonical
import SchemaEvolution.Proofs.Avro.Document

namespace SchemaEvolution.Avro

mutual

def Schema.parts : Schema → List Schema
  | .array items attributes => .array items attributes :: items.parts
  | .map values attributes => .map values attributes :: values.parts
  | .union members => .union members :: memberParts members
  | .record name fields attributes => .record name fields attributes :: fieldParts fields
  | s => [s]

def memberParts : List Schema → List Schema
  | [] => []
  | s :: ss => s.parts ++ memberParts ss

def fieldParts : List (FieldHead × Schema) → List Schema
  | [] => []
  | (_, s) :: fs => s.parts ++ fieldParts fs

end

def Schema.declaration? : Schema → Option Declaration
  | .decimal _ _ (.fixed name _ _) | .fixed name _ _ | .enum name _ _ _ => some ⟨name, []⟩
  | .record name fields _ => some ⟨name, fields.map (·.1.name)⟩
  | _ => none

def Schema.isDuration : Schema → Bool
  | .plain k => k.isDuration
  | _ => false

/-- The named types that a schema declares, in their order. -/
def Schema.declared (s : Schema) : List Declaration := s.parts.filterMap Schema.declaration?

inductive Annotates (v : Json) : Schema → Schema → Prop
  | same {s : Schema} : Annotates v s s
  | bytes {precision scale : Nat} (hdigits : decimalDigits? v = some (precision, scale)) :
    Annotates v (.plain .bytes) (.decimal precision scale (.plain .bytes))
  | fixed {precision scale size : Nat} {name : String} {attributes : Attributes}
    (hdigits : decimalDigits? v = some (precision, scale)) :
    Annotates v (.fixed name size attributes)
      (.decimal precision scale (.fixed name size attributes))
  | plain {k meaning : Kind} (hmeaning : (Schema.plain meaning).isDuration = false) :
    Annotates v (.plain k) (.plain meaning)
  | unnamed {k : Kind} {name : String} {size : Nat} {attributes : Attributes} :
    Annotates v (.fixed name size attributes) (.plain k)

theorem annotates_annotate (s : Schema) (logical : String) (v : Json) :
    Annotates v s (s.annotate logical v) := by
  rw [Schema.annotate.eq_def]
  split
  · split
    next h => exact .bytes h
    next => exact .same
  · split
    next h => exact .fixed h
    next => exact .same
  · exact .unnamed
  · exact .unnamed
  · split
    next meaning carrier h =>
      split
      next =>
        obtain ⟨a, ha, heq⟩ := Option.map_eq_some_iff.1 h
        cases heq
        have hnone : ∀ a ∈ Kind.annotated, (Schema.plain a.1).isDuration = false := by decide
        exact .plain (hnone a (List.mem_of_find?_eq_some ha))
      next => exact .same
    next => exact .same
  · exact .same

theorem annotates_annotated (s : Schema) (v : Json) : Annotates v s (s.annotated v) := by
  rw [Schema.annotated]
  split
  · split
    · exact annotates_annotate s _ v
    · exact .same
  · exact .same

/-- Declarations of a document that parts of a schema keep. A duration stands for one that is not
kept. -/
structure KeptFrom (parts : List Schema) (ds : List Declaration) : Prop where
  sublist : (parts.filterMap Schema.declaration?).Sublist ds
  count : (parts.filterMap Schema.declaration?).length + parts.countP Schema.isDuration ≤ ds.length
  simple : ∀ d ∈ ds, ∀ f ∈ d.fields, isSimpleName f.toList

namespace KeptFrom

variable {s : Schema} {ps qs : List Schema} {d : Declaration} {ds es : List Declaration}

theorem nil : KeptFrom [] [] := ⟨.slnil, le_rfl, nofun⟩

theorem append (h : KeptFrom ps ds) (h' : KeptFrom qs es) : KeptFrom (ps ++ qs) (ds ++ es) where
  sublist := List.filterMap_append ▸ h.sublist.append h'.sublist
  count := by
    have hps := h.count
    have hqs := h'.count
    rw [List.filterMap_append, List.length_append, List.countP_append, List.length_append]
    omega
  simple := List.forall_mem_append.2 ⟨h.simple, h'.simple⟩

theorem cons_of_none (hs : s.declaration? = none) (hduration : s.isDuration = false)
    (h : KeptFrom ps ds) : KeptFrom (s :: ps) ds where
  sublist := by
    rw [List.filterMap_cons_none hs]
    exact h.sublist
  count := by
    rw [List.filterMap_cons_none hs, List.countP_cons_of_neg (by rw [hduration]; nofun)]
    exact h.count
  simple := h.simple

theorem cons_of_some (hs : s.declaration? = some d) (hduration : s.isDuration = false)
    (hsimple : ∀ f ∈ d.fields, isSimpleName f.toList) (h : KeptFrom ps ds) :
    KeptFrom (s :: ps) (d :: ds) where
  sublist := by
    rw [List.filterMap_cons_some hs]
    exact h.sublist.cons_cons d
  count := by
    have hps := h.count
    rw [List.filterMap_cons_some hs, List.countP_cons_of_neg (by rw [hduration]; nofun),
      List.length_cons, List.length_cons]
    omega
  simple := List.forall_mem_cons.2 ⟨hsimple, h.simple⟩

theorem annotated {v : Json} {t : Schema} (h : KeptFrom s.parts ds) (ht : Annotates v s t) :
    KeptFrom t.parts ds := by
  cases ht with
  | same => exact h
  | bytes => exact ⟨h.sublist, h.count, h.simple⟩
  | fixed => exact ⟨h.sublist, h.count, h.simple⟩
  | plain hmeaning =>
    exact .cons_of_none rfl hmeaning ⟨h.sublist, Nat.zero_le _, h.simple⟩
  | unnamed =>
    -- The declaration is lost, and the plain type may count as the duration that stands for it.
    have hpos : 1 ≤ ds.length := h.count
    exact ⟨List.nil_sublist ds, (Nat.zero_add _).trans_le (List.countP_le_length.trans hpos),
      h.simple⟩

end KeptFrom

theorem isDuration_of_ofPrimitiveName? {name : String} {k : Kind}
    (h : Kind.ofPrimitiveName? name = some k) : (Schema.plain k).isDuration = false := by
  have hnone : ∀ k ∈ Kind.primitives, (Schema.plain k).isDuration = false := by decide
  exact hnone k (List.mem_of_find?_eq_some h)

mutual

theorem keptFrom_of_reads {place : Place} {space : String} {v : Json} {s : Schema}
    (h : Reads place space v s) : KeptFrom s.parts (declarations place space v) := by
  match h with
  | .primitive hk =>
    rw [declarations]
    · exact .cons_of_none rfl (isDuration_of_ofPrimitiveName? hk) .nil
    all_goals nofun
  | .ref =>
    rw [declarations]
    · exact .cons_of_none rfl rfl .nil
    all_goals nofun
  | .union hmembers =>
    rw [declarations]
    exact .cons_of_none rfl rfl (keptFrom_of_readsAll hmembers)
  | .inner hword htype h =>
    rw [declarations_over hword htype]
    exact (keptFrom_of_reads h).annotated (annotates_annotated _ _)
  | .array hword hitems h =>
    rw [declarations_over hword hitems]
    exact .cons_of_none rfl rfl (keptFrom_of_reads h)
  | .map hword hvalues h =>
    rw [declarations_over hword hvalues]
    exact .cons_of_none rfl rfl (keptFrom_of_reads h)
  | .enum hword hname =>
    rw [declarations_enum hword hname]
    exact .cons_of_some rfl rfl nofun .nil
  | .fixed hword hname hsize =>
    rw [declarations_fixed hword hname]
    refine KeptFrom.annotated ?_ (annotates_annotated _ v)
    exact .cons_of_some rfl rfl nofun .nil
  | .record hword hname hentries hfields =>
    rw [declarations_record hword hname hentries, ← declarationsAll_filter]
    obtain ⟨hnames, hsimple, hkept⟩ :=
      keptFrom_of_readsFields (fun v hv => List.of_mem_filter hv) hfields
    rw [filterMap_name_filter] at hnames
    rw [← hnames]
    exact .cons_of_some rfl rfl hsimple hkept

theorem keptFrom_of_readsAll {space : String} {xs : List Json} {ss : List Schema}
    (h : ReadsAll space xs ss) : KeptFrom (memberParts ss) (declarationsAll .type space xs) := by
  match h with
  | .nil => exact .nil
  | .cons h hs =>
    rw [declarationsAll, if_pos (.inl rfl)]
    exact (keptFrom_of_reads h).append (keptFrom_of_readsAll hs)

theorem keptFrom_of_readsFields {space : String} {vs : List Json} {fs : List (FieldHead × Schema)}
    (hobjects : ∀ v ∈ vs, v.isObject) (h : ReadsFields space vs fs) :
    fs.map (·.1.name) = vs.filterMap (Json.string? "name") ∧
      (∀ f ∈ fs.map (·.1.name), isSimpleName f.toList) ∧
      KeptFrom (fieldParts fs) (declarationsAll .field space vs) := by
  match h with
  | .nil => exact ⟨rfl, nofun, .nil⟩
  | .cons hname hsimple h hs =>
    obtain ⟨hv, hvs⟩ := List.forall_mem_cons.1 hobjects
    obtain ⟨hnames, hsimples, hkept⟩ := keptFrom_of_readsFields hvs hs
    refine ⟨by rw [List.filterMap_cons_some hname, List.map_cons, hnames],
      List.forall_mem_cons.2 ⟨hsimple, hsimples⟩, ?_⟩
    rw [declarationsAll, if_pos (.inr hv)]
    exact (keptFrom_of_reads h).append hkept

end

end SchemaEvolution.Avro
