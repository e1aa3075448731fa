import SchemaEvolution.Proofs.Protobuf.Order
import SchemaEvolution.Protobuf.Build

/-!
What a set has to contain. The search for missing references builds its own list of full names, so it
is read here against what the files declare: which references it looks at, and which it leaves to the
linker.
-/

namespace SchemaEvolution.Protobuf

inductive MessagePath : List MessageDecl → List String → MessageDecl → Prop
  | top {ms : List MessageDecl} {m : MessageDecl} : m ∈ ms → MessagePath ms [m.name] m
  | inside {ms : List MessageDecl} {outer m : MessageDecl} {path : List String} :
    outer ∈ ms → MessagePath outer.nested path m → MessagePath ms (outer.name :: path) m

def dotted : List String → String
  | [] => ""
  | name :: names => "." ++ name ++ dotted names

namespace FileDecl

def reference (f : FileDecl) (path : List String) : String := rootScope f.package ++ dotted path

/-- A message or an enum of the file that a reference by full name leads to. -/
inductive Declares (f : FileDecl) : String → Prop
  | message {path : List String} {m : MessageDecl} :
    MessagePath f.messages path m → f.Declares (f.reference path)
  | enum {e : EnumDecl} : e ∈ f.enums → f.Declares (f.reference [e.name])
  | nestedEnum {path : List String} {m : MessageDecl} {e : EnumDecl} :
    MessagePath f.messages path m → e ∈ m.enums → f.Declares (f.reference (path ++ [e.name]))

end FileDecl

/-- A reference by full name to nothing in the set. -/
def Dangling (files : List FileDecl) (reference : String) : Prop :=
  (∃ full, reference = "." ++ full) ∧ ∀ f ∈ files, ¬ f.Declares reference

/-- An import, a field of a message or a method that leads out of the set. -/
inductive Gap (files : List FileDecl) : Prop
  | imported {f : FileDecl} {d : String} :
    f ∈ files → d ∈ f.imports → (∀ g ∈ files, g.name ≠ d) → Gap files
  | field {f : FileDecl} {path : List String} {m : MessageDecl} {x : FieldDecl} :
    f ∈ files → MessagePath f.messages path m → x ∈ m.fields → Dangling files x.typeName →
      Gap files
  | method {f : FileDecl} {s : ServiceDecl} {x : MethodDecl} :
    f ∈ files → s ∈ f.services → x ∈ s.methods →
      Dangling files x.input ∨ Dangling files x.output → Gap files

inductive FileDecl.Extends (f : FileDecl) : FieldDecl → Prop
  | top {x : FieldDecl} : x ∈ f.extensions → f.Extends x
  | nested {path : List String} {m : MessageDecl} {x : FieldDecl} :
    MessagePath f.messages path m → x ∈ m.extensions → f.Extends x

/-- An extension whose type or extendee is not in the set. -/
def ExtensionGap (files : List FileDecl) : Prop :=
  ∃ f ∈ files, ∃ x, f.Extends x ∧ (Dangling files x.typeName ∨ Dangling files x.extendee)

theorem MessagePath.cons {m n : MessageDecl} {ms : List MessageDecl} {path : List String}
    (h : MessagePath ms path n) : MessagePath (m :: ms) path n := by
  cases h with
  | top hm => exact .top (.tail m hm)
  | inside hm hn => exact .inside (.tail m hm) hn

@[simp] theorem dotted_append (path : List String) (name : String) :
    dotted (path ++ [name]) = dotted path ++ "." ++ name := by
  induction path with
  | nil => simp [dotted]
  | cons n path ih => simp only [List.cons_append, dotted, ih, String.append_assoc]

@[simp] theorem MessageDecl.mem_named {scope : String} {m : MessageDecl}
    {x : String × MessageDecl} : x ∈ m.named scope ↔
      x ∈ namedAll (scope ++ "." ++ m.name) m.nested ∨ x = (scope ++ "." ++ m.name, m) := by
  cases m
  rw [named, List.mem_append, List.mem_singleton]

@[simp] theorem mem_namedAll {scope : String} {ms : List MessageDecl} {x : String × MessageDecl} :
    x ∈ namedAll scope ms ↔ ∃ m ∈ ms, x ∈ m.named scope := by
  induction ms with
  | nil => simp [namedAll]
  | cons m ms ih => rw [namedAll, List.mem_append, ih, List.exists_mem_cons_iff]

mutual

theorem MessageDecl.exists_path_of_mem_named {scope : String} {x : String × MessageDecl}
    (m : MessageDecl) (h : x ∈ m.named scope) {ms : List MessageDecl} (hm : m ∈ ms) :
    ∃ path, MessagePath ms path x.2 ∧ x.1 = scope ++ dotted path := by
  cases m with
  | mk name fields nested =>
    rw [MessageDecl.mem_named] at h
    obtain h | rfl := h
    · obtain ⟨path, hpath, hx⟩ := exists_path_of_mem_namedAll nested h
      exact ⟨_, .inside hm hpath, by rw [hx]; simp only [dotted, String.append_assoc]⟩
    · exact ⟨_, .top hm, by simp [dotted, String.append_assoc]⟩

theorem exists_path_of_mem_namedAll {scope : String} {x : String × MessageDecl}
    (ms : List MessageDecl) (h : x ∈ namedAll scope ms) :
    ∃ path, MessagePath ms path x.2 ∧ x.1 = scope ++ dotted path := by
  match ms with
  | [] => cases h
  | m :: ms =>
    rw [namedAll, List.mem_append] at h
    obtain h | h := h
    · exact m.exists_path_of_mem_named h (.head ms)
    · obtain ⟨path, hpath, hx⟩ := exists_path_of_mem_namedAll ms h
      exact ⟨path, hpath.cons, hx⟩

end

theorem MessagePath.mem_namedAll {ms : List MessageDecl} {path : List String} {m : MessageDecl}
    (h : MessagePath ms path m) (scope : String) : (scope ++ dotted path, m) ∈ namedAll scope ms := by
  induction h generalizing scope with
  | top hm =>
    refine Protobuf.mem_namedAll.2 ⟨_, hm, MessageDecl.mem_named.2 (.inr ?_)⟩
    simp [dotted, String.append_assoc]
  | inside hm _ ih =>
    refine Protobuf.mem_namedAll.2 ⟨_, hm, MessageDecl.mem_named.2 (.inl ?_)⟩
    simpa only [dotted, String.append_assoc] using ih (scope ++ "." ++ _)

theorem FileDecl.mem_namedMessages {f : FileDecl} {x : String × MessageDecl} :
    x ∈ f.namedMessages ↔ ∃ path, MessagePath f.messages path x.2 ∧ x.1 = f.reference path := by
  constructor
  · exact exists_path_of_mem_namedAll f.messages
  · rintro ⟨path, hpath, hx⟩
    have h := hpath.mem_namedAll (rootScope f.package)
    rwa [← reference, ← hx] at h

@[simp] theorem FileDecl.reference_singleton (f : FileDecl) (name : String) :
    f.reference [name] = rootScope f.package ++ "." ++ name := by
  simp [reference, dotted, String.append_assoc]

@[simp] theorem FileDecl.reference_append (f : FileDecl) (path : List String) (name : String) :
    f.reference (path ++ [name]) = f.reference path ++ "." ++ name := by
  simp [reference, String.append_assoc]

theorem mem_declaredTypes {files : List FileDecl} {reference : String} :
    reference ∈ declaredTypes files ↔ ∃ f ∈ files, f.Declares reference := by
  simp only [declaredTypes, List.mem_append, List.mem_flatMap, List.mem_cons, List.mem_map,
    FileDecl.namedEnums, ← FileDecl.reference_singleton]
  constructor
  · rintro (⟨f, hf, e, he, rfl⟩ | ⟨x, ⟨f, hf, hx⟩, h⟩)
    · exact ⟨f, hf, .enum he⟩
    · obtain ⟨path, hpath, hx⟩ := FileDecl.mem_namedMessages.1 hx
      obtain rfl | ⟨e, he, rfl⟩ := h
      · exact ⟨f, hf, hx ▸ .message hpath⟩
      · rw [hx, ← FileDecl.reference_append]
        exact ⟨f, hf, .nestedEnum hpath he⟩
  · rintro ⟨f, hf, h⟩
    have hnamed {path : List String} {m : MessageDecl} (hpath : MessagePath f.messages path m) :
        ∃ g ∈ files, (f.reference path, m) ∈ g.namedMessages :=
      ⟨f, hf, FileDecl.mem_namedMessages.2 ⟨path, hpath, rfl⟩⟩
    cases h with
    | @message path m hpath => exact .inr ⟨(f.reference path, m), hnamed hpath, .inl rfl⟩
    | enum he => exact .inl ⟨f, hf, _, he, rfl⟩
    | @nestedEnum path m e hpath he =>
      exact .inr ⟨(f.reference path, m), hnamed hpath, .inr ⟨e, he, (f.reference_append _ _).symm⟩⟩

theorem isGlobal_iff {reference : String} : isGlobal reference ↔ ∃ full, reference = "." ++ full := by
  rw [isGlobal, beq_iff_eq]
  constructor
  · intro h
    obtain ⟨cs, hcs⟩ := List.head?_eq_some_iff.1 h
    exact ⟨String.ofList cs, String.toList_inj.1 (by simp [hcs])⟩
  · rintro ⟨full, rfl⟩
    simp

@[simp] theorem isUnresolved_iff {files : List FileDecl} {reference : String} :
    isUnresolved (declaredTypes files) reference ↔ Dangling files reference := by
  rw [isUnresolved, Bool.and_eq_true, isGlobal_iff, Dangling, Bool.not_eq_true',
    List.contains_eq_mem, decide_eq_false_iff_not, mem_declaredTypes]
  simp only [not_exists, not_and]

theorem missingReference?_ne_none_iff {files : List FileDecl} :
    missingReference? files ≠ none ↔ Gap files := by
  simp only [ne_eq, missingReference?_eq_none_iff, isUnresolved_iff, List.mem_flatMap]
  constructor
  · intro h
    by_contra hgap
    refine h ⟨?_, ?_,
      ?_⟩
    · intro f hf d hd
      by_contra hd'
      exact hgap (.imported hf hd fun g hg hname => hd' (hname ▸ List.mem_map_of_mem hg))
    · rintro x ⟨f, hf, hx⟩ y hy hdangling
      obtain ⟨path, hpath, -⟩ := FileDecl.mem_namedMessages.1 hx
      exact hgap (.field hf hpath hy hdangling)
    · rintro x ⟨s, ⟨f, hf, hs⟩, hx⟩ reference hr hdangling
      refine hgap (.method hf hs hx ?_)
      simp only [List.mem_cons, List.not_mem_nil, or_false] at hr
      obtain rfl | rfl := hr
      · exact .inl hdangling
      · exact .inr hdangling
  · rintro h ⟨himports, hfields, hmethods⟩
    cases h with
    | imported hf hd habsent =>
      obtain ⟨g, hg, hname⟩ := List.mem_map.1 (himports _ hf _ hd)
      exact habsent g hg hname
    | field hf hpath hx hdangling =>
      exact hfields (_, _) ⟨_, hf, FileDecl.mem_namedMessages.2 ⟨_, hpath, rfl⟩⟩ _ hx hdangling
    | method hf hs hx hdangling =>
      have hboth := hmethods _ ⟨_, ⟨_, hf, hs⟩, hx⟩
      exact hdangling.elim (hboth _ (.head _)) (hboth _ (.tail _ (.head _)))

theorem dot_qualify (scope name : String) :
    "." ++ qualify scope name = rootScope scope ++ "." ++ name := by
  unfold rootScope qualify
  split <;> simp [String.append_assoc]

theorem qualify_ne_empty {scope name : String} (h : scope ≠ "" ∨ name ≠ "") :
    qualify scope name ≠ "" := by
  unfold qualify
  split
  next hscope => exact h.resolve_left fun hne => hne hscope
  next => simp

mutual

theorem MessageDecl.exists_path_of_mem_placed {scope : String} {x : String × MessageDecl}
    (m : MessageDecl) (h : x ∈ m.placed scope) (hnamed : scope ≠ "" ∨ m.name ≠ "")
    {ms : List MessageDecl} (hm : m ∈ ms) : qualify x.1 x.2.name ≠ "" ∧ ∃ path,
      MessagePath ms path x.2 ∧ "." ++ qualify x.1 x.2.name = rootScope scope ++ dotted path := by
  have hne := qualify_ne_empty hnamed
  cases m with
  | mk name fields nested =>
    rw [MessageDecl.placed, List.mem_cons] at h
    obtain rfl | h := h
    · exact ⟨hne, _, .top hm, by simp [dot_qualify, dotted, String.append_assoc]⟩
    · obtain ⟨hx, path, hpath, hname⟩ := exists_path_of_mem_placedAll nested h (.inl hne)
      refine ⟨hx, _, .inside hm hpath, ?_⟩
      rw [hname, rootScope, if_neg hne, dot_qualify]
      simp only [dotted, String.append_assoc]

theorem exists_path_of_mem_placedAll {scope : String} {x : String × MessageDecl}
    (ms : List MessageDecl) (h : x ∈ placedAll scope ms)
    (hnamed : scope ≠ "" ∨ ∀ m ∈ ms, m.name ≠ "") : qualify x.1 x.2.name ≠ "" ∧ ∃ path,
      MessagePath ms path x.2 ∧ "." ++ qualify x.1 x.2.name = rootScope scope ++ dotted path := by
  match ms with
  | [] => cases h
  | m :: ms =>
    rw [placedAll, List.mem_append] at h
    obtain h | h := h
    · exact m.exists_path_of_mem_placed h (hnamed.imp_right fun hm => hm m (.head ms)) (.head ms)
    · obtain ⟨hx, path, hpath, hname⟩ := exists_path_of_mem_placedAll ms h
        (hnamed.imp_right fun hms n hn => hms n (.tail m hn))
      exact ⟨hx, path, hpath.cons, hname⟩

end

theorem MessagePath.exists_mem_placedAll {ms : List MessageDecl} {path : List String}
    {m : MessageDecl} (h : MessagePath ms path m) (scope : String) :
    ∃ around, (around, m) ∈ placedAll scope ms := by
  induction h generalizing scope with
  | top hm => exact ⟨scope, mem_placedAll.2 ⟨_, hm, MessageDecl.mem_placed.2 (.inl rfl)⟩⟩
  | @inside _ outer _ _ hm _ ih =>
    obtain ⟨around, hx⟩ := ih (qualify scope outer.name)
    exact ⟨around, mem_placedAll.2 ⟨_, hm, MessageDecl.mem_placed.2 (.inr hx)⟩⟩

/-- Outside of any package every message at the top has a name. -/
def FileDecl.Named (f : FileDecl) : Prop := f.package ≠ "" ∨ ∀ m ∈ f.messages, m.name ≠ ""

theorem declares_of_mem_definitionsOf {files : List FileDecl} (hnamed : ∀ f ∈ files, f.Named)
    {d : Definition} (hd : d ∈ definitionsOf files) (hsort : d.entity ∈ [Entity.message, .enum]) :
    ∃ f ∈ files, f.Declares ("." ++ d.name) := by
  obtain ⟨f, hf, i, hdf⟩ := mem_of_mem_definitionsOf hd
  have hplaced {x : String × MessageDecl} (hx : x ∈ f.placed) : qualify x.1 x.2.name ≠ "" ∧
      ∃ path, MessagePath f.messages path x.2 ∧ "." ++ qualify x.1 x.2.name = f.reference path :=
    exists_path_of_mem_placedAll f.messages hx (hnamed f hf)
  refine ⟨f, hf, ?_⟩
  obtain ⟨-, x, hx, hname⟩ | ⟨-, ⟨e, he, hname⟩ | ⟨x, hx, e, he, hname⟩⟩ | hmember :=
    type_of_mem_definitions hdf
  · obtain ⟨-, path, hpath, hreference⟩ := hplaced hx
    rw [hname, hreference]
    exact .message hpath
  · rw [hname, dot_qualify, ← f.reference_singleton]
    exact .enum he
  · obtain ⟨hne, path, hpath, hreference⟩ := hplaced hx
    rw [hname, dot_qualify, rootScope, if_neg hne, hreference, ← f.reference_append]
    exact .nestedEnum hpath he
  · simp [hmember] at hsort

theorem resolve?_eq_none_of_dangling {files : List FileDecl} (hnamed : ∀ f ∈ files, f.Named)
    {f : FileDecl} {sorts : List Entity} (hsorts : ∀ e ∈ sorts, e ∈ [Entity.message, .enum])
    {scope reference : String} (h : Dangling files reference) :
    (tableOf files f).resolve? sorts scope reference = none := by
  obtain ⟨⟨full, rfl⟩, habsent⟩ := h
  have hdot : ("." ++ full).toList = '.' :: full.toList := by simp
  have habsolute : ∀ d, (tableOf files f).absolute sorts full ≠ .found d := by
    intro d hd
    obtain ⟨hmem, rfl, hsort, -⟩ := Table.absolute_eq_found hd
    obtain ⟨g, hg, hdeclares⟩ := declares_of_mem_definitionsOf hnamed hmem (hsorts _ hsort)
    exact habsent g hg hdeclares
  cases hfull : (tableOf files f).absolute sorts full with
  | found d => exact (habsolute d hfull).elim
  | notFound => simp only [Table.resolve?, hdot, String.ofList_toList, hfull]
  | unusable => simp only [Table.resolve?, hdot, String.ofList_toList, hfull]

theorem extensionDefects_ne_nil {files : List FileDecl} (hnamed : ∀ f ∈ files, f.Named)
    {f : FileDecl} {x : FieldDecl} (h : Dangling files x.typeName ∨ Dangling files x.extendee)
    (values : EnumValues) (ranges : List (String × List DeclaredRange)) (scope : String) :
    x.extensionDefects (tableOf files f) values ranges scope ≠ [] := by
  rw [FieldDecl.extensionDefects, ne_eq, List.append_eq_nil_iff]
  rintro ⟨htype, hextendee⟩
  obtain h | h := h
  · have hne : x.typeName ≠ "" := by
      obtain ⟨⟨full, hfull⟩, -⟩ := h
      simp [hfull]
    have hkind : x.kind? (tableOf files f) scope = none := by
      rw [FieldDecl.kind?, if_pos hne, resolve?_eq_none_of_dangling hnamed (by simp) h]
      rfl
    simp [FieldDecl.typeDefects, hkind] at htype
  · rw [resolve?_eq_none_of_dangling hnamed (by simp) h] at hextendee
    simp at hextendee

theorem defectsOf_ne_nil_of_extensionGap {files : List FileDecl} (hnamed : ∀ f ∈ files, f.Named)
    (h : ExtensionGap files) : defectsOf files ≠ [] := by
  obtain ⟨f, hf, x, hx, hdangling⟩ := h
  intro hdefects
  cases hx with
  | top hx =>
    simp only [defectsOf, List.append_eq_nil_iff, List.flatMap_eq_nil_iff] at hdefects
    have hfile := hdefects.2 f hf
    simp only [FileDecl.defects, List.append_eq_nil_iff, List.flatMap_eq_nil_iff] at hfile
    exact extensionDefects_ne_nil hnamed hdangling _ _ _ (hfile.1.2 x hx)
  | nested hpath hx =>
    obtain ⟨scope, hplaced⟩ := hpath.exists_mem_placedAll f.package
    have hown := ownDefects_eq_nil hdefects hf hplaced
    simp only [MessageDecl.ownDefects, List.append_eq_nil_iff, List.flatMap_eq_nil_iff] at hown
    exact extensionDefects_ne_nil hnamed hdangling _ _ _ (hown.1.2 x hx)

namespace Registry

theorem ofRecords_eq_notFullyContained_iff {rs : List Record} :
    (∃ m, ofRecords rs = .error (.notFullyContained m)) ↔ Gap (rs.map FileDecl.ofRecord) := by
  rw [← missingReference?_ne_none_iff]
  simp only [ofRecords]
  cases missingReference? (rs.map FileDecl.ofRecord) with
  | some m => simp
  | none =>
    refine iff_of_false ?_ (by simp)
    rintro ⟨m, h⟩
    dsimp only at h
    split at h <;> cases h

theorem exists_ofRecords_eq_invalid {rs : List Record}
    (hgap : ¬ Gap (rs.map FileDecl.ofRecord)) (hdefects : defectsOf (rs.map FileDecl.ofRecord) ≠ []) :
    ∃ ds, ofRecords rs = .error (.invalid ds) := by
  have hmissing := not_not.1 (mt missingReference?_ne_none_iff.1 hgap)
  cases h : defectsOf (rs.map FileDecl.ofRecord) with
  | nil => exact (hdefects h).elim
  | cons d ds => exact ⟨d :: ds, by simp only [ofRecords, hmissing, h]⟩

/-- A set is answered as not fully contained exactly if an import, a field of a message or a method
leads out of it. An extension that leads out of it is found by the linker only, and the set is then
answered as invalid. -/
theorem notFullyContained_iff {bytes : List UInt8} {set : Record}
    (hset : MessageType.fileSet.decode? bytes = some set) :
    ((∃ m, parse bytes = .error (.notFullyContained m)) ↔
      Gap ((filesOf set).map FileDecl.ofRecord)) ∧
    ((∀ f ∈ (filesOf set).map FileDecl.ofRecord, f.Named) →
      ExtensionGap ((filesOf set).map FileDecl.ofRecord) →
      ¬ Gap ((filesOf set).map FileDecl.ofRecord) →
      ∃ ds, parse bytes = .error (.invalid ds)) := by
  have hparse : parse bytes = ofRecords (filesOf set) := by rw [parse, hset]
  rw [hparse]
  refine ⟨ofRecords_eq_notFullyContained_iff, ?_⟩
  intro hnamed hextension hgap
  exact exists_ofRecords_eq_invalid hgap (defectsOf_ne_nil_of_extensionGap hnamed hextension)

def extendedSet (typeName extended : String) : List UInt8 :=
  let slot := Build.field ⟨"slot", 1, 11, some typeName, none, false, false⟩
  let lid := Build.text 2 ".a.Box"
    (Build.field ⟨"lid", 100, 11, some extended, none, false, false⟩)
  let box := Build.records 5 [Build.range 100 200]
    (Build.message "Box" [] [Build.message "Part" [slot] [] [] [] []] [] [] [])
  Build.descriptorSet [Build.records 7 [lid] (Build.file "a.proto" "a" "proto2" [] [box] [])]

theorem exists_decode_of_any (bytes : List UInt8) (check : List FileDecl → Bool)
    (h : (MessageType.fileSet.decode? bytes).any
      fun set => check ((filesOf set).map FileDecl.ofRecord)) :
    ∃ set, MessageType.fileSet.decode? bytes = some set ∧
      check ((filesOf set).map FileDecl.ofRecord) :=
  (Option.any_eq_true _ _).1 h

def extensionDangles (files : List FileDecl) : Bool :=
  files.any fun f => f.extensions.any fun x => isUnresolved (declaredTypes files) x.typeName

theorem extensionGap_of_dangles {files : List FileDecl} (h : extensionDangles files) :
    ExtensionGap files := by
  simp only [extensionDangles, List.any_eq_true, isUnresolved_iff] at h
  obtain ⟨f, hf, x, hx, hdangling⟩ := h
  exact ⟨f, hf, x, .top hx, .inl hdangling⟩

theorem notFullyContained_iff_extendedSet :
    (∃ m, parse (extendedSet ".a.Missing" ".a.Box.Part") = .error (.notFullyContained m)) ∧
    ∃ ds, parse (extendedSet ".a.Box" ".a.Missing") = .error (.invalid ds) := by
  constructor
  · obtain ⟨set, hset, hgap⟩ := exists_decode_of_any (extendedSet ".a.Missing" ".a.Box.Part")
      (fun files => (missingReference? files).isSome) (by decide +kernel)
    exact (notFullyContained_iff hset).1.2
      (missingReference?_ne_none_iff.1 (Option.isSome_iff_ne_none.1 hgap))
  · obtain ⟨set, hset, hfiles⟩ := exists_decode_of_any (extendedSet ".a.Box" ".a.Missing")
      (fun files =>
        files.all (·.package ≠ "") && extensionDangles files && (missingReference? files).isNone)
      (by decide +kernel)
    simp only [Bool.and_eq_true, List.all_eq_true, decide_eq_true_eq, Option.isNone_iff_eq_none]
      at hfiles
    obtain ⟨⟨hpackages, hdangles⟩, hmissing⟩ := hfiles
    apply (notFullyContained_iff hset).2 (fun f hf => .inl (hpackages f hf))
      (extensionGap_of_dangles hdangles)
    intro hgap
    exact missingReference?_ne_none_iff.2 hgap hmissing

def rejection? (bytes : List UInt8) : Option ParseError :=
  match parse bytes with
  | .error e => some e
  | .ok _ => none

theorem rejection?_eq_some_iff {bytes : List UInt8} {e : ParseError} :
    rejection? bytes = some e ↔ parse bytes = .error e := by
  unfold rejection?
  cases parse bytes <;> simp

/-- An extension refers to `.a.Missing`, which the set does not declare, and the set is answered as
invalid. -/
theorem extension_answered_as_invalid : ∃ set,
    MessageType.fileSet.decode? (extendedSet ".a.Box" ".a.Missing") = some set ∧
    ExtensionGap ((filesOf set).map FileDecl.ofRecord) ∧
    parse (extendedSet ".a.Box" ".a.Missing") = .error (.invalid [.fieldType]) := by
  obtain ⟨set, hset, hdangles⟩ := exists_decode_of_any (extendedSet ".a.Box" ".a.Missing")
    extensionDangles (by decide +kernel)
  exact ⟨set, hset, extensionGap_of_dangles hdangles,
    rejection?_eq_some_iff.1 (by decide +kernel)⟩

end Registry

end SchemaEvolution.Protobuf
