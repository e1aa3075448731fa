import SchemaEvolution.Proofs.Protobuf.Resolved

/-!
The order of the files of a set. Names are looked up by what they are and not by where they stand, so
a set whose files come in another order is accepted as well and linked the same.
-/

namespace SchemaEvolution.Protobuf

def Definition.at (i : Nat) (d : Definition) : Definition := { d with file := i }

theorem EnumDecl.definitions_at (i : Nat) (scope : String) (e : EnumDecl) :
    e.definitions i scope = (e.definitions 0 scope).map (.at i) := by
  simp [definitions, Definition.at]

theorem MessageDecl.ownDefinitions_at (i : Nat) (scope : String) (m : MessageDecl) :
    m.ownDefinitions i scope = (m.ownDefinitions 0 scope).map (.at i) := by
  simp only [ownDefinitions, List.map_append, List.map_cons, List.map_map, List.map_flatMap,
    ← EnumDecl.definitions_at]
  rfl

theorem ServiceDecl.definitions_at (i : Nat) (scope : String) (s : ServiceDecl) :
    s.definitions i scope = (s.definitions 0 scope).map (.at i) := by
  simp [definitions, Definition.at]

theorem FileDecl.definitions_at (i : Nat) (f : FileDecl) :
    f.definitions i = (f.definitions 0).map (.at i) := by
  simp only [definitions, definitionsOfAll_eq, List.map_append, List.map_flatMap, List.map_map,
    ← EnumDecl.definitions_at, ← MessageDecl.ownDefinitions_at, ← ServiceDecl.definitions_at]
  rfl

theorem names_definitionsOf (files : List FileDecl) :
    (definitionsOf files).map (·.name) = files.flatMap fun f => (f.definitions 0).map (·.name) := by
  have hnames : ∀ x : FileDecl × Nat,
      (x.1.definitions x.2).map (·.name) = (x.1.definitions 0).map (·.name) := by
    intro x
    rw [FileDecl.definitions_at, List.map_map]
    rfl
  rw [definitionsOf, List.map_flatMap]
  simp only [hnames]
  conv_rhs => rw [← List.zipIdx_map_fst 0 files, List.flatMap_map]

theorem names_definitionsOf_perm {files files' : List FileDecl} (h : files.Perm files') :
    ((definitionsOf files).map (·.name)).Perm ((definitionsOf files').map (·.name)) := by
  rw [names_definitionsOf, names_definitionsOf]
  exact h.flatMap_right _

namespace Table

def keyOf (d : Definition) : String × Entity := (d.name, d.entity)

def Shows (t : Table) (k : String × Entity) : Prop :=
  ∃ d ∈ t.definitions, keyOf d = k ∧ d.file ∈ t.files

/-- Whatever is looked up in either table, the same thing is found. References never lead to members
of types, so the tables may differ in those. -/
structure Agrees (t t' : Table) : Prop where
  names : (t.definitions.map (·.name)).Nodup
  names' : (t'.definitions.map (·.name)).Nodup
  shows_iff : ∀ k : String × Entity, k.2 ≠ .member → (t.Shows k ↔ t'.Shows k)
  packages : ∀ name, name ∈ t.packages ↔ name ∈ t'.packages

variable {t t' : Table} {sorts : List Entity}

def usable? (t : Table) (sorts : List Entity) (name : String) : Option Definition :=
  match t.absolute sorts name with
  | .found d => some d
  | _ => none

theorem usable?_eq_some_iff (h : (t.definitions.map (·.name)).Nodup) {name : String}
    {d : Definition} : t.usable? sorts name = some d ↔
      d ∈ t.definitions ∧ d.name = name ∧ d.entity ∈ sorts ∧ d.file ∈ t.files := by
  have hfound : t.usable? sorts name = some d ↔ t.absolute sorts name = .found d := by
    unfold usable?
    split <;> simp_all
  rw [hfound]
  constructor
  · exact absolute_eq_found
  · rintro ⟨hmem, rfl, hsort, hfile⟩
    rw [absolute, Names.find?_eq_some_of_nodup_map h hmem]
    exact if_pos ⟨hsort, hfile⟩

theorem map_usable?_eq_some_iff (h : (t.definitions.map (·.name)).Nodup) {name : String}
    {k : String × Entity} : (t.usable? sorts name).map keyOf = some k ↔
      k.1 = name ∧ k.2 ∈ sorts ∧ t.Shows k := by
  rw [Option.map_eq_some_iff]
  constructor
  · rintro ⟨d, hd, rfl⟩
    obtain ⟨hmem, hname, hsort, hfile⟩ := (usable?_eq_some_iff h).1 hd
    exact ⟨hname, hsort, d, hmem, rfl, hfile⟩
  · rintro ⟨hname, hsort, d, hmem, rfl, hfile⟩
    exact ⟨d, (usable?_eq_some_iff h).2 ⟨hmem, hname, hsort, hfile⟩, rfl⟩

theorem relativeIn_cons (t : Table) (sorts : List Entity) (name first scope : String)
    (outer : List String) : t.relativeIn sorts name first (scope :: outer) =
      if first = name then
        (t.usable? sorts (qualify scope name)).or (t.relativeIn sorts name first outer)
      else if t.isParent (qualify scope first) then t.usable? sorts (qualify scope name)
      else t.relativeIn sorts name first outer := by
  rw [relativeIn, usable?]
  cases t.absolute sorts (qualify scope name) <;> rfl

theorem isParent_iff {name : String} : t.isParent name ↔
    name ∈ t.packages ∨ ∃ e, e ≠ .member ∧ t.Shows (name, e) := by
  simp only [isParent, Bool.or_eq_true, decide_eq_true_eq, List.any_eq_true, Bool.and_eq_true,
    beq_iff_eq, bne_iff_ne, ne_eq, List.contains_iff_mem]
  refine or_congr_right ⟨?_, ?_⟩
  · rintro ⟨d, hmem, ⟨rfl, hmember⟩, hfile⟩
    exact ⟨d.entity, hmember, d, hmem, rfl, hfile⟩
  · rintro ⟨e, hmember, d, hmem, hkey, hfile⟩
    cases hkey
    exact ⟨d, hmem, ⟨rfl, hmember⟩, hfile⟩

namespace Agrees

theorem isParent (h : Agrees t t') (name : String) : t.isParent name = t'.isParent name := by
  rw [Bool.eq_iff_iff, isParent_iff, isParent_iff, h.packages]
  refine or_congr_right (exists_congr fun e => and_congr_right ?_)
  intro he
  exact h.shows_iff (name, e) he

section Types

variable (hsorts : Entity.member ∉ sorts)
include hsorts

theorem usable? (h : Agrees t t') (name : String) :
    (t.usable? sorts name).map keyOf = (t'.usable? sorts name).map keyOf := by
  apply Option.ext
  intro k
  rw [map_usable?_eq_some_iff h.names, map_usable?_eq_some_iff h.names']
  apply and_congr_right
  intro _
  apply and_congr_right
  intro hk
  apply h.shows_iff k
  intro hmember
  exact hsorts (hmember ▸ hk)

theorem relativeIn (h : Agrees t t') (name first : String) (scopes : List String) :
    (t.relativeIn sorts name first scopes).map keyOf =
      (t'.relativeIn sorts name first scopes).map keyOf := by
  induction scopes with
  | nil => rfl
  | cons scope outer ih =>
    rw [relativeIn_cons, relativeIn_cons, h.isParent]
    split
    · rw [Option.map_or, Option.map_or, h.usable? hsorts, ih]
    · split
      · exact h.usable? hsorts _
      · exact ih

theorem resolve? (h : Agrees t t') (scope reference : String) :
    (t.resolve? sorts scope reference).map keyOf =
      (t'.resolve? sorts scope reference).map keyOf := by
  unfold Table.resolve?
  split
  next full _ => exact h.usable? hsorts (String.ofList full)
  next => exact h.relativeIn hsorts _ _ _

theorem resolve?_cases (h : Agrees t t') (scope reference : String) :
    (t.resolve? sorts scope reference = none ∧ t'.resolve? sorts scope reference = none) ∨
      ∃ d d', t.resolve? sorts scope reference = some d ∧
        t'.resolve? sorts scope reference = some d' ∧ d.name = d'.name := by
  have hkeys := h.resolve? hsorts scope reference
  cases hd : t.resolve? sorts scope reference with
  | none =>
    rw [hd, Option.map_none, eq_comm, Option.map_eq_none_iff] at hkeys
    exact .inl ⟨rfl, hkeys⟩
  | some d =>
    rw [hd, Option.map_some, eq_comm, Option.map_eq_some_iff] at hkeys
    obtain ⟨d', hd', hkey⟩ := hkeys
    exact .inr ⟨d, d', rfl, hd', (Prod.mk.inj hkey).1.symm⟩

end Types

end Agrees

end Table

section Sets

variable {files files' : List FileDecl}

theorem shows_tableOf {f : FileDecl} {k : String × Entity} : (tableOf files f).Shows k ↔
    ∃ g ∈ files, g.name ∈ visibleFiles files f ∧ ∃ d ∈ g.definitions 0, Table.keyOf d = k := by
  constructor
  · rintro ⟨d, hd, rfl, hfile⟩
    obtain ⟨⟨g, i⟩, hg, hdg⟩ := List.mem_flatMap.1 hd
    rw [FileDecl.definitions_at] at hdg
    obtain ⟨e, he, rfl⟩ := List.mem_map.1 hdg
    obtain ⟨⟨g', j⟩, hg', hj⟩ := List.mem_map.1 hfile
    obtain ⟨hg', hvisible⟩ := List.mem_filter.1 hg'
    -- a position belongs to one file
    obtain rfl : j = i := hj
    have hsame : some g' = some g :=
      (List.mem_zipIdx_iff_getElem?.1 hg').symm.trans (List.mem_zipIdx_iff_getElem?.1 hg)
    cases hsame
    exact ⟨g, List.fst_mem_of_mem_zipIdx hg, by simpa using hvisible, e, he, rfl⟩
  · rintro ⟨g, hg, hvisible, d, hd, rfl⟩
    obtain ⟨i, hi⟩ := List.mem_iff_getElem?.1 hg
    have hi : (g, i) ∈ files.zipIdx := List.mem_zipIdx_iff_getElem?.2 hi
    refine ⟨d.at i, List.mem_flatMap.2 ⟨(g, i), hi, ?_⟩, rfl, ?_⟩
    · rw [FileDecl.definitions_at]
      exact List.mem_map_of_mem hd
    · exact List.mem_map.2 ⟨(g, i), List.mem_filter.2 ⟨hi, by simpa using hvisible⟩, rfl⟩

theorem visibleFiles_perm (hnames : (files.map (·.name)).Nodup) (h : files.Perm files')
    (f : FileDecl) : visibleFiles files f = visibleFiles files' f := by
  unfold visibleFiles
  simp only [Names.find?_perm hnames h, h.length_eq]

theorem tableOf_agrees (hfiles : (files.map (·.name)).Nodup)
    (hnames : ((definitionsOf files).map (·.name)).Nodup) (h : files.Perm files') (f : FileDecl) :
    (tableOf files f).Agrees (tableOf files' f) where
  names := hnames
  names' := (names_definitionsOf_perm h).nodup_iff.1 hnames
  shows_iff k _ := by
    simp only [shows_tableOf, visibleFiles_perm hfiles h, h.mem_iff]
  packages name := (h.flatMap_right FileDecl.packages).mem_iff

end Sets

theorem member_notMem : Entity.member ∉ [Entity.message] := by simp

section Linking

variable {t t' : Table}

theorem FieldDecl.kind?_congr (h : t.Agrees t') (scope : String) (f : FieldDecl) :
    f.kind? t scope = f.kind? t' scope := by
  have hkind : ∀ d : Definition, Kind.ofDefinition d =
      Kind.ofDefinition ⟨(Table.keyOf d).1, (Table.keyOf d).2, 0⟩ := by
    intro d
    exact rfl
  have hmap : ∀ found : Option Definition, found.map Kind.ofDefinition =
      (found.map Table.keyOf).map fun k => Kind.ofDefinition ⟨k.1, k.2, 0⟩ := by
    intro found
    rw [Option.map_map]
    rfl
  unfold kind?
  rw [hmap, hmap, h.resolve? (by simp)]

theorem FieldDecl.linkedRecord_congr (h : t.Agrees t') (scope : String) (f : FieldDecl) :
    f.linkedRecord t scope = f.linkedRecord t' scope := by
  unfold linkedRecord
  rw [f.kind?_congr h]
  obtain ⟨hd, hd'⟩ | ⟨d, d', hd, hd', hname⟩ := h.resolve?_cases member_notMem scope f.extendee
  · rw [hd, hd']
  · simp only [hd, hd', hname]

theorem Field.link_congr (h : t.Agrees t') (scope : String) :
    Field.link t scope = Field.link t' scope := by
  funext f
  unfold link
  rw [f.kind?_congr h]

theorem linkedDescriptor_congr (h : t.Agrees t') (scope : String) (fields extensions : List FieldDecl)
    (nested : List Record) (record : Record) :
    linkedDescriptor t scope fields extensions nested record =
      linkedDescriptor t' scope fields extensions nested record := by
  simp only [linkedDescriptor, FieldDecl.linkedRecord_congr h]

mutual

theorem Message.link_congr (h : t.Agrees t') (scope : String) (m : MessageDecl) :
    Message.link t scope m = Message.link t' scope m := by
  cases m with
  | mk name fields nested =>
    simp only [Message.link, Field.link_congr h, linkedDescriptor_congr h, linkAll_congr h]

theorem linkAll_congr (h : t.Agrees t') (scope : String) (ms : List MessageDecl) :
    linkAll t scope ms = linkAll t' scope ms := by
  match ms with
  | [] => rfl
  | m :: ms => rw [linkAll, linkAll, Message.link_congr h, linkAll_congr h]

end

end Linking

def MessageDecl.enumValues (scope : String) (m : MessageDecl) : EnumValues :=
  m.enums.map fun e => (qualify (qualify scope m.name) e.name, e.values.map (·.1))

mutual

theorem MessageDecl.surroundings_eq (scope : String) (m : MessageDecl) : m.surroundings scope =
    ⟨(m.placed scope).flatMap fun x => x.2.enumValues x.1,
      (m.placed scope).map fun x => (qualify x.1 x.2.name, x.2.extensionRanges)⟩ := by
  cases m with
  | mk name fields nested =>
    rw [MessageDecl.placed, List.flatMap_cons, List.map_cons]
    simp only [MessageDecl.surroundings, surroundingsOfAll_eq, MessageDecl.enumValues]

theorem surroundingsOfAll_eq (scope : String) (ms : List MessageDecl) : surroundingsOfAll scope ms =
    ⟨(placedAll scope ms).flatMap fun x => x.2.enumValues x.1,
      (placedAll scope ms).map fun x => (qualify x.1 x.2.name, x.2.extensionRanges)⟩ := by
  match ms with
  | [] => rfl
  | m :: ms =>
    simp only [surroundingsOfAll, placedAll, List.flatMap_append, List.map_append,
      MessageDecl.surroundings_eq, surroundingsOfAll_eq]

end

namespace FileDecl

def enumValues (f : FileDecl) : EnumValues :=
  f.enums.map (fun e => (qualify f.package e.name, e.values.map (·.1))) ++
    f.placed.flatMap fun x => x.2.enumValues x.1

def extensionRanges (f : FileDecl) : List (String × List DeclaredRange) :=
  f.placed.map fun x => (qualify x.1 x.2.name, x.2.extensionRanges)

end FileDecl

theorem Surroundings.of_eq (files : List FileDecl) : Surroundings.of files =
    ⟨files.flatMap FileDecl.enumValues, files.flatMap FileDecl.extensionRanges⟩ := by
  induction files with
  | nil => rfl
  | cons f files ih =>
    rw [of, List.foldr_cons, ← of, ih]
    simp only [surroundingsOfAll_eq, List.flatMap_cons]
    rfl

structure Surroundings.Agrees (s s' : Surroundings) : Prop where
  values : ∀ name, s.values.lookup name = s'.values.lookup name
  extensionRanges : ∀ name, s.extensionRanges.lookup name = s'.extensionRanges.lookup name

theorem keys_enumValues_nodup {files : List FileDecl}
    (h : (files.flatMap FileDecl.declaredNames).Nodup) :
    ((files.flatMap FileDecl.enumValues).map (·.1)).Nodup := by
  have hperm : ∀ f : FileDecl, (f.enumValues.map (·.1)).Perm
      ((f.placed.flatMap fun x => x.2.enums.map fun e => qualify (qualify x.1 x.2.name) e.name) ++
        f.enums.map fun e => qualify f.package e.name) := by
    intro f
    simp only [FileDecl.enumValues, MessageDecl.enumValues, List.map_append, List.map_map,
      List.map_flatMap]
    exact List.perm_append_comm
  have hsublist : ∀ f : FileDecl,
      ((f.placed.flatMap fun x => x.2.enums.map fun e => qualify (qualify x.1 x.2.name) e.name) ++
        f.enums.map fun e => qualify f.package e.name).Sublist f.declaredNames := by
    intro f
    refine .append (.flatMap_right _ ?_) (.refl _)
    intro x _
    exact (List.sublist_append_right _ _).cons _
  rw [List.map_flatMap]
  exact (List.Perm.flatMap (.refl _) fun f _ => hperm f).nodup_iff.2
    (h.sublist (.flatMap_right _ fun f _ => hsublist f))

theorem keys_extensionRanges_nodup {files : List FileDecl}
    (h : (files.flatMap FileDecl.declaredNames).Nodup) :
    ((files.flatMap FileDecl.extensionRanges).map (·.1)).Nodup := by
  rw [List.map_flatMap]
  refine h.sublist (.flatMap_right _ ?_)
  intro f _
  rw [FileDecl.extensionRanges, List.map_map, List.map_eq_flatMap]
  refine .trans (.flatMap_right _ ?_) (List.sublist_append_left _ _)
  intro x _
  simp [MessageDecl.declaredNames]

theorem Surroundings.of_agrees {files files' : List FileDecl}
    (hnames : ((definitionsOf files).map (·.name)).Nodup) (h : files.Perm files') :
    (Surroundings.of files).Agrees (.of files') := by
  have hdeclared := hnames.sublist (declaredNames_sublist_definitionsOf files)
  rw [Surroundings.of_eq, Surroundings.of_eq]
  constructor
  · exact Names.lookup_perm (keys_enumValues_nodup hdeclared) (h.flatMap_right _)
  · exact Names.lookup_perm (keys_extensionRanges_nodup hdeclared) (h.flatMap_right _)

section Defects

variable {t t' : Table} {s s' : Surroundings}

theorem FieldDecl.typeDefects_congr (ht : t.Agrees t') (hs : s.Agrees s') (scope : String)
    (f : FieldDecl) : f.typeDefects t s.values scope = f.typeDefects t' s'.values scope := by
  simp only [typeDefects, defaultIsValid, f.kind?_congr ht, hs.values]

theorem FieldDecl.extensionDefects_congr (ht : t.Agrees t') (hs : s.Agrees s') (scope : String)
    (f : FieldDecl) : f.extensionDefects t s.values s.extensionRanges scope =
      f.extensionDefects t' s'.values s'.extensionRanges scope := by
  unfold extensionDefects
  rw [f.typeDefects_congr ht hs]
  obtain ⟨hd, hd'⟩ | ⟨d, d', hd, hd', hname⟩ := ht.resolve?_cases member_notMem scope f.extendee
  · rw [hd, hd']
  · simp only [hd, hd', hname, hs.extensionRanges]

theorem MessageDecl.ownDefects_congr (ht : t.Agrees t') (hs : s.Agrees s') (syntaxName scope : String)
    (m : MessageDecl) : m.ownDefects t s syntaxName scope = m.ownDefects t' s' syntaxName scope := by
  simp only [ownDefects, FieldDecl.typeDefects_congr ht hs, FieldDecl.extensionDefects_congr ht hs]

theorem MethodDecl.defects_congr (ht : t.Agrees t') (scope : String) (m : MethodDecl) :
    m.defects t scope = m.defects t' scope := by
  have hfound : ∀ r, (t.resolve? [.message] scope r).isSome =
      (t'.resolve? [.message] scope r).isSome := by
    intro r
    obtain ⟨hd, hd'⟩ | ⟨d, d', hd, hd', -⟩ := ht.resolve?_cases member_notMem scope r <;> rw [hd, hd']
    rfl
  simp only [defects, hfound]

end Defects

section Sets

variable {files files' : List FileDecl}

theorem nameDefects_eq_nil_iff : nameDefects files = [] ↔ (files.map (·.name)).Nodup ∧
    ((definitionsOf files).map (·.name)).Nodup ∧
      ∀ name ∈ (definitionsOf files).map (·.name), name ∉ packagesOf files := by
  simp only [nameDefects, List.append_eq_nil_iff, demand_eq_nil_iff, Bool.and_eq_true, isNodup_iff,
    List.all_eq_true, Bool.not_eq_true', List.contains_eq_mem, decide_eq_false_iff_not]

theorem FileDecl.defects_perm (hfiles : (files.map (·.name)).Nodup)
    (hnames : ((definitionsOf files).map (·.name)).Nodup) (h : files.Perm files') (f : FileDecl) :
    f.defects files (.of files) = f.defects files' (.of files') := by
  have ht := tableOf_agrees hfiles hnames h f
  have hs := Surroundings.of_agrees hnames h
  simp only [defects, defectsOfAll_eq, MessageDecl.ownDefects_congr ht hs,
    FieldDecl.extensionDefects_congr ht hs, MethodDecl.defects_congr ht]

theorem defectsOf_perm (h : files.Perm files') (hdefects : defectsOf files = []) :
    defectsOf files' = [] := by
  rw [defectsOf, List.append_eq_nil_iff] at hdefects ⊢
  obtain ⟨hfiles, hnames, hpackages⟩ := nameDefects_eq_nil_iff.1 hdefects.1
  have hperm := names_definitionsOf_perm h
  refine ⟨nameDefects_eq_nil_iff.2 ⟨?_, ?_, ?_⟩, ?_⟩
  · exact (h.map _).nodup_iff.1 hfiles
  · exact hperm.nodup_iff.1 hnames
  · intro name hname hpackage
    exact hpackages name (hperm.mem_iff.2 hname) ((h.flatMap_right _).mem_iff.2 hpackage)
  · rw [List.flatMap_eq_nil_iff] at hdefects ⊢
    intro f hf
    rw [← FileDecl.defects_perm hfiles hnames h]
    exact hdefects.2 f (h.mem_iff.2 hf)

theorem missingReference?_eq_none_iff : missingReference? files = none ↔
    (∀ f ∈ files, ∀ d ∈ f.imports, d ∈ files.map (·.name)) ∧
    (∀ m ∈ files.flatMap FileDecl.namedMessages, ∀ f ∈ m.2.fields,
      ¬ isUnresolved (declaredTypes files) f.typeName) ∧
    ∀ m ∈ (files.flatMap (·.services)).flatMap (·.methods), ∀ r ∈ [m.input, m.output],
      ¬ isUnresolved (declaredTypes files) r := by
  have horElse : ∀ a b : Option MissingReference, (a <|> b) = none ↔ a = none ∧ b = none := by
    intro a b
    cases a <;> simp
  simp only [missingReference?, missingImport?, missingFieldType?, missingMethodType?, horElse,
    List.findSome?_eq_none_iff, Option.map_eq_none_iff, List.find?_eq_none, decide_eq_true_eq, not_not]

theorem declaredTypes_perm (h : files.Perm files') :
    (declaredTypes files).Perm (declaredTypes files') :=
  (h.flatMap_right _).append ((h.flatMap_right _).flatMap_right _)

theorem missingReference?_perm (h : files.Perm files') (hmissing : missingReference? files = none) :
    missingReference? files' = none := by
  have hdeclared : ∀ reference, isUnresolved (declaredTypes files) reference =
      isUnresolved (declaredTypes files') reference := by
    intro reference
    simp only [isUnresolved, List.contains_eq_mem, (declaredTypes_perm h).mem_iff]
  rw [missingReference?_eq_none_iff] at hmissing ⊢
  obtain ⟨himports, hfields, hmethods⟩ := hmissing
  refine ⟨?_, ?_, ?_⟩
  · intro f hf d hd
    exact (h.map _).mem_iff.1 (himports f (h.mem_iff.2 hf) d hd)
  · intro m hm f hf
    rw [← hdeclared]
    exact hfields m ((h.flatMap_right _).mem_iff.2 hm) f hf
  · intro m hm r hr
    rw [← hdeclared]
    exact hmethods m (((h.flatMap_right _).flatMap_right _).mem_iff.2 hm) r hr

end Sets

namespace Registry

theorem sortFiles_pairwise (rs : List Record) :
    (sortFiles rs).Pairwise fun a b => fileName a ≤ fileName b := by
  refine (List.pairwise_mergeSort (?_) (?_) rs).imp fun hab =>
    String.not_lt.1 (of_decide_eq_true hab)
  · intro a b c hab hbc
    simp only [decide_eq_true_eq, String.not_lt] at hab hbc ⊢
    exact String.le_trans hab hbc
  · intro a b
    simp only [Bool.or_eq_true, decide_eq_true_eq, String.not_lt]
    exact String.le_total _ _

theorem sortFiles_lt {rs : List Record} (hnames : (rs.map fileName).Nodup) :
    ((sortFiles rs).map fileName).Pairwise (· < ·) := by
  have hsorted : ((sortFiles rs).map fileName).Nodup :=
    ((sortFiles_perm rs).map fileName).nodup_iff.2 hnames
  refine (List.pairwise_map.2 (sortFiles_pairwise rs)).imp₂ (?_) hsorted
  intro a b hle hne
  apply String.not_le.1
  intro hge
  exact hne (String.le_antisymm hle hge)

theorem sortFiles_eq_of_perm {rs rs' : List Record} (hnames : (rs.map fileName).Nodup)
    (h : rs.Perm rs') : sortFiles rs = sortFiles rs' := by
  refine (((sortFiles_perm rs).trans h).trans (sortFiles_perm rs').symm).eq_of_pairwise ?_
    (sortFiles_pairwise rs) (sortFiles_pairwise rs')
  intro a b ha hb hab hba
  -- files with one name are one file
  exact List.inj_on_of_nodup_map hnames ((sortFiles_perm rs).mem_iff.1 ha)
    (h.mem_iff.2 ((sortFiles_perm rs').mem_iff.1 hb))
    (String.le_antisymm hab hba)

theorem ofRecords_perm {rs rs' : List Record} {r : Registry} (h : rs.Perm rs')
    (hr : ofRecords rs = .ok r) : ofRecords rs' = .ok r := by
  obtain ⟨hmissing, hdefects, rfl⟩ := ofRecords_eq_ok_iff.1 hr
  have hdecls := h.map FileDecl.ofRecord
  refine ofRecords_eq_ok_iff.2 ⟨missingReference?_perm hdecls hmissing,
    defectsOf_perm hdecls hdefects, ?_⟩
  rw [defectsOf, List.append_eq_nil_iff] at hdefects
  obtain ⟨hfiles, hnames, -⟩ := nameDefects_eq_nil_iff.1 hdefects.1
  have hsort : sortFiles rs = sortFiles rs' := sortFiles_eq_of_perm (by
    rwa [List.map_map] at hfiles) h
  have hlink : ∀ f, File.link (rs.map FileDecl.ofRecord) f =
      File.link (rs'.map FileDecl.ofRecord) f := by
    intro f
    simp only [File.link, linkAll_congr (tableOf_agrees hfiles hnames hdecls f)]
  rw [hsort]
  simp only [hlink]

end Registry

end SchemaEvolution.Protobuf
