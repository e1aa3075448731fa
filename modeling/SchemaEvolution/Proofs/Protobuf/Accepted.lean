import Mathlib.Data.List.Flatten
import Mathlib.Data.List.Nodup
import Mathlib.Data.List.Pairwise
import Mathlib.Data.List.Perm.Basic
import SchemaEvolution.Proofs.Names
import SchemaEvolution.Proofs.Protobuf.Compatible
import SchemaEvolution.Proofs.Protobuf.Nesting

namespace SchemaEvolution.Protobuf

def MessageDecl.declaredNames (scope : String) (m : MessageDecl) : List String :=
  let full := qualify scope m.name
  full :: (m.fields.map (fun f => qualify full f.name) ++ m.enums.map fun e => qualify full e.name)

namespace FileDecl

def placed (f : FileDecl) : List (String × MessageDecl) := placedAll f.package f.messages

def declaredNames (f : FileDecl) : List String :=
  f.placed.flatMap (fun x => x.2.declaredNames x.1) ++ f.enums.map fun e => qualify f.package e.name

end FileDecl

@[simp] theorem Message.link_fullName (t : Table) (scope : String) (m : MessageDecl) :
    (Message.link t scope m).fullName = qualify scope m.name := by
  cases m; rfl

@[simp] theorem Message.link_fields (t : Table) (scope : String) (m : MessageDecl) :
    (Message.link t scope m).fields =
      sortFields (m.fields.map (Field.link t (qualify scope m.name))) := by
  cases m; rfl

@[simp] theorem Message.link_enums (t : Table) (scope : String) (m : MessageDecl) :
    (Message.link t scope m).enums = m.enums.map (EnumType.link (qualify scope m.name)) := by
  cases m; rfl

theorem File.allMessages_link (files : List FileDecl) (f : FileDecl) :
    (File.link files f).allMessages =
      f.placed.map fun x => Message.link (tableOf files f) x.1 x.2 :=
  walkAll_linkAll _ _ _

theorem File.allEnums_link (files : List FileDecl) (f : FileDecl) :
    (File.link files f).allEnums = f.enums.map (EnumType.link f.package) ++
      f.placed.flatMap fun x => x.2.enums.map (EnumType.link (qualify x.1 x.2.name)) := by
  rw [allEnums, allMessages_link, List.flatMap_map]
  simp only [Message.link_enums]
  rfl

def Message.names (m : Message) : List String := m.fullName :: m.fields.map (·.fullName)

def File.declaredNames (f : File) : List String :=
  f.allMessages.flatMap Message.names ++ f.allEnums.map (·.fullName)

theorem File.fullName_mem_declaredNames {f : File} {m : Message} (h : m ∈ f.allMessages) :
    m.fullName ∈ f.declaredNames :=
  List.mem_append_left _ (List.mem_flatMap.2 ⟨m, h, .head _⟩)

theorem Message.names_link_perm (t : Table) (scope : String) (m : MessageDecl) :
    (Message.link t scope m).names.Perm (qualify scope m.name ::
      m.fields.map fun f => qualify (qualify scope m.name) f.name) := by
  rw [names, link_fullName, link_fields]
  refine (((List.mergeSort_perm _ _).map _).trans ?_).cons _
  rw [List.map_map]
  exact .refl _

theorem Message.numbers_link_perm (t : Table) (scope : String) (m : MessageDecl) :
    ((Message.link t scope m).fields.map (·.number)).Perm (m.fields.map (·.number)) := by
  rw [link_fields]
  refine ((List.mergeSort_perm _ _).map _).trans ?_
  rw [List.map_map]
  exact .refl _

theorem File.declaredNames_link_perm (files : List FileDecl) (f : FileDecl) :
    (File.link files f).declaredNames.Perm f.declaredNames := by
  have hm : ((File.link files f).allMessages.flatMap Message.names).Perm
      (f.placed.flatMap fun x => qualify x.1 x.2.name ::
        x.2.fields.map fun g => qualify (qualify x.1 x.2.name) g.name) := by
    rw [allMessages_link, List.flatMap_map]
    exact .flatMap (.refl _) fun x _ => Message.names_link_perm _ _ _
  have he : (File.link files f).allEnums.map (·.fullName) =
      f.enums.map (fun e => qualify f.package e.name) ++
        f.placed.flatMap fun x => x.2.enums.map fun e => qualify (qualify x.1 x.2.name) e.name := by
    rw [allEnums_link, List.map_append, List.map_flatMap, List.map_map]
    simp only [List.map_map]
    rfl
  rw [File.declaredNames, he, FileDecl.declaredNames]
  refine (hm.append List.perm_append_comm).trans ?_
  rw [← List.append_assoc]
  exact (List.flatMap_append_perm _ _ _).append_right _

theorem MessageDecl.declaredNames_sublist (file : Nat) (scope : String) (m : MessageDecl) :
    (m.declaredNames scope).Sublist ((m.ownDefinitions file scope).map (·.name)) := by
  have hf : (m.fields.map fun f => qualify (qualify scope m.name) f.name).Sublist
      (((m.fields.map (·.name) ++ m.oneofs ++ m.extensions.map (·.name)).map fun n =>
        (⟨qualify (qualify scope m.name) n, .member, file⟩ : Definition)).map (·.name)) := by
    simp only [List.map_append, List.map_map, List.append_assoc]
    exact List.sublist_append_left _ _
  have he : (m.enums.map fun e => qualify (qualify scope m.name) e.name).Sublist
      ((m.enums.flatMap (·.definitions file (qualify scope m.name))).map (·.name)) := by
    rw [List.map_flatMap, List.map_eq_flatMap]
    exact .flatMap_right _ fun e _ => by simp [EnumDecl.definitions]
  rw [declaredNames, ownDefinitions, List.cons_append, List.map_cons, List.map_append]
  exact .cons_cons _ (hf.append he)

theorem FileDecl.declaredNames_sublist (file : Nat) (f : FileDecl) :
    f.declaredNames.Sublist ((f.definitions file).map (·.name)) := by
  have hm : (f.placed.flatMap fun x => x.2.declaredNames x.1).Sublist
      ((definitionsOfAll file f.package f.messages).map (·.name)) := by
    rw [definitionsOfAll_eq, List.map_flatMap]
    exact .flatMap_right _ fun x _ => x.2.declaredNames_sublist file x.1
  have he : (f.enums.map fun e => qualify f.package e.name).Sublist
      ((f.enums.flatMap (·.definitions file f.package)).map (·.name)) := by
    rw [List.map_flatMap, List.map_eq_flatMap]
    exact .flatMap_right _ fun e _ => by simp [EnumDecl.definitions]
  simp only [declaredNames, definitions, List.map_append, List.append_assoc]
  exact hm.append (he.trans (List.sublist_append_left _ _))

theorem declaredNames_sublist_definitionsOf (files : List FileDecl) :
    (files.flatMap FileDecl.declaredNames).Sublist ((definitionsOf files).map (·.name)) := by
  rw [definitionsOf, List.map_flatMap]
  conv_lhs => rw [← List.zipIdx_map_fst 0 files, List.flatMap_map]
  exact .flatMap_right _ fun x _ => x.1.declaredNames_sublist x.2

@[simp] theorem demand_eq_nil_iff {holds : Bool} {d : Defect} : demand holds d = [] ↔ holds = true := by
  cases holds <;> simp [demand]

@[simp] theorem isNodup_iff {α : Type u} [DecidableEq α] {xs : List α} : isNodup xs ↔ xs.Nodup := by
  induction xs with
  | nil => simp [isNodup]
  | cons x xs ih => simp [isNodup, ih]

theorem names_nodup {files : List FileDecl} (h : defectsOf files = []) :
    ((definitionsOf files).map (·.name)).Nodup := by
  simp only [defectsOf, nameDefects, List.append_eq_nil_iff, demand_eq_nil_iff,
    Bool.and_eq_true] at h
  exact isNodup_iff.1 h.1.2.1

theorem ownDefects_eq_nil {files : List FileDecl} (h : defectsOf files = []) {f : FileDecl}
    (hf : f ∈ files) {x : String × MessageDecl} (hx : x ∈ f.placed) :
    x.2.ownDefects (tableOf files f) (Surroundings.of files) f.syntaxName x.1 = [] := by
  simp only [defectsOf, List.append_eq_nil_iff, List.flatMap_eq_nil_iff] at h
  have hfile := h.2 f hf
  simp only [FileDecl.defects, List.append_eq_nil_iff, defectsOfAll_eq,
    List.flatMap_eq_nil_iff] at hfile
  exact hfile.1.1.1.2 x hx

theorem fieldNumbers_nodup {files : List FileDecl} (h : defectsOf files = []) {f : FileDecl}
    (hf : f ∈ files) {x : String × MessageDecl} (hx : x ∈ f.placed) :
    (x.2.fields.map (·.number)).Nodup := by
  have hown := ownDefects_eq_nil h hf hx
  simp only [MessageDecl.ownDefects, List.append_eq_nil_iff, demand_eq_nil_iff] at hown
  exact isNodup_iff.1 hown.1.1.1.1.2

theorem insertValue_perm (v : String × Int) (vs : List (String × Int)) :
    (insertValue v vs).Perm (v :: vs) := by
  induction vs with
  | nil => exact .refl _
  | cons w rest ih =>
    rw [insertValue]
    split
    · exact .refl _
    · exact (ih.cons w).trans (.swap v w rest)

theorem sortValues_perm (vs : List (String × Int)) : (sortValues vs).Perm vs := by
  have h : ∀ sorted : List (String × Int),
      (vs.foldl (fun sorted v => insertValue v sorted) sorted).Perm (vs ++ sorted) := by
    induction vs with
    | nil => exact fun sorted => .refl _
    | cons v vs ih =>
      intro sorted
      refine (ih _).trans ?_
      exact ((insertValue_perm v sorted).append_left vs).trans List.perm_middle
  rw [sortValues]
  simpa using h []

theorem enumValues_nodup {file : Nat} {scope : String} {e : EnumDecl}
    (h : ((e.definitions file scope).map (·.name)).Nodup) : (e.values.map (·.1)).Nodup := by
  rw [EnumDecl.definitions, List.map_cons, List.nodup_cons, List.map_map] at h
  apply List.Nodup.of_map (qualify scope)
  rw [List.map_map]
  exact h.2

theorem enumDefinitions_nodup {files : List FileDecl} (h : defectsOf files = []) {f : FileDecl}
    (hf : f ∈ files) {e : EnumType} (he : e ∈ (File.link files f).allEnums) :
    (e.values.map (·.1)).Nodup := by
  obtain ⟨i, hi⟩ : ∃ i, (f, i) ∈ files.zipIdx := by
    rw [← List.zipIdx_map_fst 0 files] at hf
    obtain ⟨⟨g, i⟩, hg, rfl⟩ := List.mem_map.1 hf
    exact ⟨i, hg⟩
  have hnames := names_nodup h
  rw [definitionsOf, List.map_flatMap, List.nodup_flatMap] at hnames
  have hfile := hnames.1 _ hi
  simp only [FileDecl.definitions, List.map_append, List.nodup_append', definitionsOfAll_eq,
    List.map_flatMap, List.nodup_flatMap] at hfile
  have hvalues : ∀ (scope : String) (d : EnumDecl), ((d.definitions i scope).map (·.name)).Nodup →
      ((EnumType.link scope d).values.map (·.1)).Nodup := by
    intro scope d hd
    exact ((sortValues_perm d.values).map _).nodup_iff.2 (enumValues_nodup hd)
  rw [File.allEnums_link, List.mem_append] at he
  rcases he with he | he
  · obtain ⟨d, hd, rfl⟩ := List.mem_map.1 he
    exact hvalues _ d (hfile.1.1.2.1.1 d hd)
  · obtain ⟨x, hx, he⟩ := List.mem_flatMap.1 he
    obtain ⟨d, hd, rfl⟩ := List.mem_map.1 he
    have hown := hfile.1.1.1.1 x hx
    simp only [MessageDecl.ownDefinitions, List.cons_append, List.map_cons, List.nodup_cons,
      List.map_append, List.nodup_append', List.map_flatMap, List.nodup_flatMap] at hown
    exact hvalues _ d (hown.2.2.1.1 d hd)

theorem exists_ok_of_map_toOption {ε α β : Type*} {x : Except ε α} {g : α → β} {b : β}
    (h : x.toOption.map g = some b) : ∃ a, x = .ok a ∧ g a = b := by
  cases x with
  | error e => simp [Except.toOption] at h
  | ok a => exact ⟨a, rfl, by simpa [Except.toOption] using h⟩

theorem exists_ok_of_bind_toOption {ε α β γ : Type*} {x : Except ε α} {y : Except ε β}
    {g : α → β → γ} {c : γ} (h : (x.toOption.bind fun a => y.toOption.map (g a)) = some c) :
    ∃ a b, x = .ok a ∧ y = .ok b ∧ g a b = c := by
  cases x with
  | error e => simp [Except.toOption] at h
  | ok a =>
    obtain ⟨b, hb, hg⟩ := exists_ok_of_map_toOption (x := y) (g := g a) h
    exact ⟨a, b, rfl, hb, hg⟩

/-- What tells the parts of an accepted registry apart. -/
structure Registry.Distinct (r : Registry) : Prop where
  names : (r.files.flatMap File.declaredNames).Nodup
  fields : ∀ m ∈ r.allMessages, (m.fields.map (·.number)).Nodup
  values : ∀ e ∈ r.allEnums, (e.values.map (·.1)).Nodup

namespace Registry

theorem ofRecords_eq_ok_iff {rs : List Record} {r : Registry} :
    ofRecords rs = .ok r ↔ missingReference? (rs.map FileDecl.ofRecord) = none ∧
      defectsOf (rs.map FileDecl.ofRecord) = [] ∧
      r = ⟨(sortFiles rs).map fun x => File.link (rs.map FileDecl.ofRecord) (FileDecl.ofRecord x),
        sortFiles rs⟩ := by
  simp only [ofRecords]
  split
  next m hm => simp [hm]
  next hm =>
    split
    next hd => simp [hm, hd, eq_comm]
    next hd => exact iff_of_false (by simp) fun h => hd h.2.1

theorem parse_eq_ok_iff {bytes : List UInt8} {r : Registry} :
    parse bytes = .ok r ↔
      ∃ set, MessageType.fileSet.decode? bytes = some set ∧ ofRecords (filesOf set) = .ok r := by
  unfold parse
  cases MessageType.fileSet.decode? bytes <;> simp

theorem sortFiles_perm (rs : List Record) : (sortFiles rs).Perm rs := List.mergeSort_perm _ _

theorem distinct_of_ofRecords {rs : List Record} {r : Registry} (h : ofRecords rs = .ok r) :
    r.Distinct := by
  obtain ⟨-, hdefects, rfl⟩ := ofRecords_eq_ok_iff.1 h
  generalize hfiles : rs.map FileDecl.ofRecord = files at hdefects
  have hmem : ∀ x ∈ sortFiles rs, FileDecl.ofRecord x ∈ files := by
    intro x hx
    exact hfiles ▸ List.mem_map_of_mem ((sortFiles_perm rs).mem_iff.1 hx)
  constructor
  case names =>
    have hperm : (((sortFiles rs).map fun x => File.link files (FileDecl.ofRecord x)).flatMap
        File.declaredNames).Perm (files.flatMap FileDecl.declaredNames) := by
      rw [← hfiles, List.flatMap_map, List.flatMap_map, hfiles]
      apply (sortFiles_perm rs).flatMap
      intro x _
      exact File.declaredNames_link_perm files _
    exact hperm.nodup_iff.2
      ((names_nodup hdefects).sublist (declaredNames_sublist_definitionsOf files))
  case fields =>
    intro m hm
    simp only [mem_allMessages, List.mem_map] at hm
    obtain ⟨_, ⟨x, hx, rfl⟩, hm⟩ := hm
    rw [File.allMessages_link] at hm
    obtain ⟨y, hy, rfl⟩ := List.mem_map.1 hm
    exact (Message.numbers_link_perm _ _ _).nodup_iff.2 (fieldNumbers_nodup hdefects (hmem x hx) hy)
  case values =>
    intro e he
    simp only [mem_allEnums, List.mem_map] at he
    obtain ⟨_, ⟨x, hx, rfl⟩, he⟩ := he
    exact enumDefinitions_nodup hdefects (hmem x hx) he

theorem distinct_of_parse {bytes : List UInt8} {r : Registry} (h : parse bytes = .ok r) :
    r.Distinct := by
  obtain ⟨set, -, hr⟩ := parse_eq_ok_iff.1 h
  exact distinct_of_ofRecords hr

end Registry

namespace Registry.Distinct

variable {r : Registry}

theorem files (h : r.Distinct) : (∀ f ∈ r.files, f.declaredNames.Nodup) ∧
    r.files.Pairwise fun f g => f.declaredNames.Disjoint g.declaredNames :=
  List.nodup_flatMap.1 h.names

theorem typeNames (h : r.Distinct) :
    (r.allMessages.map (·.fullName) ++ r.allEnums.map (·.fullName)).Nodup := by
  rw [allMessages, allEnums, List.map_flatMap, List.map_flatMap]
  refine (List.flatMap_append_perm _ _ _).nodup_iff.2 (h.names.sublist ?_)
  refine .flatMap_right _ fun f _ => .append ?_ (.refl _)
  rw [List.map_eq_flatMap]
  exact .flatMap_right _ fun m _ => by simp [Message.names]

theorem fieldNames (h : r.Distinct) :
    (r.allMessages.flatMap fun m => m.fields.map (·.fullName)).Nodup := by
  rw [allMessages, List.flatMap_assoc]
  refine h.names.sublist (.flatMap_right _ ?_)
  intro f _
  refine .trans (.flatMap_right _ ?_) (List.sublist_append_left _ _)
  intro m _
  exact List.sublist_cons_self _ _

theorem messageNames (h : r.Distinct) : (r.allMessages.map (·.fullName)).Nodup :=
  (List.nodup_append.1 h.typeNames).1

theorem enumNames (h : r.Distinct) : (r.allEnums.map (·.fullName)).Nodup :=
  (List.nodup_append.1 h.typeNames).2.1

theorem message?_eq (h : r.Distinct) {m : Message} (hm : m ∈ r.allMessages) :
    r.message? m.fullName = some m :=
  Names.find?_eq_some_of_nodup_map h.messageNames hm

theorem enum?_eq (h : r.Distinct) {e : EnumType} (he : e ∈ r.allEnums) :
    r.enum? e.fullName = some e :=
  Names.find?_eq_some_of_nodup_map h.enumNames he

theorem field?_eq (h : r.Distinct) {m : Message} (hm : m ∈ r.allMessages) {f : Field}
    (hf : f ∈ m.fields) : m.field? f.number = some f :=
  Names.find?_eq_some_of_nodup_map (h.fields m hm) hf

theorem number?_eq (h : r.Distinct) {e : EnumType} (he : e ∈ r.allEnums) {v : String × Int}
    (hv : v ∈ e.values) : e.number? v.1 = some v.2 :=
  Names.lookup_eq_some_of_nodup_keys (h.values e he) hv

theorem fileOf?_eq (h : r.Distinct) {f : File} (hf : f ∈ r.files) {m : Message}
    (hm : m ∈ f.allMessages) : r.fileOf? m.fullName = some f := by
  obtain ⟨g, hg⟩ := fileOf?_isSome_of_message? (h.message?_eq (mem_allMessages.2 ⟨f, hf, hm⟩))
  obtain ⟨hgr, n, hn, hname⟩ := fileOf?_eq_some hg
  -- files share no names, so the one that was found is the one the message is in
  have hsymm : Std.Symm fun f g : File => f = g ∨ f.declaredNames.Disjoint g.declaredNames := by
    refine ⟨?_⟩
    intro _ _ hfg
    exact hfg.imp Eq.symm List.disjoint_symm
  have hpair : g = f ∨ g.declaredNames.Disjoint f.declaredNames :=
    (h.files.2.imp fun hd => Or.inr hd).forall_of_forall (fun _ _ => .inl rfl) hgr hf
  rcases hpair with rfl | hdisjoint
  · exact hg
  · refine (hdisjoint (File.fullName_mem_declaredNames hn) ?_).elim
    rw [hname]
    exact File.fullName_mem_declaredNames hm

end Registry.Distinct

end SchemaEvolution.Protobuf
