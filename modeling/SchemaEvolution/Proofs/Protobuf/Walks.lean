import Mathlib.Algebra.Order.BigOperators.Group.List
import Mathlib.Algebra.Order.Group.Nat
import Mathlib.Data.List.Perm.Subperm
import SchemaEvolution.Proofs.Protobuf.Positions

/-!
The two ways in which full names are built. The linker names what it links from the scope around it,
the search for missing references writes its own list of names; both go over the same places, so the
two are compared place by place.
-/

namespace SchemaEvolution.Protobuf

def namedPaths (files : List FileDecl) : List (FileDecl × List String) :=
  (locatedIn FileDecl.located files).map (fun x => (x.2.1, x.2.2.1 ++ [x.2.2.2.name])) ++
    (locatedIn FileDecl.locatedEnums files).map fun x => (x.2.1, x.2.2.1 ++ [x.2.2.2.name])

def FileDecl.fullName (f : FileDecl) (path : List String) : String := path.foldl qualify f.package

/-- With a dot before it, the full name of each message and enum is the package, the messages around
it and its own name, joined by dots. -/
structure JoinsNames (files : List FileDecl) : Prop where
  messages {place : List Nat} {f : FileDecl} {around : List String} {m : MessageDecl} :
    MessageAt files place f around m →
      "." ++ f.fullName (around ++ [m.name]) = f.reference (around ++ [m.name])
  enums {place : List Nat} {f : FileDecl} {around : List String} {e : EnumDecl} :
    EnumAt files place f around e →
      "." ++ f.fullName (around ++ [e.name]) = f.reference (around ++ [e.name])

theorem joinsNames_iff {files : List FileDecl} : JoinsNames files ↔
    ∀ x ∈ namedPaths files, "." ++ x.1.fullName x.2 = x.1.reference x.2 := by
  simp only [namedPaths, List.forall_mem_append, List.forall_mem_map, Prod.forall,
    mem_locatedIn_located, mem_locatedIn_locatedEnums]
  constructor
  · intro h
    constructor
    · intro _ _ _ _
      exact h.messages
    · intro _ _ _ _
      exact h.enums
  · intro h
    exact ⟨fun hm => h.1 _ _ _ _ hm, fun he => h.2 _ _ _ _ he⟩

@[simp] theorem foldl_qualify_concat (scope : String) (around : List String) (name : String) :
    (around ++ [name]).foldl qualify scope = qualify (around.foldl qualify scope) name := by
  rw [List.foldl_append]
  rfl

theorem linkedNames_eq (decls files : List FileDecl) :
    ((files.map (File.link decls)).flatMap File.allMessages).map (·.fullName) ++
      ((files.map (File.link decls)).flatMap File.allEnums).map (·.fullName) =
        (namedPaths files).map fun x => x.1.fullName x.2 := by
  rw [flatMap_allMessages_link, flatMap_allEnums_link, namedPaths, List.map_append]
  simp only [List.map_map, FileDecl.fullName, Function.comp_def, Message.link_fullName,
    foldl_qualify_concat]
  rfl

mutual

theorem MessageDecl.named_perm (scope : String) (m : MessageDecl) : (m.named scope).Perm
    (m.located.map fun x => (scope ++ dotted (x.2.1 ++ [x.2.2.name]), x.2.2)) := by
  cases m with
  | mk name fields nested =>
    have hnested := @map_numbered _ 0 (locatedEach nested) _
      fun y : List String × MessageDecl => (scope ++ "." ++ name ++ dotted (y.1 ++ [y.2.name]), y.2)
    rw [MessageDecl.named, MessageDecl.located, List.map_cons, List.map_map]
    refine (List.perm_append_singleton _ _).trans (((namedAll_perm _ nested).cons _).trans ?_)
    refine .of_eq (congrArg₂ _ (by simp [dotted, String.append_assoc]) (hnested.symm.trans ?_))
    apply List.map_congr_left
    intro x _
    simp [dotted, String.append_assoc]

theorem namedAll_perm (scope : String) (ms : List MessageDecl) : (namedAll scope ms).Perm
    ((locatedEach ms).flatten.map fun x => (scope ++ dotted (x.2.1 ++ [x.2.2.name]), x.2.2)) := by
  match ms with
  | [] => exact .refl _
  | m :: ms =>
    rw [namedAll, locatedEach, List.flatten_cons, List.map_append]
    exact (m.named_perm scope).append (namedAll_perm scope ms)

end

theorem FileDecl.namedMessages_perm (f : FileDecl) : f.namedMessages.Perm
    (f.located.map fun x => (f.reference (x.2.1 ++ [x.2.2.name]), x.2.2)) := by
  refine (namedAll_perm _ _).trans (.of_eq ?_)
  rw [locatedEach_eq]
  exact (map_numbered fun y : List String × MessageDecl =>
    (f.reference (y.1 ++ [y.2.name]), y.2)).symm

theorem map_reference_enumsIn (f : FileDecl) (place : List Nat) (around : List String)
    (es : List EnumDecl) :
    ((enumsIn place around es).map fun x => f.reference (x.2.1 ++ [x.2.2.name])) =
      es.map fun e => f.reference (around ++ [e.name]) := by
  conv_rhs => rw [← List.zipIdx_map_fst 0 es]
  rw [enumsIn, List.map_map, List.map_map]
  rfl

theorem FileDecl.declared_perm (f : FileDecl) :
    (f.namedEnums ++ f.namedMessages.flatMap fun m =>
      m.1 :: m.2.enums.map fun e => m.1 ++ "." ++ e.name).Perm
      ((f.located.map fun x => f.reference (x.2.1 ++ [x.2.2.name])) ++
        f.locatedEnums.map fun x => f.reference (x.2.1 ++ [x.2.2.name])) := by
  have henums : f.namedEnums =
      (enumsIn [] [] f.enums).map fun x => f.reference (x.2.1 ++ [x.2.2.name]) := by
    rw [map_reference_enumsIn, namedEnums]
    simp only [List.nil_append, reference_singleton]
  have hnested : (f.namedMessages.flatMap fun m =>
      m.1 :: m.2.enums.map fun e => m.1 ++ "." ++ e.name).Perm
      ((f.located.map fun x => f.reference (x.2.1 ++ [x.2.2.name])) ++ f.located.flatMap fun x =>
        (enumsIn x.1 (x.2.1 ++ [x.2.2.name]) x.2.2.enums).map fun y =>
          f.reference (y.2.1 ++ [y.2.2.name])) := by
    refine (f.namedMessages_perm.flatMap_right _).trans ?_
    rw [List.flatMap_map]
    simp only [map_reference_enumsIn, f.reference_append (_ ++ _)]
    exact (List.map_append_flatMap_perm _ _ _).symm
  rw [henums, locatedEnums, List.map_append, List.map_flatMap]
  refine (hnested.append_left _).trans ?_
  rw [← List.append_assoc, ← List.append_assoc]
  exact List.perm_append_comm.append_right _

theorem declaredTypes_perm_namedPaths (files : List FileDecl) :
    (declaredTypes files).Perm ((namedPaths files).map fun x => x.1.reference x.2) := by
  rw [declaredTypes, List.flatMap_assoc, namedPaths, List.map_append, List.map_map, List.map_map]
  refine (List.flatMap_append_perm _ _ _).trans ?_
  refine (List.Perm.flatMap (.refl files) fun f _ => f.declared_perm).trans ?_
  refine (List.flatMap_append_perm _ _ _).symm.trans (.of_eq ?_)
  congr 1
  · exact (map_locatedIn fun f (x : List String × MessageDecl) =>
      f.reference (x.1 ++ [x.2.name])).symm
  · exact (map_locatedIn fun f (x : List String × EnumDecl) =>
      f.reference (x.1 ++ [x.2.name])).symm

theorem foldl_qualify_eq {scope : String} (h : scope ≠ "") (path : List String) :
    path.foldl qualify scope = scope ++ dotted path := by
  induction path generalizing scope with
  | nil => simp [dotted]
  | cons name path ih =>
    have hname : qualify scope name = scope ++ "." ++ name := if_neg h
    rw [List.foldl_cons, ih (qualify_ne_empty (.inl h)), hname, dotted]
    simp only [String.append_assoc]

theorem dot_foldl_qualify (path : List String) (h : path ≠ []) :
    "." ++ path.foldl qualify "" = dotted path ∨
      ("." ++ path.foldl qualify "").length < (dotted path).length := by
  induction path with
  | nil => exact (h rfl).elim
  | cons name path ih =>
    have hname : qualify "" name = name := if_pos rfl
    rw [List.foldl_cons, hname, dotted]
    by_cases hempty : name = ""
    · subst hempty
      cases path with
      | nil => exact .inl (by simp [dotted])
      | cons name path =>
        refine .inr ?_
        have hlength := (ih (by simp)).elim (fun heq => Nat.le_of_eq (congrArg _ heq)) Nat.le_of_lt
        have hdot : 0 < ".".length := by decide
        simp only [String.length_append] at hlength ⊢
        omega
    · rw [foldl_qualify_eq hempty, String.append_assoc]
      exact .inl rfl

theorem FileDecl.fullName_eq_or_shorter (f : FileDecl) {path : List String} (h : path ≠ []) :
    "." ++ f.fullName path = f.reference path ∨
      ("." ++ f.fullName path).length < (f.reference path).length := by
  unfold fullName reference rootScope
  by_cases hpackage : f.package = ""
  · rw [hpackage, if_pos rfl, String.empty_append]
    exact dot_foldl_qualify path h
  · rw [if_neg hpackage, foldl_qualify_eq hpackage, String.append_assoc]
    exact .inl rfl

theorem path_ne_nil_of_mem_namedPaths {files : List FileDecl} {x : FileDecl × List String}
    (h : x ∈ namedPaths files) : x.2 ≠ [] := by
  simp only [namedPaths, List.mem_append, List.mem_map] at h
  obtain ⟨y, -, rfl⟩ | ⟨y, -, rfl⟩ := h <;> simp

/-- Two ways of writing names, the first of them without repetition and never longer, give the same
set only if they agree on everything. -/
theorem eq_of_subset_of_shorter {α : Type u} {xs : List α} {g h : α → String}
    (hnodup : (xs.map g).Nodup) (hshorter : ∀ x ∈ xs, g x = h x ∨ (g x).length < (h x).length)
    (hsubset : xs.map g ⊆ xs.map h) : ∀ x ∈ xs, g x = h x := by
  have hperm : (xs.map g).Perm (xs.map h) :=
    (List.subperm_of_subset hnodup hsubset).perm_of_length_le (by simp)
  have hsum : (xs.map fun x => (g x).length).sum = (xs.map fun x => (h x).length).sum := by
    simpa [List.map_map, Function.comp_def] using (hperm.map String.length).sum_eq
  intro x hx
  refine (hshorter x hx).resolve_right fun hlt => Nat.ne_of_lt ?_ hsum
  refine List.sum_lt_sum _ _ (?_) ⟨x, hx, hlt⟩
  intro y hy
  exact (hshorter y hy).elim (fun heq => Nat.le_of_eq (congrArg _ heq)) Nat.le_of_lt

theorem joinsNames_iff_same_names {files : List FileDecl}
    (hnodup : ((namedPaths files).map fun x => x.1.fullName x.2).Nodup) :
    JoinsNames files ↔ ∀ name, name ∈ declaredTypes files ↔
      ∃ t ∈ (namedPaths files).map (fun x => x.1.fullName x.2), name = "." ++ t := by
  simp only [joinsNames_iff, (declaredTypes_perm_namedPaths files).mem_iff, List.mem_map,
    exists_exists_and_eq_and]
  constructor
  · intro h name
    apply exists_congr
    intro x
    apply and_congr_right
    intro hx
    rw [h x hx, eq_comm]
  · intro h
    refine eq_of_subset_of_shorter ?_
      (fun x hx => x.1.fullName_eq_or_shorter (path_ne_nil_of_mem_namedPaths hx)) ?_
    · have hdot := hnodup.map (f := ("." ++ ·)) fun s t hst => by simpa using hst
      rwa [List.map_map] at hdot
    · rintro name hname
      obtain ⟨x, hx, rfl⟩ := List.mem_map.1 hname
      exact List.mem_map.2 ((h _).2 ⟨x, hx, rfl⟩)

theorem FileDecl.dot_fullName {f : FileDecl} {name : String} (h : f.package ≠ "" ∨ name ≠ "")
    (path : List String) : "." ++ f.fullName (name :: path) = f.reference (name :: path) := by
  rw [fullName, List.foldl_cons, foldl_qualify_eq (qualify_ne_empty h), ← String.append_assoc,
    dot_qualify, reference, dotted]
  simp only [String.append_assoc]

theorem MessageDecl.At.exists_path_eq {top m : MessageDecl} {place : List Nat}
    {around : List String} (h : top.At place around m) :
    ∃ path, around ++ [m.name] = top.name :: path := by
  cases h with
  | self => exact ⟨[], rfl⟩
  | inside => exact ⟨_, rfl⟩

theorem MessageAt.exists_path_eq {files : List FileDecl} {place : List Nat} {f : FileDecl}
    {around : List String} {m : MessageDecl} (h : MessageAt files place f around m) :
    f ∈ files ∧ ∃ top ∈ f.messages, ∃ path, around ++ [m.name] = top.name :: path := by
  cases h with
  | intro hf htop hm =>
    exact ⟨List.mem_of_getElem? hf, _, List.mem_of_getElem? htop, hm.exists_path_eq⟩

theorem joinsNames_of_named {files : List FileDecl} (h : ∀ f ∈ files, f.Named) :
    JoinsNames files := by
  have hbelow {place : List Nat} {f : FileDecl} {around : List String} {m : MessageDecl}
      (hm : MessageAt files place f around m) (path : List String) :
      "." ++ f.fullName (around ++ [m.name] ++ path) =
        f.reference (around ++ [m.name] ++ path) := by
    obtain ⟨hf, top, htop, names, hnames⟩ := hm.exists_path_eq
    rw [hnames]
    exact FileDecl.dot_fullName ((h f hf).imp_right fun hnamed => hnamed top htop) (names ++ path)
  refine ⟨fun {_ f around m} hm => by simpa using hbelow hm [], ?_⟩
  intro _ f _ e he
  cases he with
  | top =>
    rw [List.nil_append, f.reference_singleton, ← dot_qualify]
    rfl
  | nested hm => exact hbelow hm [e.name]

namespace Registry

/-- The walks over an accepted set list each message and each enum once, messages by their places,
and everything listed is found by its name. The names are those that references are checked against,
exactly if all of them are joined by dots, and sorting them removes nothing. -/
theorem walks_agree {bytes : List UInt8} {set : Record} {r : Registry}
    (hset : MessageType.fileSet.decode? bytes = some set) (h : parse bytes = .ok r) :
    let decls := (filesOf set).map FileDecl.ofRecord
    let files := (sortFiles (filesOf set)).map FileDecl.ofRecord
    (files.Perm decls ∧ (files.map (·.name)).Pairwise (· < ·)) ∧
    (∃ found : List (List Nat × FileDecl × List String × MessageDecl),
      (found.map (·.1)).Pairwise (· < ·) ∧
      (∀ place f around m, (place, f, around, m) ∈ found ↔ MessageAt files place f around m) ∧
      r.allMessages = found.map fun x =>
        Message.link (tableOf decls x.2.1) (x.2.1.fullName x.2.2.1) x.2.2.2) ∧
    (∃ found : List (List Nat × FileDecl × List String × EnumDecl),
      (found.map (·.1)).Nodup ∧
      (∀ place f around e, (place, f, around, e) ∈ found ↔ EnumAt files place f around e) ∧
      r.allEnums = found.map fun x => EnumType.link (x.2.1.fullName x.2.2.1) x.2.2.2) ∧
    ((∀ m ∈ r.allMessages, r.message? m.fullName = some m) ∧
      ∀ e ∈ r.allEnums, r.enum? e.fullName = some e) ∧
    ((JoinsNames files ↔
        ∀ name, name ∈ declaredTypes decls ↔ ∃ t ∈ r.typeNames, name = "." ++ t) ∧
      ((∀ f ∈ files, f.Named) → JoinsNames files)) ∧
    r.typeNames.Perm (r.allMessages.map (·.fullName) ++ r.allEnums.map (·.fullName)) ∧
    r.fieldNames.Perm (r.allMessages.flatMap fun m => m.fields.map (·.fullName)) := by
  intro decls files
  have hdistinct := distinct_of_parse h
  obtain ⟨_, hset', hr⟩ := parse_eq_ok_iff.1 h
  cases hset.symm.trans hset'
  obtain ⟨-, hdefects, hr⟩ := ofRecords_eq_ok_iff.1 hr
  have hfiles : r.files = files.map (File.link decls) := by rw [hr, List.map_map]; rfl
  have hperm : files.Perm decls := (sortFiles_perm _).map _
  have hnodup : ((filesOf set).map fileName).Nodup := by
    rw [defectsOf, List.append_eq_nil_iff, nameDefects_eq_nil_iff, List.map_map] at hdefects
    exact hdefects.1.1
  have hnames : r.allMessages.map (·.fullName) ++ r.allEnums.map (·.fullName) =
      (namedPaths files).map fun x => x.1.fullName x.2 := by
    rw [allMessages, allEnums, hfiles, linkedNames_eq]
  refine ⟨⟨hperm, ?_⟩, ⟨locatedIn FileDecl.located files, ?_, ?_, ?_⟩,
    ⟨locatedIn FileDecl.locatedEnums files, ?_, ?_, ?_⟩, ⟨?_, ?_⟩, ⟨?_, joinsNames_of_named⟩, ?_, ?_⟩
  · rw [List.map_map]
    exact sortFiles_lt hnodup
  · apply numbered_lt
    exact places_locatedIn FileDecl.located_lt
  · intro place f around m
    exact mem_locatedIn_located
  · rw [allMessages, hfiles]
    exact flatMap_allMessages_link decls files
  · apply numbered_nodup
    exact places_locatedIn FileDecl.locatedEnums_nodup
  · intro place f around e
    exact mem_locatedIn_locatedEnums
  · rw [allEnums, hfiles]
    exact flatMap_allEnums_link decls files
  · intro m hm
    exact hdistinct.message?_eq hm
  · intro e he
    exact hdistinct.enum?_eq he
  · rw [joinsNames_iff_same_names (hnames ▸ hdistinct.typeNames)]
    simp [(declaredTypes_perm hperm).mem_iff, typeNames, hnames]
  · exact Names.ofList_perm hdistinct.typeNames
  · exact Names.ofList_perm hdistinct.fieldNames

def nestedSet : List UInt8 :=
  let kind := Build.enumeration "Kind" [Build.enumValue "PLAIN" 0] [] []
  let inner := Build.message "Inner" [Build.field ⟨"value", 1, 5, none, none, false, false⟩] []
    [kind] [] []
  let side := Build.message "Side" [] [] [] [] []
  let outer := Build.message "Outer" [Build.field ⟨"id", 1, 9, none, none, false, false⟩]
    [inner, side] [] [] []
  let last := Build.message "Last" [] [] [] [] []
  Build.descriptorSet [Build.file "a.proto" "a" "proto3" [] [outer, last] []]

theorem walks_agree_nestedSet : ∃ set r, MessageType.fileSet.decode? nestedSet = some set ∧
    parse nestedSet = .ok r ∧
    r.allMessages.map (·.fullName) = ["a.Outer", "a.Outer.Inner", "a.Outer.Side", "a.Last"] ∧
    r.allEnums.map (·.fullName) = ["a.Outer.Inner.Kind"] ∧
    (∀ name, name ∈ declaredTypes ((filesOf set).map FileDecl.ofRecord) ↔
      ∃ t ∈ r.typeNames, name = "." ++ t) ∧
    r.fieldNames.Perm ["a.Outer.id", "a.Outer.Inner.value"] := by
  obtain ⟨set, hset, hpackages⟩ := exists_decode_of_any nestedSet
    (fun files => files.all fun f => f.package ≠ "") (by decide +kernel)
  obtain ⟨r, hr, hshape⟩ := exists_ok_of_map_toOption (x := parse nestedSet)
    (g := fun r => (r.allMessages.map (·.fullName), r.allEnums.map (·.fullName),
      r.allMessages.flatMap fun m => m.fields.map (·.fullName)))
    (b := (["a.Outer", "a.Outer.Inner", "a.Outer.Side", "a.Last"], ["a.Outer.Inner.Kind"],
      ["a.Outer.id", "a.Outer.Inner.value"])) (by decide +kernel)
  simp only [Prod.mk.injEq] at hshape
  obtain ⟨⟨hperm, -⟩, -, -, -, ⟨hnames, hjoins⟩, -, hfields⟩ := walks_agree hset hr
  refine ⟨set, r, hset, hr, hshape.1, hshape.2.1, hnames.1 (hjoins fun f hf => .inl ?_),
    hshape.2.2 ▸ hfields⟩
  simp only [List.all_eq_true, decide_eq_true_eq] at hpackages
  exact hpackages f (hperm.mem_iff.1 hf)

end Registry

end SchemaEvolution.Protobuf
