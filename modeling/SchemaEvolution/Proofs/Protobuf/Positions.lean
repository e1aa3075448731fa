import SchemaEvolution.Proofs.Protobuf.Contained

namespace SchemaEvolution.Protobuf

/-- What is nested in a message at a place, with the names of the messages around it. A message is
around all that is nested in it, and is itself at the empty place. -/
inductive MessageDecl.At : MessageDecl → List Nat → List String → MessageDecl → Prop
  | self (m : MessageDecl) : m.At [] [] m
  | inside {m child n : MessageDecl} {i : Nat} {place : List Nat} {around : List String} :
    m.nested[i]? = some child → child.At place around n → m.At (i :: place) (m.name :: around) n

inductive MessageAt (files : List FileDecl) :
    List Nat → FileDecl → List String → MessageDecl → Prop
  | intro {f : FileDecl} {m n : MessageDecl} {k i : Nat} {place : List Nat} {around : List String} :
    files[k]? = some f → f.messages[i]? = some m → m.At place around n →
      MessageAt files (k :: i :: place) f around n

inductive EnumAt (files : List FileDecl) : List Nat → FileDecl → List String → EnumDecl → Prop
  | top {f : FileDecl} {e : EnumDecl} {k i : Nat} :
    files[k]? = some f → f.enums[i]? = some e → EnumAt files [k, i] f [] e
  | nested {f : FileDecl} {m : MessageDecl} {e : EnumDecl} {i : Nat} {place : List Nat}
    {around : List String} : MessageAt files place f around m → m.enums[i]? = some e →
      EnumAt files (place ++ [i]) f (around ++ [m.name]) e

def numbered {α : Type u} (i : Nat) : List (List (List Nat × α)) → List (List Nat × α)
  | [] => []
  | xs :: xss => xs.map (fun x => (i :: x.1, x.2)) ++ numbered (i + 1) xss

section Numbered

variable {α : Type u} {i : Nat} {xss : List (List (List Nat × α))}

theorem mem_numbered {place : List Nat} {a : α} : (place, a) ∈ numbered i xss ↔
    ∃ j xs inner, xss[j]? = some xs ∧ (inner, a) ∈ xs ∧ place = (i + j) :: inner := by
  induction xss generalizing i with
  | nil => simp [numbered]
  | cons xs xss ih =>
    rw [numbered, List.mem_append, List.mem_map, ih]
    constructor
    · rintro (⟨x, hx, heq⟩ | ⟨j, ys, inner, hys, hmem, rfl⟩)
      · cases heq
        exact ⟨0, xs, x.1, rfl, hx, rfl⟩
      · exact ⟨j + 1, ys, inner, hys, hmem, by rw [Nat.add_right_comm, Nat.add_assoc]⟩
    · rintro ⟨_ | j, ys, inner, hys, hmem, rfl⟩
      · cases hys
        exact .inl ⟨_, hmem, rfl⟩
      · exact .inr ⟨j, ys, inner, hys, hmem, by rw [Nat.add_right_comm, Nat.add_assoc]⟩

theorem map_numbered {β : Type v} (g : α → β) :
    ((numbered i xss).map fun x => g x.2) = xss.flatten.map fun x => g x.2 := by
  induction xss generalizing i with
  | nil => rfl
  | cons xs xss ih =>
    rw [numbered, List.map_append, List.map_map, ih, List.flatten_cons, List.map_append]
    rfl

theorem pairwise_numbered {R : List Nat → List Nat → Prop}
    (hsame : ∀ i p q, R p q → R (i :: p) (i :: q)) (hnext : ∀ i j p q, i < j → R (i :: p) (j :: q))
    (h : ∀ xs ∈ xss, (xs.map (·.1)).Pairwise R) : ((numbered i xss).map (·.1)).Pairwise R := by
  induction xss generalizing i with
  | nil => exact .nil
  | cons xs xss ih =>
    obtain ⟨hxs, hxss⟩ := List.forall_mem_cons.1 h
    rw [numbered, List.map_append, List.map_map, List.pairwise_append]
    refine ⟨?_, ih hxss, ?_⟩
    · rw [List.pairwise_map] at hxs ⊢
      exact hxs.imp (hsame i _ _)
    · intro p hp q hq
      obtain ⟨x, -, rfl⟩ := List.mem_map.1 hp
      obtain ⟨⟨place, a⟩, hy, rfl⟩ := List.mem_map.1 hq
      obtain ⟨j, _, inner, -, -, rfl⟩ := mem_numbered.1 hy
      exact hnext _ _ _ _ (by omega)

theorem numbered_lt (h : ∀ xs ∈ xss, (xs.map (·.1)).Pairwise (· < ·)) :
    ((numbered i xss).map (·.1)).Pairwise (· < ·) :=
  pairwise_numbered (fun _ _ _ hpq => List.cons_lt_cons_iff.2 (.inr ⟨rfl, hpq⟩))
    (fun _ _ _ _ hij => List.cons_lt_cons_iff.2 (.inl hij)) h

theorem numbered_nodup (h : ∀ xs ∈ xss, (xs.map (·.1)).Nodup) :
    ((numbered i xss).map (·.1)).Nodup :=
  pairwise_numbered (fun _ _ _ hpq => by simpa using hpq)
    (fun _ _ _ _ hij heq => Nat.ne_of_lt hij (List.cons.inj heq).1) h

end Numbered

mutual

def MessageDecl.located : MessageDecl → List (List Nat × List String × MessageDecl)
  | m@{ name, nested, .. } =>
    ([], [], m) :: (numbered 0 (locatedEach nested)).map fun x => (x.1, name :: x.2.1, x.2.2)

def locatedEach : List MessageDecl → List (List (List Nat × List String × MessageDecl))
  | [] => []
  | m :: ms => m.located :: locatedEach ms

end

theorem locatedEach_eq (ms : List MessageDecl) : locatedEach ms = ms.map MessageDecl.located := by
  induction ms with
  | nil => rfl
  | cons m ms ih => rw [locatedEach, ih, List.map_cons]

theorem MessageDecl.located_eq (m : MessageDecl) : m.located = ([], [], m) ::
    (numbered 0 (m.nested.map located)).map fun x => (x.1, m.name :: x.2.1, x.2.2) := by
  cases m
  rw [located, locatedEach_eq]

theorem mem_numbered_map {α β : Type*} {g : α → List (List Nat × β)} {xs : List α}
    {place : List Nat} {b : β} : (place, b) ∈ numbered 0 (xs.map g) ↔
      ∃ i a inner, xs[i]? = some a ∧ (inner, b) ∈ g a ∧ place = i :: inner := by
  simp only [mem_numbered, List.getElem?_map, Option.map_eq_some_iff, Nat.zero_add]
  constructor
  · rintro ⟨i, _, inner, ⟨a, ha, rfl⟩, hb, rfl⟩
    exact ⟨i, a, inner, ha, hb, rfl⟩
  · rintro ⟨i, a, inner, ha, hb, rfl⟩
    exact ⟨i, _, inner, ⟨a, ha, rfl⟩, hb, rfl⟩

mutual

theorem MessageDecl.at_of_mem_located (m : MessageDecl) (place : List Nat) (around : List String)
    (n : MessageDecl) (h : (place, around, n) ∈ m.located) : m.At place around n := by
  cases m with
  | mk name fields nested =>
    rw [MessageDecl.located_eq, List.mem_cons, List.mem_map] at h
    obtain h | ⟨⟨_, names, _⟩, hx, heq⟩ := h
    · cases h
      exact .self _
    · cases heq
      obtain ⟨i, child, inner, hchild, hinner, rfl⟩ := mem_numbered_map.1 hx
      have hmem := List.mem_of_getElem? hchild
      exact .inside hchild (at_of_mem_located_of_mem nested child hmem _ _ _ hinner)

theorem at_of_mem_located_of_mem (ms : List MessageDecl) : ∀ m ∈ ms,
    ∀ place around n, (place, around, n) ∈ m.located → m.At place around n := by
  match ms with
  | [] => exact nofun
  | m :: ms =>
    exact List.forall_mem_cons.2 ⟨m.at_of_mem_located, at_of_mem_located_of_mem ms⟩

end

theorem MessageDecl.mem_located_iff {m n : MessageDecl} {place : List Nat} {around : List String} :
    (place, around, n) ∈ m.located ↔ m.At place around n := by
  refine ⟨m.at_of_mem_located place around n, ?_⟩
  intro h
  induction h with
  | self m =>
    rw [located_eq]
    exact .head _
  | inside hchild _ ih =>
    rw [located_eq]
    exact .tail _ (List.mem_map.2 ⟨_, mem_numbered_map.2 ⟨_, _, _, hchild, ih, rfl⟩, rfl⟩)

mutual

theorem MessageDecl.located_lt (m : MessageDecl) : (m.located.map (·.1)).Pairwise (· < ·) := by
  cases m with
  | mk name fields nested =>
    have hplaces (xs : List (List Nat × List String × MessageDecl)) :
        (xs.map fun x => (x.1, name :: x.2.1, x.2.2)).map (·.1) = xs.map (·.1) := by
      rw [List.map_map]; rfl
    rw [MessageDecl.located, List.map_cons, hplaces, List.pairwise_cons]
    refine ⟨?_, numbered_lt (locatedEach_lt nested)⟩
    intro p hp
    obtain ⟨⟨place, a⟩, hx, rfl⟩ := List.mem_map.1 hp
    obtain ⟨_, _, _, -, -, rfl⟩ := mem_numbered.1 hx
    exact List.nil_lt_cons _ _

theorem locatedEach_lt (ms : List MessageDecl) :
    ∀ xs ∈ locatedEach ms, (xs.map (·.1)).Pairwise (· < ·) := by
  match ms with
  | [] => exact nofun
  | m :: ms => exact List.forall_mem_cons.2 ⟨m.located_lt, locatedEach_lt ms⟩

end

mutual

theorem MessageDecl.placed_eq_located (scope : String) (m : MessageDecl) : m.placed scope =
    m.located.map fun x => (x.2.1.foldl qualify scope, x.2.2) := by
  cases m with
  | mk name fields nested =>
    rw [MessageDecl.placed, MessageDecl.located, placedAll_eq_located, List.map_cons, List.map_map]
    exact congrArg _ (map_numbered fun y : List String × MessageDecl =>
      (y.1.foldl qualify (qualify scope name), y.2)).symm

theorem placedAll_eq_located (scope : String) (ms : List MessageDecl) : placedAll scope ms =
    (locatedEach ms).flatten.map fun x => (x.2.1.foldl qualify scope, x.2.2) := by
  match ms with
  | [] => rfl
  | m :: ms =>
    rw [placedAll, locatedEach, List.flatten_cons, List.map_append, MessageDecl.placed_eq_located,
      placedAll_eq_located]

end

def enumsIn (place : List Nat) (around : List String) (es : List EnumDecl) :
    List (List Nat × List String × EnumDecl) :=
  es.zipIdx.map fun e => (place ++ [e.2], around, e.1)

namespace FileDecl

def located (f : FileDecl) : List (List Nat × List String × MessageDecl) :=
  numbered 0 (f.messages.map MessageDecl.located)

def locatedEnums (f : FileDecl) : List (List Nat × List String × EnumDecl) :=
  enumsIn [] [] f.enums ++
    f.located.flatMap fun x => enumsIn x.1 (x.2.1 ++ [x.2.2.name]) x.2.2.enums

theorem placed_eq_located (f : FileDecl) :
    f.placed = f.located.map fun x => (x.2.1.foldl qualify f.package, x.2.2) := by
  rw [placed, placedAll_eq_located, locatedEach_eq]
  exact (map_numbered fun y : List String × MessageDecl =>
    (y.1.foldl qualify f.package, y.2)).symm

theorem located_lt (f : FileDecl) : (f.located.map (·.1)).Pairwise (· < ·) :=
  numbered_lt (locatedEach_eq f.messages ▸ locatedEach_lt f.messages)

theorem located_nodup (f : FileDecl) : (f.located.map (·.1)).Nodup := by
  refine f.located_lt.imp ?_
  rintro p _ hlt rfl
  exact List.lt_irrefl p hlt

theorem mem_located {f : FileDecl} {place : List Nat} {around : List String} {m : MessageDecl} :
    (place, around, m) ∈ f.located ↔ ∃ i top inner, f.messages[i]? = some top ∧
      top.At inner around m ∧ place = i :: inner := by
  simp only [located, mem_numbered_map, MessageDecl.mem_located_iff]

end FileDecl

theorem mem_enumsIn {place place' : List Nat} {around around' : List String} {es : List EnumDecl}
    {e : EnumDecl} : (place', around', e) ∈ enumsIn place around es ↔
      ∃ i, es[i]? = some e ∧ place' = place ++ [i] ∧ around' = around := by
  simp only [enumsIn, List.mem_map, Prod.exists, List.mem_zipIdx_iff_getElem?, Prod.mk.injEq]
  constructor
  · rintro ⟨e', i, he, rfl, rfl, rfl⟩
    exact ⟨i, he, rfl, rfl⟩
  · rintro ⟨i, he, rfl, rfl⟩
    exact ⟨e, i, he, rfl, rfl, rfl⟩

@[simp] theorem enumsIn_places (place : List Nat) (around : List String) (es : List EnumDecl) :
    (enumsIn place around es).map (·.1) = (List.range es.length).map fun i => place ++ [i] := by
  rw [enumsIn, List.map_map, List.range_eq_range', ← List.zipIdx_map_snd, List.map_map]
  rfl

theorem enumsIn_nodup (place : List Nat) (around : List String) (es : List EnumDecl) :
    ((enumsIn place around es).map (·.1)).Nodup := by
  rw [enumsIn_places]
  apply List.nodup_range.map
  intro i j h
  simpa using h

theorem FileDecl.locatedEnums_nodup (f : FileDecl) : (f.locatedEnums.map (·.1)).Nodup := by
  have hplace {x : List Nat × List String × MessageDecl} {p : List Nat}
      (hp : p ∈ (enumsIn x.1 (x.2.1 ++ [x.2.2.name]) x.2.2.enums).map (·.1)) :
      p.dropLast = x.1 := by
    rw [enumsIn_places, List.mem_map] at hp
    obtain ⟨i, -, rfl⟩ := hp
    exact List.dropLast_concat
  rw [locatedEnums, List.map_append, List.map_flatMap, List.nodup_append']
  refine ⟨enumsIn_nodup _ _ _, List.nodup_flatMap.2 ⟨fun x _ => enumsIn_nodup _ _ _, ?_⟩, ?_⟩
  · refine (List.pairwise_map.1 f.located_nodup).imp fun hxy p hpx hpy => hxy ?_
    exact (hplace hpx).symm.trans (hplace hpy)
  · intro p hp hnested
    obtain ⟨⟨place, around, m⟩, hm, hp'⟩ := List.mem_flatMap.1 hnested
    obtain ⟨i, _, inner, -, -, rfl⟩ := mem_located.1 hm
    rw [enumsIn_places, List.mem_map] at hp
    obtain ⟨j, -, rfl⟩ := hp
    cases hplace hp'

def locatedIn {α : Type u} (find : FileDecl → List (List Nat × α)) (files : List FileDecl) :
    List (List Nat × FileDecl × α) :=
  numbered 0 (files.map fun f => (find f).map fun x => (x.1, f, x.2))

section LocatedIn

variable {α : Type u} {find : FileDecl → List (List Nat × α)} {files : List FileDecl}

theorem mem_locatedIn {place : List Nat} {f : FileDecl} {a : α} :
    (place, f, a) ∈ locatedIn find files ↔
      ∃ k inner, files[k]? = some f ∧ (inner, a) ∈ find f ∧ place = k :: inner := by
  simp only [locatedIn, mem_numbered_map, List.mem_map, Prod.exists, Prod.mk.injEq]
  constructor
  · rintro ⟨k, g, inner, hg, ⟨_, _, ha, rfl, rfl, rfl⟩, rfl⟩
    exact ⟨k, _, hg, ha, rfl⟩
  · rintro ⟨k, inner, hf, ha, rfl⟩
    exact ⟨k, f, inner, hf, ⟨inner, a, ha, rfl, rfl, rfl⟩, rfl⟩

theorem map_locatedIn {β : Type v} (g : FileDecl → α → β) :
    ((locatedIn find files).map fun x => g x.2.1 x.2.2) =
      files.flatMap fun f => (find f).map fun x => g f x.2 := by
  refine (map_numbered fun x : FileDecl × α => g x.1 x.2).trans ?_
  rw [← List.flatMap_def, List.map_flatMap]
  simp only [List.map_map]
  rfl

theorem places_locatedIn {R : List Nat → List Nat → Prop}
    (h : ∀ f, ((find f).map (·.1)).Pairwise R) : ∀ xs ∈ files.map fun f =>
      (find f).map fun x => (x.1, f, x.2), (xs.map (·.1)).Pairwise R := by
  rw [List.forall_mem_map]
  intro f _
  rw [List.map_map]
  exact h f

end LocatedIn

theorem mem_locatedIn_located {files : List FileDecl} {place : List Nat} {f : FileDecl}
    {around : List String} {m : MessageDecl} :
    (place, f, around, m) ∈ locatedIn FileDecl.located files ↔
      MessageAt files place f around m := by
  simp only [mem_locatedIn, FileDecl.mem_located]
  constructor
  · rintro ⟨k, _, hf, ⟨i, top, inner, htop, hm, rfl⟩, rfl⟩
    exact .intro hf htop hm
  · rintro ⟨hf, htop, hm⟩
    exact ⟨_, _, hf, ⟨_, _, _, htop, hm, rfl⟩, rfl⟩

theorem mem_locatedIn_locatedEnums {files : List FileDecl} {place : List Nat} {f : FileDecl}
    {around : List String} {e : EnumDecl} :
    (place, f, around, e) ∈ locatedIn FileDecl.locatedEnums files ↔
      EnumAt files place f around e := by
  simp only [mem_locatedIn, FileDecl.locatedEnums, List.mem_append, List.mem_flatMap, mem_enumsIn]
  constructor
  · rintro ⟨k, _, hf, ⟨i, he, rfl, rfl⟩ | ⟨⟨place, around, m⟩, hm, i, he, rfl, rfl⟩, rfl⟩
    · exact .top hf he
    · exact .nested (mem_locatedIn_located.1 (mem_locatedIn.2 ⟨k, place, hf, hm, rfl⟩)) he
  · intro h
    cases h with
    | top hf he => exact ⟨_, _, hf, .inl ⟨_, he, rfl, rfl⟩, rfl⟩
    | nested hm he =>
      obtain ⟨k, inner, hf, hinner, rfl⟩ := mem_locatedIn.1 (mem_locatedIn_located.2 hm)
      exact ⟨k, _, hf, .inr ⟨_, hinner, _, he, rfl, rfl⟩, rfl⟩

section Walks

variable (decls files : List FileDecl)

theorem flatMap_allMessages_link :
    (files.map (File.link decls)).flatMap File.allMessages =
      (locatedIn FileDecl.located files).map fun x =>
        Message.link (tableOf decls x.2.1) (x.2.2.1.foldl qualify x.2.1.package) x.2.2.2 := by
  rw [List.flatMap_map]
  refine Eq.trans ?_ (map_locatedIn fun f (x : List String × MessageDecl) =>
    Message.link (tableOf decls f) (x.1.foldl qualify f.package) x.2).symm
  congr 1
  funext f
  rw [File.allMessages_link, f.placed_eq_located, List.map_map]
  rfl

theorem map_enumsIn (place : List Nat) (around : List String) (es : List EnumDecl)
    (scope : String) :
    ((enumsIn place around es).map fun x => EnumType.link (x.2.1.foldl qualify scope) x.2.2) =
      es.map (EnumType.link (around.foldl qualify scope)) := by
  conv_rhs => rw [← List.zipIdx_map_fst 0 es]
  rw [enumsIn, List.map_map, List.map_map]
  rfl

theorem flatMap_allEnums_link :
    (files.map (File.link decls)).flatMap File.allEnums =
      (locatedIn FileDecl.locatedEnums files).map fun x =>
        EnumType.link (x.2.2.1.foldl qualify x.2.1.package) x.2.2.2 := by
  rw [List.flatMap_map]
  refine Eq.trans ?_ (map_locatedIn fun f (x : List String × EnumDecl) =>
    EnumType.link (x.1.foldl qualify f.package) x.2).symm
  congr 1
  funext f
  rw [File.allEnums_link, f.placed_eq_located, List.flatMap_map, FileDecl.locatedEnums,
    List.map_append, List.map_flatMap]
  simp only [map_enumsIn, List.foldl_append, List.foldl_cons, List.foldl_nil]

end Walks

end SchemaEvolution.Protobuf
