import Mathlib.Data.List.Forall2
import SchemaEvolution.Proofs.Protobuf.Order

/-!
A field taken out of a message of a set, with its number and name reserved. Whatever else the files
declare stays where it was, and references lead to what they led to before.
-/

namespace SchemaEvolution.Protobuf

def FieldDecl.plain (f : FieldDecl) : FieldDecl := { f with oneof? := none, record := [] }

@[simp] theorem Field.link_plain (t : Table) (scope : String) (f : FieldDecl) :
    Field.link t scope f.plain = Field.link t scope f := rfl

namespace MessageDecl

def isMapEntry (m : MessageDecl) : Bool := ((m.record.record? 7).map (·.flag 7)).getD false

def mapEntries? (t : Table) (scope : String) (m : MessageDecl) (f : FieldDecl) :
    Option MessageDecl :=
  let full := qualify scope m.name
  if Cardinality.ofLabel f.label = .repeated then
    m.nested.find? fun n =>
      n.isMapEntry && f.kind? t full == some (.message (qualify full n.name))
  else none

def ReservesNumber (m : MessageDecl) (n : Int) : Prop :=
  ∃ r ∈ m.reservedRanges, r.start ≤ n ∧ n < r.stop

end MessageDecl

/-- The field `field` of the message `owner`, and the entries that go with it if it is a map. -/
structure Deletion where
  file : String
  owner : String
  field : FieldDecl
  entries? : Option MessageDecl

namespace Deletion

/-- `m` becomes `m'`: the field is taken out and reserved. The entries of a map go with it, and fields
may move to other oneofs. -/
structure Edits (d : Deletion) (t : Table) (scope : String) (m m' : MessageDecl) : Prop where
  owner : d.owner = qualify scope m.name
  entries : d.entries? = m.mapEntries? t scope d.field
  fields : ∃ before after, m.fields = before ++ d.field :: after ∧
    m'.fields.map FieldDecl.plain = (before ++ after).map FieldDecl.plain
  nested : ∃ before after, m.nested = before ++ d.entries?.toList ++ after ∧
    m'.nested = before ++ after
  numbers : ∀ n, m.ReservesNumber n ∨ n = d.field.number → m'.ReservesNumber n
  names : ∀ n, n ∈ m.reservedNames ∨ n = d.field.name → n ∈ m'.reservedNames
  name : m'.name = m.name
  enums : m'.enums = m.enums
  extensions : m'.extensions = m.extensions
  extensionRanges : m'.extensionRanges = m.extensionRanges

/-- One of the messages, or one nested in them, is edited. -/
inductive Within (d : Deletion) (t : Table) : String → List MessageDecl → List MessageDecl → Prop
  | here {scope : String} {before after : List MessageDecl} {m m' : MessageDecl} :
    d.Edits t scope m m' → Within d t scope (before ++ m :: after) (before ++ m' :: after)
  | inside {scope : String} {before after nested : List MessageDecl} {m : MessageDecl}
      {record : Record} : Within d t (qualify scope m.name) m.nested nested →
    Within d t scope (before ++ m :: after) (before ++ { m with nested, record } :: after)

/-- The set `files` becomes `files'`. -/
inductive Applies (d : Deletion) : List FileDecl → List FileDecl → Prop
  | intro {before after : List FileDecl} {f : FileDecl} {messages : List MessageDecl} :
    d.file = f.name →
    d.Within (tableOf (before ++ f :: after) f) f.package f.messages messages →
    Applies d (before ++ f :: after) (before ++ { f with messages } :: after)

structure Takes (d : Deletion) (x y : String × MessageDecl) : Prop where
  owner : qualify x.1 x.2.name = d.owner
  fields : ∃ before after, x.2.fields = before ++ d.field :: after ∧
    y.2.fields.map FieldDecl.plain = (before ++ after).map FieldDecl.plain
  number : y.2.ReservesNumber d.field.number
  name : d.field.name ∈ y.2.reservedNames

structure Carries (d : Deletion) (x y : String × MessageDecl) : Prop where
  fullName : qualify y.1 y.2.name = qualify x.1 x.2.name
  enums : y.2.enums = x.2.enums
  numbers : ∀ n, x.2.ReservesNumber n → y.2.ReservesNumber n
  names : ∀ n ∈ x.2.reservedNames, n ∈ y.2.reservedNames
  fields : y.2.fields.map FieldDecl.plain = x.2.fields.map FieldDecl.plain ∨ d.Takes x y

variable {d : Deletion} {t : Table} {scope : String}

theorem Carries.refl (x : String × MessageDecl) : d.Carries x x where
  fullName := rfl
  enums := rfl
  numbers _ h := h
  names _ h := h
  fields := .inl rfl

theorem forall₂_carries_self (xs : List (String × MessageDecl)) : List.Forall₂ d.Carries xs xs := by
  rw [List.forall₂_same]
  intro x _
  exact .refl x

theorem Edits.carries {m m' : MessageDecl} (h : d.Edits t scope m m') :
    d.Takes (scope, m) (scope, m') ∧ d.Carries (scope, m) (scope, m') := by
  have htakes : d.Takes (scope, m) (scope, m') :=
    ⟨h.owner.symm, h.fields, h.numbers _ (.inr rfl), h.names _ (.inr rfl)⟩
  refine ⟨htakes, ?_, h.enums, ?_, ?_, .inr htakes⟩
  · rw [h.name]
  · intro n hn
    exact h.numbers n (.inl hn)
  · intro n hn
    exact h.names n (.inl hn)

theorem perm_around {α : Type u} (xs ys : List α) {middle removed kept : List α}
    (h : middle.Perm (removed ++ kept)) :
    (xs ++ middle ++ ys).Perm (removed ++ (xs ++ kept ++ ys)) := by
  refine ((h.append_left xs).append_right ys).trans ?_
  simpa only [List.append_assoc] using List.perm_append_comm_assoc xs removed (kept ++ ys)

theorem exists_of_forall₂_left {α : Type u} {β : Type v} {R : α → β → Prop} {xs : List α}
    {ys : List β} (h : List.Forall₂ R xs ys) {x : α} (hx : x ∈ xs) : ∃ y ∈ ys, R x y := by
  induction h with
  | nil => cases hx
  | @cons a b xs ys hab _ ih =>
    obtain rfl | hx := List.mem_cons.1 hx
    · exact ⟨b, .head ys, hab⟩
    · obtain ⟨y, hy, hxy⟩ := ih hx
      exact ⟨y, .tail b hy, hxy⟩

theorem placedAll_around (scope : String) (before after : List MessageDecl) (m : MessageDecl) :
    placedAll scope (before ++ m :: after) = placedAll scope before ++
      (scope, m) :: placedAll (qualify scope m.name) m.nested ++ placedAll scope after := by
  simp

theorem Within.placed {ms ms' : List MessageDecl} (h : d.Within t scope ms ms') :
    ∃ kept, (placedAll scope ms).Perm (placedAll d.owner d.entries?.toList ++ kept) ∧
      List.Forall₂ d.Carries kept (placedAll scope ms') := by
  -- messages around the edited one stay, so what was lost further in can be moved to the front
  induction h with
  | @here scope before after m m' h =>
    obtain ⟨first, last, hnested, hnested'⟩ := h.nested
    refine ⟨placedAll scope before ++ (scope, m) :: placedAll d.owner (first ++ last) ++
      placedAll scope after, ?_, ?_⟩
    · rw [placedAll_around, hnested, ← h.owner]
      simp only [placedAll_append]
      have hperm := perm_around (placedAll scope before ++ (scope, m) :: placedAll d.owner first)
        (placedAll d.owner last ++ placedAll scope after)
        (.of_eq (List.append_nil (placedAll d.owner d.entries?.toList)).symm)
      simpa only [List.append_assoc, List.cons_append, List.nil_append] using hperm
    · rw [placedAll_around, hnested', h.name, ← h.owner]
      exact List.rel_append (List.rel_append (forall₂_carries_self _)
        (.cons h.carries.2 (forall₂_carries_self _))) (forall₂_carries_self _)
  | @inside scope before after nested m record h ih =>
    obtain ⟨kept, hperm, hcarries⟩ := ih
    refine ⟨placedAll scope before ++ (scope, m) :: kept ++ placedAll scope after, ?_, ?_⟩
    · rw [placedAll_around]
      have hperm := perm_around (placedAll scope before ++ [(scope, m)]) (placedAll scope after) hperm
      simpa only [List.append_assoc, List.cons_append, List.nil_append] using hperm
    · rw [placedAll_around]
      have hsame : d.Carries (scope, m) (scope, { m with nested, record }) := by
        refine ⟨rfl, rfl, ?_, ?_, .inl rfl⟩
        · intro _ h
          exact h
        · intro _ h
          exact h
      exact List.rel_append (List.rel_append (forall₂_carries_self _) (.cons hsame hcarries))
        (forall₂_carries_self _)

theorem Within.exists_takes {ms ms' : List MessageDecl} (h : d.Within t scope ms ms') :
    ∃ x ∈ placedAll scope ms, ∃ y ∈ placedAll scope ms', d.Takes x y ∧ d.Carries x y := by
  induction h with
  | @here scope before after m m' h =>
    exact ⟨(scope, m), by simp, (scope, m'), by simp, h.carries⟩
  | @inside scope before after nested m record h ih =>
    obtain ⟨x, hx, y, hy, hxy⟩ := ih
    exact ⟨x, by simp [hx], y, by simp [hy], hxy⟩

end Deletion

structure Site where
  file : FileDecl
  place : String × MessageDecl

def Site.fullName (s : Site) : String := qualify s.place.1 s.place.2.name

def Site.typeKeys (s : Site) : List (String × Entity) :=
  (s.fullName, .message) :: s.place.2.enums.map fun e => (qualify s.fullName e.name, .enum)

def sites (files : List FileDecl) : List Site := files.flatMap fun f => f.placed.map (.mk f)

theorem mem_sites {files : List FileDecl} {s : Site} :
    s ∈ sites files ↔ s.file ∈ files ∧ s.place ∈ s.file.placed := by
  simp only [sites, List.mem_flatMap, List.mem_map]
  constructor
  · rintro ⟨f, hf, x, hx, rfl⟩
    exact ⟨hf, hx⟩
  · rintro ⟨hf, hx⟩
    exact ⟨s.file, hf, _, hx, rfl⟩

def FileDecl.heading (f : FileDecl) : FileDecl := { f with messages := [] }

def FileDecl.enumKeys (f : FileDecl) : List (String × Entity) :=
  f.enums.map fun e => (qualify f.package e.name, .enum)

theorem exists_typeDefinition_iff {f : FileDecl} {k : String × Entity} (hk : k.2 ≠ .member) :
    (∃ e ∈ f.definitions 0, Table.keyOf e = k) ↔
      (∃ x ∈ f.placed, k ∈ (Site.mk f x).typeKeys) ∨ k ∈ f.enumKeys := by
  simp only [Site.typeKeys, Site.fullName, FileDecl.enumKeys, List.mem_cons, List.mem_map]
  constructor
  · rintro ⟨e, he, rfl⟩
    obtain ⟨hentity, x, hx, hname⟩ | ⟨hentity, ⟨g, hg, hname⟩ | ⟨x, hx, g, hg, hname⟩⟩ | hmember :=
      type_of_mem_definitions he
    · exact .inl ⟨x, hx, .inl (Prod.ext hname hentity)⟩
    · exact .inr ⟨g, hg, (Prod.ext hname hentity).symm⟩
    · exact .inl ⟨x, hx, .inr ⟨g, hg, (Prod.ext hname hentity).symm⟩⟩
    · exact (hk hmember).elim
  · simp only [FileDecl.definitions, definitionsOfAll_eq, MessageDecl.ownDefinitions,
      EnumDecl.definitions, List.mem_append, List.mem_flatMap]
    rintro (⟨x, hx, rfl | ⟨g, hg, rfl⟩⟩ | ⟨g, hg, rfl⟩)
    · exact ⟨_, .inl (.inl (.inl ⟨x, hx, .inl (.head _)⟩)), rfl⟩
    · exact ⟨_, .inl (.inl (.inl ⟨x, hx, .inr ⟨g, hg, .head _⟩⟩)), rfl⟩
    · exact ⟨_, .inl (.inl (.inr ⟨g, hg, .head _⟩)), rfl⟩

theorem shows_tableOf_type {files : List FileDecl} {f : FileDecl} {k : String × Entity}
    (hk : k.2 ≠ .member) : (tableOf files f).Shows k ↔
      (∃ s ∈ sites files, s.file.heading.name ∈ visibleFiles files f ∧ k ∈ s.typeKeys) ∨
        ∃ g ∈ files.map FileDecl.heading, g.name ∈ visibleFiles files f ∧ k ∈ g.enumKeys := by
  simp only [shows_tableOf, exists_typeDefinition_iff hk]
  constructor
  · rintro ⟨g, hg, hvisible, ⟨x, hx, hkey⟩ | hkey⟩
    · exact .inl ⟨⟨g, x⟩, mem_sites.2 ⟨hg, hx⟩, hvisible, hkey⟩
    · exact .inr ⟨g.heading, List.mem_map_of_mem hg, hvisible, hkey⟩
  · rintro (⟨s, hs, hvisible, hkey⟩ | ⟨_, hheading, hvisible, hkey⟩)
    · exact ⟨s.file, (mem_sites.1 hs).1, hvisible, .inl ⟨s.place, (mem_sites.1 hs).2, hkey⟩⟩
    · obtain ⟨g, hg, rfl⟩ := List.mem_map.1 hheading
      exact ⟨g, hg, hvisible, .inr hkey⟩

theorem visibleFiles_heading (files : List FileDecl) (f : FileDecl) :
    visibleFiles (files.map FileDecl.heading) f.heading = visibleFiles files f := by
  have hfind (name : String) : (files.map FileDecl.heading).find? (·.name == name) =
      (files.find? (·.name == name)).map FileDecl.heading := List.find?_map
  unfold visibleFiles
  simp only [hfind, List.length_map]
  refine congrArg (f.name :: Closure.of · files.length f.imports) (funext ?_)
  intro name
  cases files.find? (·.name == name) <;> rfl

@[simp] theorem packagesOf_heading (files : List FileDecl) :
    packagesOf (files.map FileDecl.heading) = packagesOf files := by
  rw [packagesOf, List.flatMap_map]
  rfl

namespace Deletion

variable {d : Deletion} {files files' : List FileDecl}

/-- What the message at `s` becomes. -/
structure Follows (d : Deletion) (s s' : Site) : Prop where
  heading : s'.file.heading = s.file.heading
  carries : d.Carries s.place s'.place
  fields : s'.place.2.fields.map FieldDecl.plain = s.place.2.fields.map FieldDecl.plain ∨
    d.Takes s.place s'.place ∧ s.file.name = d.file

theorem Follows.refl (s : Site) : d.Follows s s := ⟨rfl, .refl _, .inl rfl⟩

theorem Follows.typeKeys {s s' : Site} (h : d.Follows s s') : s'.typeKeys = s.typeKeys := by
  have hname : s'.fullName = s.fullName := h.carries.fullName
  rw [Site.typeKeys, Site.typeKeys, hname, h.carries.enums]

theorem Applies.headings (h : d.Applies files files') :
    files'.map FileDecl.heading = files.map FileDecl.heading := by
  cases h
  simp only [List.map_append, List.map_cons]
  rfl

theorem sites_around (before after : List FileDecl) (f : FileDecl) :
    sites (before ++ f :: after) = sites before ++ f.placed.map (.mk f) ++ sites after := by
  simp only [sites, List.flatMap_append, List.flatMap_cons, List.append_assoc]

theorem Applies.kept_sites (h : d.Applies files files') : ∃ removed kept,
    (sites files).Perm (removed ++ kept) ∧
    removed.map Site.place = placedAll d.owner d.entries?.toList ∧
    (∀ s ∈ removed, s.file.name = d.file) ∧
    List.Forall₂ d.Follows kept (sites files') := by
  cases h with
  | @intro before after f messages hfile h =>
    obtain ⟨kept, hperm, hcarries⟩ := h.placed
    have hself (xs : List Site) : List.Forall₂ d.Follows xs xs := by
      rw [List.forall₂_same]
      intro s _
      exact .refl s
    refine ⟨(placedAll d.owner d.entries?.toList).map (.mk f),
      sites before ++ kept.map (.mk f) ++ sites after, ?_, ?_, ?_, ?_⟩
    · rw [sites_around]
      refine perm_around _ _ ?_
      rw [← List.map_append]
      exact hperm.map _
    · rw [List.map_map]
      exact List.map_id _
    · intro s hs
      obtain ⟨x, -, rfl⟩ := List.mem_map.1 hs
      exact hfile.symm
    · rw [sites_around]
      refine List.rel_append (List.rel_append (hself _) ?_) (hself _)
      rw [List.forall₂_map_left_iff, List.forall₂_map_right_iff]
      apply hcarries.imp
      intro x y hxy
      refine ⟨rfl, hxy, hxy.fields.imp_right ?_⟩
      intro htakes
      exact ⟨htakes, hfile.symm⟩

theorem Applies.sites_of_none (h : d.Applies files files') (hentries : d.entries? = none) :
    ∃ kept, (sites files).Perm kept ∧ List.Forall₂ d.Follows kept (sites files') := by
  obtain ⟨removed, kept, hperm, hremoved, -, hfollows⟩ := h.kept_sites
  rw [hentries, Option.toList_none, placedAll, List.map_eq_nil_iff] at hremoved
  subst hremoved
  exact ⟨kept, hperm, hfollows⟩

theorem Applies.exists_takes (h : d.Applies files files') :
    ∃ s ∈ sites files, ∃ s' ∈ sites files', d.Takes s.place s'.place ∧
      d.Follows s s' ∧ s.file.name = d.file := by
  cases h with
  | @intro before after f messages hfile h =>
    obtain ⟨x, hx, y, hy, htakes, hcarries⟩ := h.exists_takes
    refine ⟨⟨f, x⟩, mem_sites.2 ⟨by simp, hx⟩, ⟨{ f with messages }, y⟩, mem_sites.2 ⟨by simp, hy⟩,
      htakes, ⟨rfl, hcarries, .inr ⟨htakes, hfile.symm⟩⟩, hfile.symm⟩

theorem Applies.agrees (h : d.Applies files files') (hentries : d.entries? = none)
    (hnames : ((definitionsOf files).map (·.name)).Nodup)
    (hnames' : ((definitionsOf files').map (·.name)).Nodup) {f f' : FileDecl}
    (hf : f'.heading = f.heading) : (tableOf files f).Agrees (tableOf files' f') where
  names := hnames
  names' := hnames'
  shows_iff k hk := by
    have hvisible : visibleFiles files' f' = visibleFiles files f := by
      rw [← visibleFiles_heading, ← visibleFiles_heading files, h.headings, hf]
    obtain ⟨kept, hperm, hfollows⟩ := h.sites_of_none hentries
    rw [shows_tableOf_type hk, shows_tableOf_type hk, hvisible, h.headings]
    -- enums at the top of a file are part of its heading, all other types are at a site
    refine or_congr_left ⟨?_, ?_⟩
    · rintro ⟨s, hs, hname, hkey⟩
      obtain ⟨s', hs', hss⟩ := exists_of_forall₂_left hfollows (hperm.mem_iff.1 hs)
      exact ⟨s', hs', hss.heading ▸ hname, hss.typeKeys ▸ hkey⟩
    · rintro ⟨s', hs', hname, hkey⟩
      obtain ⟨s, hs, hss⟩ := exists_of_forall₂_left hfollows.flip hs'
      exact ⟨s, hperm.mem_iff.2 hs, hss.heading ▸ hname, hss.typeKeys ▸ hkey⟩
  packages name := by
    change name ∈ packagesOf files ↔ name ∈ packagesOf files'
    rw [← packagesOf_heading, ← packagesOf_heading files', h.headings]

end Deletion

section Exists

variable {t : Table} {scope : String}

theorem MessageDecl.mem_nested_of_mapEntries? {m entry : MessageDecl} {f : FieldDecl}
    (h : m.mapEntries? t scope f = some entry) : entry ∈ m.nested := by
  rw [mapEntries?] at h
  split at h
  · exact List.mem_of_find?_eq_some h
  · cases h

namespace Deletion

theorem exists_edits (t : Table) (scope file : String) {m : MessageDecl} {f : FieldDecl}
    (hf : f ∈ m.fields) : ∃ m', (Deletion.mk file (qualify scope m.name) f
      (m.mapEntries? t scope f)).Edits t scope m m' := by
  obtain ⟨before, after, hfields⟩ := List.append_of_mem hf
  obtain ⟨first, last, hnested⟩ : ∃ first last,
      m.nested = first ++ (m.mapEntries? t scope f).toList ++ last := by
    cases hentries : m.mapEntries? t scope f with
    | none => exact ⟨m.nested, [], by simp⟩
    | some entry =>
      obtain ⟨first, last, hnested⟩ :=
        List.append_of_mem (MessageDecl.mem_nested_of_mapEntries? hentries)
      exact ⟨first, last, by simp [hnested]⟩
  exact ⟨{ m with
      fields := before ++ after
      nested := first ++ last
      reservedRanges := ⟨f.number, f.number + 1⟩ :: m.reservedRanges
      reservedNames := f.name :: m.reservedNames },
    { owner := rfl
      entries := rfl
      fields := ⟨before, after, hfields, rfl⟩
      nested := ⟨first, last, hnested, rfl⟩
      numbers := by
        rintro n (⟨r, hr, hn⟩ | rfl)
        · exact ⟨r, .tail _ hr, hn⟩
        · exact ⟨_, .head _, Int.le_refl _, Int.lt_succ _⟩
      names := by
        rintro n (hn | rfl)
        · exact .tail _ hn
        · exact .head _
      name := rfl
      enums := rfl
      extensions := rfl
      extensionRanges := rfl }⟩

theorem Within.cons {d : Deletion} {ms ms' : List MessageDecl} (m : MessageDecl)
    (h : d.Within t scope ms ms') : d.Within t scope (m :: ms) (m :: ms') := by
  cases h with
  | here h =>
    rw [← List.cons_append, ← List.cons_append]
    exact .here h
  | inside h =>
    rw [← List.cons_append, ← List.cons_append]
    exact .inside h

def At (d : Deletion) (file : String) (x : String × MessageDecl) (f : FieldDecl) : Prop :=
  d.file = file ∧ d.owner = qualify x.1 x.2.name ∧ d.field = f

mutual

theorem exists_within (file : String) (scope : String) (m : MessageDecl) {x : String × MessageDecl}
    (hx : x ∈ m.placed scope) {f : FieldDecl} (hf : f ∈ x.2.fields) : ∃ (d : Deletion) (m' : _),
      d.At file x f ∧ ∀ after, d.Within t scope ([] ++ m :: after) ([] ++ m' :: after) := by
  match m with
  | { name, nested, record, .. } =>
    obtain rfl | hx := MessageDecl.mem_placed.1 hx
    · obtain ⟨m', hedits⟩ := exists_edits t scope file hf
      exact ⟨_, m', ⟨rfl, rfl, rfl⟩, fun after => .here hedits⟩
    · obtain ⟨d, nested', hat, hwithin⟩ := exists_withinAll file _ nested hx hf
      exact ⟨d, { name, nested := nested', record, .. }, hat, fun after => .inside hwithin⟩

theorem exists_withinAll (file : String) (scope : String) (ms : List MessageDecl)
    {x : String × MessageDecl} (hx : x ∈ placedAll scope ms) {f : FieldDecl}
    (hf : f ∈ x.2.fields) : ∃ (d : Deletion) (ms' : _), d.At file x f ∧ d.Within t scope ms ms' := by
  match ms with
  | [] => cases hx
  | m :: ms =>
    rw [placedAll, List.mem_append] at hx
    obtain hx | hx := hx
    · obtain ⟨d, m', hat, hwithin⟩ := exists_within file scope m hx hf
      exact ⟨d, m' :: ms, hat, hwithin ms⟩
    · obtain ⟨d, ms', hat, hwithin⟩ := exists_withinAll file scope ms hx hf
      exact ⟨d, m :: ms', hat, hwithin.cons m⟩

end

theorem exists_applies {files : List FileDecl} {s : Site} (hs : s ∈ sites files) {f : FieldDecl}
    (hf : f ∈ s.place.2.fields) :
    ∃ (d : Deletion) (files' : _), d.At s.file.name s.place f ∧ d.Applies files files' := by
  obtain ⟨g, x⟩ := s
  obtain ⟨hfile, hplace⟩ := mem_sites.1 hs
  obtain ⟨before, after, rfl⟩ := List.append_of_mem hfile
  obtain ⟨d, messages, hat, hwithin⟩ :=
    exists_withinAll (t := tableOf (before ++ g :: after) g) g.name g.package g.messages hplace hf
  exact ⟨d, _, hat, .intro hat.1 hwithin⟩

end Deletion

end Exists

end SchemaEvolution.Protobuf
