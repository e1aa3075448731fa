import SchemaEvolution.Proofs.Protobuf.Deletion
import SchemaEvolution.Proofs.Protobuf.Described
import SchemaEvolution.Proofs.Protobuf.Preorder
import SchemaEvolution.Proofs.Protobuf.Retained

namespace SchemaEvolution.Protobuf

def Site.link (files : List FileDecl) (s : Site) : Message :=
  Message.link (tableOf files s.file) s.place.1 s.place.2

@[simp] theorem Site.link_fullName (files : List FileDecl) (s : Site) :
    (s.link files).fullName = s.fullName :=
  Message.link_fullName _ _ _

theorem fullNames_sites (files : List FileDecl) :
    (sites files).map Site.fullName = (files.flatMap FileDecl.extensionRanges).map (·.1) := by
  simp only [sites, List.map_flatMap, FileDecl.extensionRanges, List.map_map]
  rfl

namespace Registry

variable {rs : List Record} {r : Registry}

theorem fullNames_nodup (h : ofRecords rs = .ok r) :
    ((sites (rs.map FileDecl.ofRecord)).map Site.fullName).Nodup := by
  obtain ⟨-, hdefects, -⟩ := ofRecords_eq_ok_iff.1 h
  rw [fullNames_sites]
  exact keys_extensionRanges_nodup
    ((names_nodup hdefects).sublist (declaredNames_sublist_definitionsOf _))

theorem numbers_nodup (h : ofRecords rs = .ok r) {s : Site}
    (hs : s ∈ sites (rs.map FileDecl.ofRecord)) : (s.place.2.fields.map (·.number)).Nodup := by
  obtain ⟨-, hdefects, -⟩ := ofRecords_eq_ok_iff.1 h
  exact fieldNumbers_nodup hdefects (mem_sites.1 hs).1 (mem_sites.1 hs).2

theorem mem_files_iff (h : ofRecords rs = .ok r) {f : File} :
    f ∈ r.files ↔ ∃ g ∈ rs.map FileDecl.ofRecord, f = File.link (rs.map FileDecl.ofRecord) g := by
  constructor
  · obtain ⟨-, -, rfl⟩ := ofRecords_eq_ok_iff.1 h
    intro hf
    obtain ⟨x, hx, rfl⟩ := List.mem_map.1 hf
    exact ⟨_, List.mem_map_of_mem ((sortFiles_perm rs).mem_iff.1 hx), rfl⟩
  · rintro ⟨g, hg, rfl⟩
    exact mem_files_ofRecords h hg

theorem mem_files_and_mem_allMessages_iff (h : ofRecords rs = .ok r) {f : File} {m : Message} :
    f ∈ r.files ∧ m ∈ f.allMessages ↔ ∃ s ∈ sites (rs.map FileDecl.ofRecord),
      f = File.link (rs.map FileDecl.ofRecord) s.file ∧ m = s.link (rs.map FileDecl.ofRecord) := by
  rw [mem_files_iff h]
  constructor
  · rintro ⟨⟨g, hg, rfl⟩, hm⟩
    rw [File.allMessages_link] at hm
    obtain ⟨x, hx, rfl⟩ := List.mem_map.1 hm
    exact ⟨⟨g, x⟩, mem_sites.2 ⟨hg, hx⟩, rfl, rfl⟩
  · rintro ⟨s, hs, rfl, rfl⟩
    refine ⟨⟨s.file, (mem_sites.1 hs).1, rfl⟩, ?_⟩
    rw [File.allMessages_link]
    exact List.mem_map_of_mem (mem_sites.1 hs).2

end Registry

@[simp] theorem Reserved.covers_ofMessage {m : Message} {n : Int} :
    (ofMessage m).covers n ↔ m.ReservesNumber n := by
  rw [← Message.covered_iff, ← (Interval.normal_and_covered_normalize _).2, covers,
    coversInterval_iff]
  rfl

@[simp] theorem Reserved.hasName_ofMessage {m : Message} {name : String} :
    (ofMessage m).hasName name ↔ name ∈ m.reservedNames := by
  simp [ofMessage, of]

@[simp] theorem Message.reservesNumber_link {t : Table} {scope : String} {m : MessageDecl} {n : Int} :
    (Message.link t scope m).ReservesNumber n ↔ m.ReservesNumber n := by
  simp [ReservesNumber, MessageDecl.ReservesNumber]

section Fields

variable (t : Table) (scope : String) {m : MessageDecl}

theorem Message.field?_link_eq_none {n : Int} (h : n ∉ m.fields.map (·.number)) :
    (Message.link t scope m).field? n = none := by
  rw [field?, List.find?_eq_none]
  intro f hf hn
  have hmem := List.mem_map_of_mem (f := (·.number)) hf
  rw [(numbers_link_perm t scope m).mem_iff, beq_iff_eq.1 hn] at hmem
  exact h hmem

theorem Message.field?_link_eq_some (hnodup : (m.fields.map (·.number)).Nodup) {f : FieldDecl}
    (h : f.plain ∈ m.fields.map FieldDecl.plain) :
    (Message.link t scope m).field? f.number = some (Field.link t (qualify scope m.name) f) := by
  obtain ⟨g, hg, hplain⟩ := List.mem_map.1 h
  have hlink : Field.link t (qualify scope m.name) g = Field.link t (qualify scope m.name) f := by
    rw [← Field.link_plain, hplain, Field.link_plain]
  have hmem : Field.link t (qualify scope m.name) g ∈ (Message.link t scope m).fields := by
    rw [link_fields, sortFields, List.mem_mergeSort]
    exact List.mem_map_of_mem hg
  rw [hlink] at hmem
  exact Names.find?_eq_some_of_nodup_map ((numbers_link_perm t scope m).nodup_iff.2 hnodup) hmem

end Fields

namespace Deletion

def diff (d : Deletion) : Diff :=
  ⟨.fieldDeleted, d.file, s!"field '{qualify d.owner d.field.name}' ({d.field.number}) was deleted"⟩

def unreservedKinds : List DiffKind :=
  [.fieldDeleteWithoutReservedNumber, .fieldDeleteWithoutReservedName]

def entriesDiff (d : Deletion) (entry : MessageDecl) : Diff :=
  ⟨.messageDeleted, d.file, s!"message '{qualify d.owner entry.name}' was deleted"⟩

variable {d : Deletion}

section Messages

variable {x y : String × MessageDecl} {s s' : Site} {files files' : List FileDecl}

theorem Takes.plain_mem (h : d.Takes x y) {f : FieldDecl} (hf : f ∈ x.2.fields) :
    f = d.field ∨ f.plain ∈ y.2.fields.map FieldDecl.plain := by
  obtain ⟨before, after, hfields, hfields'⟩ := h.fields
  rw [hfields, List.mem_append, List.mem_cons] at hf
  rw [hfields']
  obtain hf | rfl | hf := hf
  · exact .inr (List.mem_map_of_mem (List.mem_append_left after hf))
  · exact .inl rfl
  · exact .inr (List.mem_map_of_mem (List.mem_append_right before hf))

theorem Takes.number_notMem (h : d.Takes x y) (hnodup : (x.2.fields.map (·.number)).Nodup) :
    d.field.number ∉ y.2.fields.map (·.number) := by
  obtain ⟨before, after, hfields, hfields'⟩ := h.fields
  have hnumbers : y.2.fields.map (·.number) = (before ++ after).map (·.number) := by
    have hmap := congrArg (List.map (·.number)) hfields'
    rwa [List.map_map, List.map_map] at hmap
  rw [hfields, List.map_append, List.map_cons, List.nodup_middle, List.nodup_cons] at hnodup
  rw [hnumbers, List.map_append]
  exact hnodup.1

theorem Takes.deletedFieldDiffs_eq (h : d.Takes s.place s'.place) (files' : List FileDecl)
    (t : Table) :
    deletedFieldDiffs d.file (.ofMessage (s'.link files')) (Field.link t s.fullName d.field) =
      [d.diff] := by
  have howner : s.fullName = d.owner := h.owner
  have hnumber : (Reserved.ofMessage (s'.link files')).covers d.field.number :=
    Reserved.covers_ofMessage.2 (Message.reservesNumber_link.2 h.number)
  have hname : (Reserved.ofMessage (s'.link files')).hasName d.field.name := by
    rw [Reserved.hasName_ofMessage, Site.link, Message.link_reservedNames]
    exact h.name
  simp only [deletedFieldDiffs, Field.link, howner, hnumber, hname, if_true, List.append_nil]
  rfl

theorem Follows.reserved_keeps (h : d.Follows s s') :
    (Reserved.ofMessage (s'.link files')).Keeps (.ofMessage (s.link files)) := by
  rw [Reserved.ofMessage, Reserved.ofMessage, Reserved.keeps_of_iff]
  simp only [Message.covered_iff, Site.link, Message.reservesNumber_link,
    Message.link_reservedNames]
  exact ⟨h.carries.numbers, h.carries.names⟩

theorem Follows.plain_mem (h : d.Follows s s') {f : FieldDecl} (hf : f ∈ s.place.2.fields) :
    f.plain ∈ s'.place.2.fields.map FieldDecl.plain ∨
      f = d.field ∧ d.Takes s.place s'.place ∧ s.file.name = d.file := by
  obtain hsame | ⟨htakes, hfile⟩ := h.fields
  · rw [hsame]
    exact .inl (List.mem_map_of_mem hf)
  · apply (htakes.plain_mem hf).symm.imp_right
    intro hf
    exact ⟨hf, htakes, hfile⟩

theorem Follows.mem_messageDiffs (h : d.Follows s s') {location : String}
    (hlocation : location = s.file.name)
    (hnodup : (s.place.2.fields.map (·.number)).Nodup)
    (hnodup' : (s'.place.2.fields.map (·.number)).Nodup) {x : Diff}
    (hx : x ∈ messageDiffs location (s'.link files') (s.link files)) : x = d.diff ∨
      ∃ f, x ∈ fieldDiffs location (Field.link (tableOf files' s'.file) s.fullName f)
        (Field.link (tableOf files s.file) s.fullName f) := by
  subst hlocation
  obtain hx | ⟨old, hold, hx⟩ := mem_messageDiffs_iff.1 hx
  · rw [reservedDiffs_eq_nil_iff.2 h.reserved_keeps] at hx
    exact (List.not_mem_nil hx).elim
  rw [Site.link, Message.link_fields, sortFields, List.mem_mergeSort] at hold
  obtain ⟨f, hf, rfl⟩ := List.mem_map.1 hold
  have hname : qualify s'.place.1 s'.place.2.name = s.fullName := h.carries.fullName
  obtain hkept | ⟨rfl, htakes, hfile⟩ := h.plain_mem hf
  · -- linked again in the edited set, so its reference may lead elsewhere
    have hfound : (s'.link files').field? f.number =
        some (Field.link (tableOf files' s'.file) s.fullName f) :=
      hname ▸ Message.field?_link_eq_some _ _ hnodup' hkept
    obtain ⟨g, hg, hx⟩ | ⟨hnone, -⟩ := hx
    · cases hfound.symm.trans hg
      exact .inr ⟨f, hx⟩
    · cases hfound.symm.trans hnone
  · -- numbers are unique, so no other field has the number of the one that was taken out
    have hlost : (s'.link files').field? d.field.number = none :=
      Message.field?_link_eq_none _ _ (htakes.number_notMem hnodup)
    obtain ⟨g, hg, -⟩ | ⟨-, hx⟩ := hx
    · cases hlost.symm.trans hg
    · have hdeleted := htakes.deletedFieldDiffs_eq files' (tableOf files s.file)
      rw [← hfile] at hdeleted
      exact .inl (List.mem_singleton.1 (hdeleted ▸ hx))

theorem Takes.diff_mem_messageDiffs (h : d.Takes s.place s'.place)
    (hnodup : (s.place.2.fields.map (·.number)).Nodup) :
    d.diff ∈ messageDiffs d.file (s'.link files') (s.link files) := by
  have hlost : (s'.link files').field? d.field.number = none :=
    Message.field?_link_eq_none _ _ (h.number_notMem hnodup)
  have hmem : Field.link (tableOf files s.file) s.fullName d.field ∈ (s.link files).fields := by
    obtain ⟨before, after, hfields, -⟩ := h.fields
    rw [Site.link, Message.link_fields, sortFields, List.mem_mergeSort, hfields]
    exact List.mem_map_of_mem (List.mem_append_right before (.head after))
  refine mem_messageDiffs_iff.2 (.inr ⟨_, hmem, .inr ⟨hlost, ?_⟩⟩)
  rw [h.deletedFieldDiffs_eq]
  exact .head []

end Messages

section Registries

variable {rs rs' : List Record} {previous current : Registry}

theorem Follows.found {s s' : Site} (h : d.Follows s s')
    (hcurrent : Registry.ofRecords rs' = .ok current)
    (hs' : s' ∈ sites (rs'.map FileDecl.ofRecord)) :
    current.message? s.fullName = some (s'.link (rs'.map FileDecl.ofRecord)) ∧
      current.fileOf? s.fullName = some (File.link (rs'.map FileDecl.ofRecord) s'.file) := by
  have hdistinct := Registry.distinct_of_ofRecords hcurrent
  obtain ⟨hfile, hmem⟩ := (Registry.mem_files_and_mem_allMessages_iff hcurrent).2 ⟨s', hs', rfl, rfl⟩
  have hname : (s'.link (rs'.map FileDecl.ofRecord)).fullName = s.fullName :=
    (s'.link_fullName _).trans h.carries.fullName
  rw [← hname]
  exact ⟨hdistinct.message?_eq (Registry.mem_allMessages.2 ⟨_, hfile, hmem⟩),
    hdistinct.fileOf?_eq hfile hmem⟩

section Applied

variable (hprevious : Registry.ofRecords rs = .ok previous)
  (hcurrent : Registry.ofRecords rs' = .ok current)
  (h : d.Applies (rs.map FileDecl.ofRecord) (rs'.map FileDecl.ofRecord))
include hprevious hcurrent h

theorem Applies.found : ∃ removed kept,
    (sites (rs.map FileDecl.ofRecord)).Perm (removed ++ kept) ∧
    removed.map Site.place = placedAll d.owner d.entries?.toList ∧
    (∀ s ∈ removed, s.file.name = d.file ∧ current.message? s.fullName = none) ∧
    ∀ s ∈ kept, ∃ s' ∈ sites (rs'.map FileDecl.ofRecord), d.Follows s s' := by
  obtain ⟨removed, kept, hperm, hremoved, hfile, hfollows⟩ := h.kept_sites
  refine ⟨removed, kept, hperm, hremoved, ?_, fun s => exists_of_forall₂_left hfollows⟩
  intro s hs
  refine ⟨hfile s hs, ?_⟩
  have hnames := (hperm.map Site.fullName).nodup_iff.1 (Registry.fullNames_nodup hprevious)
  rw [List.map_append, List.nodup_append] at hnames
  cases hm : current.message? s.fullName with
  | none => rfl
  | some m =>
    -- a message of that name would come from a site that was kept, and sites share no name
    obtain ⟨hmem, hname⟩ := Registry.message?_eq_some hm
    obtain ⟨f, hf⟩ := Registry.mem_allMessages.1 hmem
    obtain ⟨s', hs', -, rfl⟩ := (Registry.mem_files_and_mem_allMessages_iff hcurrent).1 hf
    obtain ⟨s₀, hs₀, hss⟩ := exists_of_forall₂_left hfollows.flip hs'
    have hsame : s.fullName = s₀.fullName :=
      hname.symm.trans ((s'.link_fullName _).trans hss.carries.fullName)
    exact (hnames.2.2 _ (List.mem_map_of_mem hs) _ (List.mem_map_of_mem hs₀) hsame).elim

theorem Applies.mem_checkMessages {x : Diff} (hx : x ∈ checkMessages current previous) :
    (d.entries? ≠ none ∧ x.kind = .messageDeleted) ∨ x = d.diff ∨
      ∃ g g' : FileDecl, g'.heading = g.heading ∧ ∃ scope f, x ∈ fieldDiffs g.name
        (Field.link (tableOf (rs'.map FileDecl.ofRecord) g') scope f)
        (Field.link (tableOf (rs.map FileDecl.ofRecord) g) scope f) := by
  obtain ⟨removed, kept, hperm, hremoved, hlost, hkept⟩ := h.found hprevious hcurrent
  simp only [checkMessages, List.mem_flatMap] at hx
  obtain ⟨g, hg, m, hm, hx⟩ := hx
  obtain ⟨s, hs, rfl, rfl⟩ := (Registry.mem_files_and_mem_allMessages_iff hprevious).1 ⟨hg, hm⟩
  rw [Site.link_fullName] at hx
  obtain hs' | hs' := List.mem_append.1 (hperm.mem_iff.1 hs)
  · rw [(hlost s hs').2, List.mem_singleton] at hx
    refine .inl ⟨?_, hx ▸ rfl⟩
    intro hentries
    rw [hentries, Option.toList_none, placedAll, List.map_eq_nil_iff] at hremoved
    exact List.not_mem_nil (hremoved ▸ hs')
  · obtain ⟨s', hmem', hss⟩ := hkept s hs'
    rw [(hss.found hcurrent hmem').1] at hx
    obtain hx | ⟨f, hx⟩ := hss.mem_messageDiffs rfl (Registry.numbers_nodup hprevious hs)
      (Registry.numbers_nodup hcurrent hmem') hx
    · exact .inr (.inl hx)
    · exact .inr (.inr ⟨s.file, s'.file, hss.heading, s.fullName, f, hx⟩)

theorem Applies.diff_mem_checkMessages : d.diff ∈ checkMessages current previous := by
  obtain ⟨s, hs, s', hs', htakes, hss, hfile⟩ := h.exists_takes
  obtain ⟨hg, hm⟩ := (Registry.mem_files_and_mem_allMessages_iff hprevious).2 ⟨s, hs, rfl, rfl⟩
  simp only [checkMessages, List.mem_flatMap]
  refine ⟨_, hg, _, hm, ?_⟩
  rw [Site.link_fullName, (hss.found hcurrent hs').1]
  change d.diff ∈ messageDiffs s.file.name _ _
  rw [hfile]
  exact htakes.diff_mem_messageDiffs (Registry.numbers_nodup hprevious hs)

theorem Applies.entriesDiff_mem_checkMessages {entry : MessageDecl}
    (hentries : d.entries? = some entry) : d.entriesDiff entry ∈ checkMessages current previous := by
  obtain ⟨removed, kept, hperm, hremoved, hlost, -⟩ := h.found hprevious hcurrent
  obtain ⟨s, hs, hplace⟩ : ∃ s ∈ removed, s.place = (d.owner, entry) := by
    rw [← List.mem_map, hremoved, hentries]
    exact mem_placedAll.2 ⟨entry, .head [], MessageDecl.mem_placed.2 (.inl rfl)⟩
  obtain ⟨hfile, hnone⟩ := hlost s hs
  have hsite := hperm.mem_iff.2 (List.mem_append_left kept hs)
  obtain ⟨hg, hm⟩ := (Registry.mem_files_and_mem_allMessages_iff hprevious).2 ⟨s, hsite, rfl, rfl⟩
  simp only [checkMessages, List.mem_flatMap]
  refine ⟨_, hg, _, hm, ?_⟩
  rw [Site.link_fullName, hnone, List.mem_singleton, entriesDiff, Site.fullName, hplace, ← hfile]
  rfl

theorem Applies.mem_allEnums (hentries : d.entries? = none) {e : EnumType}
    (he : e ∈ previous.allEnums) : e ∈ current.allEnums := by
  obtain ⟨kept, hperm, hfollows⟩ := h.sites_of_none hentries
  obtain ⟨F, hF, he⟩ := Registry.mem_allEnums.1 he
  obtain ⟨g, hg, rfl⟩ := (Registry.mem_files_iff hprevious).1 hF
  rw [File.allEnums_link, List.mem_append, List.mem_flatMap] at he
  rw [Registry.mem_allEnums]
  obtain he | ⟨x, hx, he⟩ := he
  · have hheading : g.heading ∈ (rs'.map FileDecl.ofRecord).map FileDecl.heading :=
      h.headings ▸ List.mem_map_of_mem hg
    obtain ⟨g', hg', hsame⟩ := List.mem_map.1 hheading
    have henums : g'.enums = g.enums := (congrArg FileDecl.enums hsame :)
    have hpackage : g'.package = g.package := (congrArg FileDecl.package hsame :)
    refine ⟨_, (Registry.mem_files_iff hcurrent).2 ⟨g', hg', rfl⟩, ?_⟩
    rw [File.allEnums_link, List.mem_append, henums, hpackage]
    exact .inl he
  · have hsite : (⟨g, x⟩ : Site) ∈ kept := hperm.mem_iff.1 (mem_sites.2 ⟨hg, hx⟩)
    obtain ⟨s', hs', hss⟩ := exists_of_forall₂_left hfollows hsite
    obtain ⟨hg', hx'⟩ := mem_sites.1 hs'
    refine ⟨_, (Registry.mem_files_iff hcurrent).2 ⟨_, hg', rfl⟩, ?_⟩
    rw [File.allEnums_link, List.mem_append, List.mem_flatMap]
    refine .inr ⟨s'.place, hx', ?_⟩
    rw [hss.carries.enums, hss.carries.fullName]
    exact he

theorem Applies.checkEnums_eq_nil (hentries : d.entries? = none) :
    checkEnums current previous = [] := by
  rw [checkEnums_eq_nil_iff]
  intro e he
  have hdistinct := Registry.distinct_of_ofRecords hcurrent
  have hmem := h.mem_allEnums hprevious hcurrent hentries he
  exact ⟨e, hdistinct.enum?_eq hmem, hdistinct.enum_keeps_self hmem⟩

theorem Applies.checkLanguage_eq_nil (hentries : d.entries? = none) :
    checkLanguage current previous = [] := by
  obtain ⟨kept, hperm, hfollows⟩ := h.sites_of_none hentries
  rw [checkLanguage_eq_nil_iff]
  intro F hF m hm g hg
  obtain ⟨s, hs, rfl, rfl⟩ := (Registry.mem_files_and_mem_allMessages_iff hprevious).1 ⟨hF, hm⟩
  obtain ⟨s', hs', hss⟩ := exists_of_forall₂_left hfollows (hperm.mem_iff.1 hs)
  rw [Site.link_fullName, (hss.found hcurrent hs').2] at hg
  cases hg
  have hname : s'.file.syntaxName = s.file.syntaxName := (congrArg FileDecl.syntaxName hss.heading :)
  rw [File.language, File.language, File.link, File.link, hname]

theorem Applies.eq_diff_of_mem (hentries : d.entries? = none) {x : Diff}
    (hx : x ∈ compareDiffs current previous) : x = d.diff := by
  rw [compareDiffs, h.checkEnums_eq_nil hprevious hcurrent hentries,
    h.checkLanguage_eq_nil hprevious hcurrent hentries, List.append_nil, List.append_nil] at hx
  obtain ⟨hsome, -⟩ | hx | ⟨g, g', hheading, scope, f, hx⟩ :=
    h.mem_checkMessages hprevious hcurrent hx
  · exact (hsome hentries).elim
  · exact hx
  · obtain ⟨-, hdefects, -⟩ := Registry.ofRecords_eq_ok_iff.1 hprevious
    obtain ⟨-, hdefects', -⟩ := Registry.ofRecords_eq_ok_iff.1 hcurrent
    have hagrees := h.agrees hentries (names_nodup hdefects) (names_nodup hdefects') hheading
    rw [Field.link_congr hagrees, fieldDiffs_eq_nil_iff.2 (.refl _)] at hx
    exact (List.not_mem_nil hx).elim

theorem Applies.kind_notMem {x : Diff} (hx : x ∈ compareDiffs current previous) :
    x.kind ∉ unreservedKinds := by
  rw [compareDiffs, List.mem_append, List.mem_append] at hx
  obtain (hx | hx) | hx := hx
  · obtain ⟨-, hkind⟩ | rfl | ⟨g, g', -, scope, f, hx⟩ := h.mem_checkMessages hprevious hcurrent hx
    · rw [hkind]
      decide
    · exact (by decide : DiffKind.fieldDeleted ∉ unreservedKinds)
    · exact (by decide : ∀ k ∈ fieldKinds, k ∉ unreservedKinds) _
        ((kinds_fieldDiffs_sublist _ _ _).subset (List.mem_map_of_mem hx))
  · exact (by decide : ∀ k ∈ DiffKind.enumDeleted :: (reservedKinds ++ valueKinds),
      k ∉ unreservedKinds) _ (kind_mem_of_mem_checkEnums hx)
  · rw [kind_of_mem_checkLanguage hx]
    decide

end Applied

theorem Applies.forward_isEmpty_iff (hprevious : Registry.ofRecords rs = .ok previous)
    (hcurrent : Registry.ofRecords rs' = .ok current)
    (h : d.Applies (rs.map FileDecl.ofRecord) (rs'.map FileDecl.ofRecord)) :
    (compare .forward current previous).isEmpty ↔ d.entries? = none := by
  rw [Report.isEmpty, List.isEmpty_iff, compare, Report.of, List.filter_eq_nil_iff]
  constructor
  · intro hempty
    by_contra hsome
    obtain ⟨entry, hentries⟩ := Option.ne_none_iff_exists'.1 hsome
    have hmem := h.entriesDiff_mem_checkMessages hprevious hcurrent hentries
    exact hempty _ (List.mem_append_left _ (List.mem_append_left _ hmem))
      (by decide : RuleSet.forward.disallows .messageDeleted)
  · intro hentries x hx
    rw [h.eq_diff_of_mem hprevious hcurrent hentries hx]
    exact (by decide : ¬ RuleSet.forward.disallows .fieldDeleted)

end Registries

end Deletion

/-- A field is taken out and reserved. Writers are told nothing exactly if the field is not a map whose
entries go with it; the entries are reported as a deleted message. Readers are told of the field, never
of a slot that is not reserved, and of nothing else where no entries go with it. -/
theorem reserved_deletion_tolerated_iff {previousBytes currentBytes : List UInt8}
    {previous current : Registry} {set set' : Record} {d : Deletion}
    (hprevious : Registry.parse previousBytes = .ok previous)
    (hcurrent : Registry.parse currentBytes = .ok current)
    (hset : MessageType.fileSet.decode? previousBytes = some set)
    (hset' : MessageType.fileSet.decode? currentBytes = some set')
    (h : d.Applies ((filesOf set).map FileDecl.ofRecord) ((filesOf set').map FileDecl.ofRecord)) :
    ((compare .forward current previous).isEmpty ↔ d.entries? = none) ∧
      d.diff ∈ (compare .backward current previous).diffs ∧
      (∀ x ∈ (compare .backward current previous).diffs, x.kind ≠ .fieldDeleteWithoutReservedNumber ∧
        x.kind ≠ .fieldDeleteWithoutReservedName) ∧
      (d.entries? = none → ∀ x ∈ (compare .backward current previous).diffs, x = d.diff) ∧
      ∀ entry, d.entries? = some entry →
        d.entriesDiff entry ∈ (compare .forward current previous).diffs := by
  obtain ⟨_, hset₀, hprevious⟩ := Registry.parse_eq_ok_iff.1 hprevious
  cases hset.symm.trans hset₀
  obtain ⟨_, hset₀', hcurrent⟩ := Registry.parse_eq_ok_iff.1 hcurrent
  cases hset'.symm.trans hset₀'
  rw [compare_backward_diffs]
  refine ⟨h.forward_isEmpty_iff hprevious hcurrent, ?_, ?_, ?_, ?_⟩
  · have hmem := h.diff_mem_checkMessages hprevious hcurrent
    exact List.mem_append_left _ (List.mem_append_left _ hmem)
  · intro x hx
    simpa only [Deletion.unreservedKinds, List.mem_cons, List.not_mem_nil, or_false, not_or] using
      h.kind_notMem hprevious hcurrent hx
  · intro hentries x hx
    exact h.eq_diff_of_mem hprevious hcurrent hentries hx
  · intro entry hentries
    have hmem := h.entriesDiff_mem_checkMessages hprevious hcurrent hentries
    exact List.mem_filter.2 ⟨List.mem_append_left _ (List.mem_append_left _ hmem),
      (by decide : RuleSet.forward.disallows .messageDeleted)⟩

def boxField (name : String) (number : Int) : Record :=
  Build.field ⟨name, number, 9, none, none, false, false⟩

def fullBox (field : Record) (entries? : Option Record) : Record :=
  Build.message "Box" [field] entries?.toList [] [] []

def emptiedBox (field : Record) : Record :=
  Build.message "Box" [] [] [] [Build.range 1 2] [field.text 1]

def boxFile (box : Record) : Record := Build.file "a.proto" "a" Build.usualEdition [] [box] []

def boxTable (box : Record) : Table := tableOf [.ofRecord (boxFile box)] (.ofRecord (boxFile box))

def boxDeletion (field : Record) (entries? : Option Record) : Deletion :=
  ⟨"a.proto", "a.Box", .ofRecord field, entries?.map .ofRecord⟩

section Box

variable {field : Record} {entries? : Option Record}

theorem ofRecord_boxFile (box : Record) : FileDecl.ofRecord (boxFile box) =
    ⟨"a.proto", "a", [], [.ofRecord box], [], [], [], [], [], "proto3"⟩ := by
  have hvalues : (boxFile box).values 4 = [.record box] := rfl
  rw [FileDecl.ofRecord, hvalues, MessageDecl.ofValues_eq]
  rfl

theorem ofRecord_fullBox : MessageDecl.ofRecord (fullBox field entries?) =
    ⟨"Box", [.ofRecord field], (entries?.map .ofRecord).toList, [], [], [], [], [], [],
      fullBox field entries?⟩ := by
  rw [MessageDecl.ofRecord_eq]
  cases entries? <;> rfl

theorem ofRecord_emptiedBox : MessageDecl.ofRecord (emptiedBox field) =
    ⟨"Box", [], [], [], [], [], [], [⟨1, 2⟩], [field.text 1], emptiedBox field⟩ := by
  rw [MessageDecl.ofRecord_eq]
  rfl

theorem applies_boxDeletion (hnumber : field.number 3 = 1) (hentries : entries?.map .ofRecord =
    (MessageDecl.ofRecord (fullBox field entries?)).mapEntries? (boxTable (fullBox field entries?)) "a"
      (.ofRecord field)) :
    (boxDeletion field entries?).Applies [.ofRecord (boxFile (fullBox field entries?))]
      [.ofRecord (boxFile (emptiedBox field))] := by
  have hedits : (boxDeletion field entries?).Edits (boxTable (fullBox field entries?)) "a"
      (.ofRecord (fullBox field entries?)) (.ofRecord (emptiedBox field)) := by
    rw [ofRecord_emptiedBox]
    rw [ofRecord_fullBox] at hentries ⊢
    constructor
    case owner => exact (by decide +kernel : "a.Box" = qualify "a" "Box")
    case entries => exact hentries
    case fields => exact ⟨[], [], rfl, rfl⟩
    case nested => exact ⟨[], [], (List.append_nil _).symm, rfl⟩
    case numbers =>
      rintro n (⟨r, hr, -⟩ | hn)
      · cases hr
      · obtain rfl : n = 1 := hn.trans hnumber
        exact ⟨⟨1, 2⟩, .head _, by decide, by decide⟩
    case names =>
      rintro n (hn | rfl)
      · cases hn
      · exact .head _
    all_goals rfl
  rw [boxTable, ofRecord_boxFile] at hedits
  rw [ofRecord_boxFile, ofRecord_boxFile]
  exact @Deletion.Applies.intro _ [] [] _ _ rfl (@Deletion.Within.here _ _ "a" [] [] _ _ hedits)

end Box

theorem decode?_of_equal {bytes : List UInt8} {set : Record}
    (h : (MessageType.fileSet.decode? bytes).any (Record.equal · set)) :
    MessageType.fileSet.decode? bytes = some set := by
  obtain ⟨decoded, hdecoded, hequal⟩ := (Option.any_eq_true _ _).1 h
  rw [hdecoded, Record.eq_of_equal hequal]

def labelField : Record := boxField "label" 1

theorem reserved_deletion_tolerated_iff_label : ∃ previous current,
    Registry.parse (Build.descriptorSet [boxFile (fullBox labelField none)]) = .ok previous ∧
      Registry.parse (Build.descriptorSet [boxFile (emptiedBox labelField)]) = .ok current ∧
      (boxDeletion labelField none).Applies [.ofRecord (boxFile (fullBox labelField none))]
        [.ofRecord (boxFile (emptiedBox labelField))] ∧
      (compare .forward current previous).isEmpty ∧
      (boxDeletion labelField none).diff ∈ (compare .backward current previous).diffs := by
  obtain ⟨previous, current, hprevious, hcurrent, -⟩ := exists_ok_of_bind_toOption
    (x := Registry.parse (Build.descriptorSet [boxFile (fullBox labelField none)]))
    (y := Registry.parse (Build.descriptorSet [boxFile (emptiedBox labelField)]))
    (g := fun _ _ => ()) (c := ()) (by decide +kernel)
  have hset : MessageType.fileSet.decode? (Build.descriptorSet [boxFile (fullBox labelField none)]) =
      some [(1, [.record (boxFile (fullBox labelField none))])] := decode?_of_equal (by decide +kernel)
  have hset' : MessageType.fileSet.decode? (Build.descriptorSet [boxFile (emptiedBox labelField)]) =
      some [(1, [.record (boxFile (emptiedBox labelField))])] := decode?_of_equal (by decide +kernel)
  have happlies : (boxDeletion labelField none).Applies [.ofRecord (boxFile (fullBox labelField none))]
      [.ofRecord (boxFile (emptiedBox labelField))] := by
    refine applies_boxDeletion rfl ?_
    rw [MessageDecl.mapEntries?, if_neg (by decide +kernel)]
    rfl
  obtain ⟨hforward, hdiff, -⟩ :=
    reserved_deletion_tolerated_iff hprevious hcurrent hset hset' happlies
  exact ⟨previous, current, hprevious, hcurrent, happlies, hforward.2 rfl, hdiff⟩

def slotsField : Record := Build.field ⟨"slots", 1, 11, some ".a.Box.SlotsEntry", none, true, false⟩

def slotsEntry : Record :=
  (Build.message "SlotsEntry" [boxField "key" 1, boxField "value" 2] [] [] [] []).put 7
    (.record (Build.number 7 1 []))

/-- The slot of the map is reserved and its entries are used nowhere else, and yet writers are told of
the entries. -/
theorem reserved_map_deletion_reported : ∃ previous current,
    Registry.parse (Build.descriptorSet [boxFile (fullBox slotsField slotsEntry)]) = .ok previous ∧
      Registry.parse (Build.descriptorSet [boxFile (emptiedBox slotsField)]) = .ok current ∧
      (boxDeletion slotsField slotsEntry).Applies [.ofRecord (boxFile (fullBox slotsField slotsEntry))]
        [.ofRecord (boxFile (emptiedBox slotsField))] ∧
      (compare .forward current previous).diffs =
        [⟨.messageDeleted, "a.proto", "message 'a.Box.SlotsEntry' was deleted"⟩] := by
  obtain ⟨previous, current, hprevious, hcurrent, hdiffs⟩ := exists_ok_of_bind_toOption
    (x := Registry.parse (Build.descriptorSet [boxFile (fullBox slotsField slotsEntry)]))
    (y := Registry.parse (Build.descriptorSet [boxFile (emptiedBox slotsField)]))
    (g := fun previous current => (compare .forward current previous).diffs)
    (c := [⟨.messageDeleted, "a.proto", "message 'a.Box.SlotsEntry' was deleted"⟩])
    (by decide +kernel)
  refine ⟨previous, current, hprevious, hcurrent, applies_boxDeletion rfl ?_, hdiffs⟩
  rw [ofRecord_fullBox, MessageDecl.mapEntries?, if_pos (by decide +kernel)]
  exact (List.find?_cons_of_pos (by decide +kernel)).symm

end SchemaEvolution.Protobuf
