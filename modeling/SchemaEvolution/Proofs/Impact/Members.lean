import SchemaEvolution.Proofs.Impact.Detected

namespace SchemaEvolution.Impact

open Protobuf Registry

inductive Member
  | field (number : Int) (name : String) (type : Int) (deprecated : Bool)
  | enum (name : String) (descriptor : Record)
  | value (name : String) (number : Int)

namespace Member

def name : Member → String
  | .field _ name _ _ | .enum name _ | .value name _ => name

def ofField (f : Field) : Member := .field f.number f.name (knownType f.type) f.deprecated

def ofEnum (e : EnumType) : Member := .enum e.name e.descriptor

def ofValue (v : String × Int) : Member := .value v.1 v.2

def ofMessage (m : Message) : List Member := m.fields.map ofField ++ m.enums.map ofEnum

def Held (messages : List Message) (enums : List EnumType) (type : String) (x : Member) : Prop :=
  (∃ m ∈ messages, m.fullName = type ∧ x ∈ ofMessage m) ∨
    ∃ e ∈ enums, e.fullName = type ∧ x ∈ e.values.map ofValue

def Known (r : Registry) : String → Member → Prop := Held r.allMessages r.allEnums

/-- The type that has the member is one that changes are told of. -/
def Shown (r : Registry) : String → Member → Prop := Held r.allMessages r.topEnums

end Member

open Member

section Known

variable {r : Registry} {type : String}

@[simp] theorem known_field_iff {f : Field} : Known r type (ofField f) ↔
    ∃ m ∈ r.allMessages, m.fullName = type ∧ ∃ g ∈ m.fields, ofField g = ofField f := by
  simp [Known, Held, ofMessage, ofField, ofEnum, ofValue]

@[simp] theorem known_enum_iff {e : EnumType} : Known r type (ofEnum e) ↔
    ∃ m ∈ r.allMessages, m.fullName = type ∧ ∃ d ∈ m.enums, ofEnum d = ofEnum e := by
  simp [Known, Held, ofMessage, ofField, ofEnum, ofValue]

@[simp] theorem known_value_iff {v : String × Int} : Known r type (ofValue v) ↔
    ∃ e ∈ r.allEnums, e.fullName = type ∧ v ∈ e.values := by
  simp [Known, Held, ofMessage, ofField, ofEnum, ofValue]

theorem fieldChanged_eq_false_iff {f g : Field} (hnumber : g.number = f.number) :
    fieldChanged g f = false ↔ ofField g = ofField f := by
  simp [fieldChanged, ofField, hnumber, and_assoc]

end Known

section Members

variable {old new : Registry} {m : Message} {e : EnumType} {name : String}

theorem nestedNames_nodup (hd : old.Distinct) (hdescribed : old.Described)
    (hm : m ∈ old.allMessages) : (m.enums.map (·.name)).Nodup := by
  obtain ⟨f, hf, hmf⟩ := mem_allMessages.1 hm
  -- full names are unique in the registry, and within one message they only differ in the last part
  have hnames := hd.enumNames
  rw [allEnums, List.map_flatMap, List.nodup_flatMap] at hnames
  have hfile := hnames.1 f hf
  rw [File.allEnums, List.map_append, List.nodup_append, List.map_flatMap,
    List.nodup_flatMap] at hfile
  have hfull := hfile.2.1.1 m hmf
  rw [(hdescribed.messages m hm).enums, List.map_map] at hfull ⊢
  refine List.Nodup.of_map (qualify m.fullName) ?_
  rw [List.map_map]
  exact hfull

theorem known_field_iff_found (ho : old.Distinct) {type : String} {f : Field} :
    Known old type (ofField f) ↔ ∃ g, (old.message? type >>= (·.field? f.number)) = some g ∧
      fieldChanged g f = false := by
  simp only [known_field_iff, Option.bind_eq_bind, Option.bind_eq_some_iff,
    ho.message?_eq_some_iff]
  constructor
  · rintro ⟨p, hp, hname, g, hg, hsame⟩
    have hnumber : g.number = f.number := (Member.field.inj hsame).1
    exact ⟨g, ⟨p, ⟨hp, hname⟩, hnumber ▸ ho.field?_eq hp hg⟩,
      (fieldChanged_eq_false_iff hnumber).2 hsame⟩
  · rintro ⟨g, ⟨p, ⟨hp, hname⟩, hg⟩, hsame⟩
    obtain ⟨hg, hnumber⟩ := Message.field?_eq_some hg
    exact ⟨p, hp, hname, g, hg, (fieldChanged_eq_false_iff hnumber).1 hsame⟩

theorem known_enum_iff_found (ho : old.Accepted) {type : String} :
    Known old type (ofEnum e) ↔
      ∃ d, (old.message? type >>= fun p => p.enums.find? (·.name == e.name)) = some d ∧
        d.descriptor = e.descriptor := by
  simp only [known_enum_iff, Option.bind_eq_bind, Option.bind_eq_some_iff,
    ho.distinct.message?_eq_some_iff]
  constructor
  · rintro ⟨p, hp, hname, d, hd, hsame⟩
    obtain ⟨hde, hdescriptor⟩ := Member.enum.inj hsame
    have hnodup := nestedNames_nodup ho.distinct ho.described hp
    exact ⟨d, ⟨p, ⟨hp, hname⟩, hde ▸ Names.find?_eq_some_of_nodup_map hnodup hd⟩, hdescriptor⟩
  · rintro ⟨d, ⟨p, ⟨hp, hname⟩, hd⟩, hdescriptor⟩
    have hde : d.name = e.name := by simpa using List.find?_some hd
    refine ⟨p, hp, hname, d, List.mem_of_find?_eq_some hd, ?_⟩
    rw [ofEnum, ofEnum, hde, hdescriptor]

theorem known_value_iff_found (ho : old.Distinct) {type : String} {v : String × Int} :
    Known old type (ofValue v) ↔ (old.enum? type >>= (·.number? v.1)) = some v.2 := by
  simp only [known_value_iff, Option.bind_eq_bind, Option.bind_eq_some_iff, ho.enum?_eq_some_iff]
  constructor
  · rintro ⟨d, hd, hname, hv⟩
    exact ⟨d, ⟨hd, hname⟩, ho.number?_eq hd hv⟩
  · rintro ⟨d, ⟨hd, hname⟩, hv⟩
    exact ⟨d, hd, hname, EnumType.number?_eq_some hv⟩

theorem mem_messageMembers_iff (ho : old.Accepted) :
    name ∈ messageMembers m (old.message? m.fullName) ↔
      ∃ x ∈ ofMessage m, x.name = name ∧ ¬ Known old m.fullName x := by
  simp only [messageMembers, ofMessage, List.mem_append, or_and_right, exists_or]
  refine or_congr ?_ ?_
  · simp only [List.mem_map, List.mem_filter, exists_exists_and_eq_and, and_assoc,
      known_field_iff_found ho.distinct]
    refine exists_congr fun f => and_congr_right fun _ => and_comm.trans (and_congr_right' ?_)
    cases old.message? m.fullName >>= (·.field? f.number) <;> simp
  · simp only [List.mem_map, List.mem_filter, exists_exists_and_eq_and, and_assoc,
      known_enum_iff_found ho]
    refine exists_congr fun e => and_congr_right fun _ => and_comm.trans (and_congr_right' ?_)
    cases old.message? m.fullName >>= fun p => p.enums.find? (·.name == e.name) <;> simp

theorem mem_enumMembers_iff (ho : old.Distinct) :
    name ∈ enumMembers e (old.enum? e.fullName) ↔
      ∃ x ∈ e.values.map ofValue, x.name = name ∧ ¬ Known old e.fullName x := by
  simp only [enumMembers, List.mem_map, List.mem_filter, exists_exists_and_eq_and, and_assoc,
    known_value_iff_found ho]
  refine exists_congr fun v => and_congr_right fun _ => and_comm.trans (and_congr_right' ?_)
  cases old.enum? e.fullName >>= (·.number? v.1) <;> simp

theorem known_of_matches (h : old.Matches m) (ho : old.Described) (hn : new.Described)
    (hm : m ∈ new.allMessages) {x : Member} (hx : x ∈ ofMessage m) : Known old m.fullName x := by
  obtain ⟨p, hp, hname, hdescriptor⟩ := matches_iff.1 h
  have hdescribed := hn.messages m hm
  obtain hx | hx := List.mem_append.1 hx
  · obtain ⟨f, hf, rfl⟩ := List.mem_map.1 hx
    obtain ⟨k, hk⟩ := hdescribed.exists_field (ho.messages p hp) hname.symm hdescriptor.symm hf
    exact known_field_iff.2 ⟨p, hp, hname, _, hk, rfl⟩
  · obtain ⟨e, he, rfl⟩ := List.mem_map.1 hx
    rw [hdescribed.enums_eq (ho.messages p hp) hname.symm hdescriptor.symm] at he
    exact known_enum_iff.2 ⟨p, hp, hname, e, he, rfl⟩

theorem lists_iff (ho : old.Accepted) (hn : new.Accepted) {type : String} :
    (detectChanges old new).Lists type name ↔
      ∃ x : Member, x.name = name ∧ Shown new type x ∧ ¬ Known old type x := by
  rw [detectChanges, ChangeSet.lists_ofList]
  constructor
  · rintro ⟨members, hchange, hname⟩
    obtain ⟨m, hm, -, hmembers⟩ | ⟨e, he, -, hmembers⟩ := (mem_changes_iff ho.distinct).1 hchange
    · obtain ⟨rfl, rfl⟩ := Prod.mk.inj hmembers
      obtain ⟨x, hx, hxname, hknown⟩ := (mem_messageMembers_iff ho).1 hname
      exact ⟨x, hxname, .inl ⟨m, hm, rfl, hx⟩, hknown⟩
    · obtain ⟨rfl, rfl⟩ := Prod.mk.inj hmembers
      obtain ⟨x, hx, hxname, hknown⟩ := (mem_enumMembers_iff ho.distinct).1 hname
      exact ⟨x, hxname, .inr ⟨e, he, rfl, hx⟩, hknown⟩
  · -- a member that is not known shows that the type is not described as before
    rintro ⟨x, hxname, ⟨m, hm, rfl, hx⟩ | ⟨e, he, rfl, hx⟩, hknown⟩
    · have hmatches : ¬ old.Matches m := by
        intro h
        exact hknown (known_of_matches h ho.described hn.described hm hx)
      exact ⟨_, (mem_changes_iff ho.distinct).2 (.inl ⟨m, hm, hmatches, rfl⟩),
        (mem_messageMembers_iff ho).2 ⟨x, hx, hxname, hknown⟩⟩
    · have hmatches : ¬ old.MatchesEnum e := by
        intro h
        exact hknown (.inr
          ⟨e, h.mem ho.described hn.described (mem_allEnums_of_top he), rfl, hx⟩)
      exact ⟨_, (mem_changes_iff ho.distinct).2 (.inr ⟨e, he, hmatches, rfl⟩),
        (mem_enumMembers_iff ho.distinct).2 ⟨x, hx, hxname, hknown⟩⟩

end Members

/-- No enum at top level is nested in a message of the other registry. -/
def KeepsTop (r s : Registry) : Prop :=
  ∀ e ∈ r.topEnums, ∀ m ∈ s.allMessages, ∀ d ∈ m.enums, d.fullName ≠ e.fullName

def stepChanges : Registry → List Registry → List ChangeSet
  | _, [] => []
  | old, new :: later => detectChanges old new :: stepChanges new later

section Histories

variable {a b c : Registry} {type name : String}

theorem KeepsTop.mem_topEnums (h : KeepsTop b a) {d e : EnumType} (he : e ∈ b.topEnums)
    (hd : d ∈ a.allEnums) (hname : d.fullName = e.fullName) : d ∈ a.topEnums := by
  obtain htop | ⟨m, hm, hdm⟩ := mem_topEnums_or_nested hd
  · exact htop
  · exact absurd hname (h e he m hm d hdm)

theorem shown_of_known (h : KeepsTop c b) {x : Member} (hshown : Shown c type x)
    (hknown : Known b type x) : Shown b type x := by
  obtain hmessage | ⟨d, hd, hdname, hx⟩ := hknown
  · exact .inl hmessage
  · obtain ⟨m, hm, hmname, hxm⟩ | ⟨e, he, hename, -⟩ := hshown
    · -- members of messages are no values
      obtain ⟨v, -, rfl⟩ := List.mem_map.1 hx
      simp [ofMessage, ofField, ofEnum, ofValue] at hxm
    · exact .inr ⟨d, h.mem_topEnums he hd (hdname.trans hename.symm), hdname, hx⟩

theorem mem_updated_trans (ha : a.Distinct) (hb : b.Distinct) (htop : KeepsTop c b)
    (h : name ∈ (detectChanges a c).updated) :
    name ∈ (detectChanges a b).updated ∨ name ∈ (detectChanges b c).updated := by
  obtain ⟨m, hm, rfl, ham⟩ | ⟨e, he, rfl, hae⟩ := (mem_updated_iff ha).1 h
  · by_cases hbm : b.Matches m
    · obtain ⟨n, hn, hname, hdescriptor⟩ := matches_iff.1 hbm
      have han : ¬ a.Matches n := by rwa [Matches, hname, hdescriptor]
      exact .inl ((mem_updated_iff ha).2 (.inl ⟨n, hn, hname, han⟩))
    · exact .inr ((mem_updated_iff hb).2 (.inl ⟨m, hm, rfl, hbm⟩))
  · by_cases hbe : b.MatchesEnum e
    · obtain ⟨d, hd, hname, hdescriptor⟩ := matchesEnum_iff.1 hbe
      have had : ¬ a.MatchesEnum d := by rwa [MatchesEnum, hname, hdescriptor]
      exact .inl ((mem_updated_iff ha).2 (.inr ⟨d, htop.mem_topEnums he hd hname, hname, had⟩))
    · exact .inr ((mem_updated_iff hb).2 (.inr ⟨e, he, rfl, hbe⟩))

theorem lists_trans (ha : a.Accepted) (hb : b.Accepted) (hc : c.Accepted) (htop : KeepsTop c b)
    (h : (detectChanges a c).Lists type name) :
    (detectChanges a b).Lists type name ∨ (detectChanges b c).Lists type name := by
  obtain ⟨x, hname, hshown, hax⟩ := (lists_iff ha hc).1 h
  -- either the member came with the first step, or the version in between has not got it
  by_cases hbx : Known b type x
  · exact .inl ((lists_iff ha hb).2 ⟨x, hname, shown_of_known htop hshown hbx, hax⟩)
  · exact .inr ((lists_iff hb hc).2 ⟨x, hname, hshown, hbx⟩)

theorem heard_of_steps {last : Registry} (between : List Registry) (first : Registry)
    (haccepted : ∀ r ∈ first :: (between ++ [last]), r.Accepted)
    (htop : ∀ r ∈ between, KeepsTop last r) :
    (∀ name ∈ (detectChanges first last).updated,
      ∃ s ∈ stepChanges first (between ++ [last]), name ∈ s.updated) ∧
    ∀ type name, (detectChanges first last).Lists type name →
      ∃ s ∈ stepChanges first (between ++ [last]), s.Lists type name := by
  -- the version after the first one takes the place of the first one
  induction between generalizing first with
  | nil =>
    constructor
    · intro name h
      exact ⟨_, .head _, h⟩
    · intro type name h
      exact ⟨_, .head _, h⟩
  | cons next between ih =>
    obtain ⟨hupdated, hlists⟩ := ih next (fun r hr => haccepted r (.tail _ hr))
      (fun r hr => htop r (.tail _ hr))
    have hfirst := haccepted first (.head _)
    have hnext := haccepted next (.tail _ (.head _))
    have hlast := haccepted last (by simp)
    have hplace := htop next (.head _)
    constructor
    · intro name h
      obtain h | h := mem_updated_trans hfirst.distinct hnext.distinct hplace h
      · exact ⟨_, .head _, h⟩
      · obtain ⟨s, hs, hname⟩ := hupdated name h
        exact ⟨s, .tail _ hs, hname⟩
    · intro type name h
      obtain h | h := lists_trans hfirst hnext hlast hplace h
      · exact ⟨_, .head _, h⟩
      · obtain ⟨s, hs, hname⟩ := hlists type name h
        exact ⟨s, .tail _ hs, hname⟩

/-- Nothing that changed between two versions is missed by those who hear of each step in between,
as long as no enum at top level was nested in a message before. -/
theorem detectChanges_covered_by_steps {first last : Registry} {between : List Registry}
    (hparsed : ∀ r ∈ first :: (between ++ [last]), ∃ bytes, Registry.parse bytes = .ok r)
    (htop : ∀ r ∈ between, KeepsTop last r) :
    (∀ middle ∈ between,
      (∀ name ∈ (detectChanges first last).updated,
        name ∈ (detectChanges first middle).updated ∨
          name ∈ (detectChanges middle last).updated) ∧
      ∀ type name, (detectChanges first last).Lists type name →
        (detectChanges first middle).Lists type name ∨
          (detectChanges middle last).Lists type name) ∧
    (∀ name ∈ (detectChanges first last).updated,
      ∃ step ∈ stepChanges first (between ++ [last]), name ∈ step.updated) ∧
    ∀ type name, (detectChanges first last).Lists type name →
      ∃ step ∈ stepChanges first (between ++ [last]), step.Lists type name := by
  have haccepted : ∀ r ∈ first :: (between ++ [last]), r.Accepted := by
    intro r hr
    obtain ⟨_, h⟩ := hparsed r hr
    exact accepted_of_parse h
  refine ⟨?_, heard_of_steps between first haccepted htop⟩
  intro middle hmiddle
  have hfirst := haccepted first (.head _)
  have hmid := haccepted middle (.tail _ (List.mem_append_left _ hmiddle))
  have hlast := haccepted last (by simp)
  constructor
  · intro name h
    exact mem_updated_trans hfirst.distinct hmid.distinct (htop middle hmiddle) h
  · intro type name h
    exact lists_trans hfirst hmid hlast (htop middle hmiddle) h

def noteSet (text : String) (tones : List String) : List UInt8 :=
  Build.descriptorSet [Build.file "a.proto" "a" Build.usualEdition []
    [Build.message "Note" [Build.field ⟨text, 1, 9, none, none, false, false⟩] [] [] [] []]
    [Build.enumeration "Tone" (tones.zipIdx.map fun v => Build.enumValue v.1 v.2) [] []]]

theorem detectChanges_covered_by_steps_notes : ∃ a b c, Registry.parse (noteSet "text" ["CALM"]) = .ok a ∧
    Registry.parse (noteSet "body" ["CALM", "LOUD"]) = .ok b ∧
    Registry.parse (noteSet "body" ["CALM", "SAD", "LOUD"]) = .ok c ∧ KeepsTop c b ∧
    (detectChanges a c).Lists "a.Note" "body" ∧ (detectChanges a c).Lists "a.Tone" "LOUD" ∧
    (∃ step ∈ stepChanges a [b, c], "a.Tone" ∈ step.updated) ∧
    (∃ step ∈ stepChanges a [b, c], step.Lists "a.Note" "body") ∧
    ((detectChanges a b).Lists "a.Tone" "LOUD" ∨ (detectChanges b c).Lists "a.Tone" "LOUD") := by
  obtain ⟨a, c, ha, hc, hchanges⟩ := exists_ok_of_bind_toOption
    (x := Registry.parse (noteSet "text" ["CALM"]))
    (y := Registry.parse (noteSet "body" ["CALM", "SAD", "LOUD"]))
    (g := fun a c => c.allMessages.filterMap (messageChange? a) ++
      c.topEnums.filterMap (enumChange? a))
    (c := [("a.Note", ["body"]), ("a.Tone", ["SAD", "LOUD"])]) (by decide +kernel)
  obtain ⟨b, hb, hnested⟩ := exists_ok_of_map_toOption
    (x := Registry.parse (noteSet "body" ["CALM", "LOUD"]))
    (g := fun r => r.allMessages.flatMap fun m => m.enums.map (·.fullName)) (b := [])
    (by decide +kernel)
  have htop : KeepsTop c b := by
    intro e _ m hm d hd
    simp only [List.flatMap_eq_nil_iff, List.map_eq_nil_iff] at hnested
    simp [hnested m hm] at hd
  have hdetect : detectChanges a c = .ofList _ := congrArg ChangeSet.ofList hchanges
  have hlists : (detectChanges a c).Lists "a.Note" "body" ∧
      (detectChanges a c).Lists "a.Tone" "LOUD" := by
    rw [hdetect, ChangeSet.lists_ofList, ChangeSet.lists_ofList]
    simp
  have hupdated : "a.Tone" ∈ (detectChanges a c).updated := by
    rw [hdetect, ChangeSet.mem_updated_ofList]
    simp
  have hparsed : ∀ r ∈ a :: ([b] ++ [c]), ∃ bytes, Registry.parse bytes = .ok r := by
    simp only [List.mem_cons, List.mem_append, List.not_mem_nil, or_false]
    rintro r (rfl | rfl | rfl)
    exacts [⟨_, ha⟩, ⟨_, hb⟩, ⟨_, hc⟩]
  obtain ⟨hthrough, htypes, hmembers⟩ := detectChanges_covered_by_steps hparsed (by simpa using htop)
  exact ⟨a, b, c, ha, hb, hc, htop, hlists.1, hlists.2, htypes _ hupdated, hmembers _ _ hlists.1,
    (hthrough b (.head _)).2 _ _ hlists.2⟩

end Histories

end SchemaEvolution.Impact
