import SchemaEvolution.Proofs.Protobuf.Accepted
import SchemaEvolution.Proofs.Protobuf.Intervals

namespace SchemaEvolution.Protobuf

/-- The messages of a file: those at top level and those nested in a message of the file. -/
inductive File.Declares (f : File) : Message → Prop
  | top {m : Message} : m ∈ f.messages → f.Declares m
  | nested {m child : Message} : f.Declares m → child ∈ m.children → f.Declares child

def File.DeclaresEnum (f : File) (e : EnumType) : Prop :=
  e ∈ f.enums ∨ ∃ m, f.Declares m ∧ e ∈ m.enums

@[simp] theorem Message.mem_walk {m n : Message} : n ∈ m.walk ↔ n = m ∨ n ∈ walkAll m.children := by
  cases m
  rw [walk, List.mem_cons]

@[simp] theorem mem_walkAll {ms : List Message} {n : Message} : n ∈ walkAll ms ↔ ∃ m ∈ ms, n ∈ m.walk := by
  induction ms with
  | nil => simp [walkAll]
  | cons m ms ih => rw [walkAll, List.mem_append, ih, List.exists_mem_cons_iff]

mutual

theorem Message.child_mem_walk {m child : Message} (hc : child ∈ m.children) (top : Message)
    (h : m ∈ top.walk) : child ∈ top.walk := by
  cases top with
  | mk name fullName fields children =>
    rw [Message.mem_walk] at h ⊢
    obtain rfl | h := h
    · exact .inr (mem_walkAll.2 ⟨child, hc, Message.mem_walk.2 (.inl rfl)⟩)
    · exact .inr (child_mem_walkAll hc children h)

theorem child_mem_walkAll {m child : Message} (hc : child ∈ m.children) (ms : List Message)
    (h : m ∈ walkAll ms) : child ∈ walkAll ms := by
  match ms with
  | [] => cases h
  | top :: ms =>
    rw [walkAll, List.mem_append] at h ⊢
    exact h.imp (Message.child_mem_walk hc top) (child_mem_walkAll hc ms)

end

mutual

theorem File.declares_of_mem_walk {f : File} (m : Message) (hm : f.Declares m) {n : Message}
    (h : n ∈ m.walk) : f.Declares n := by
  cases m with
  | mk name fullName fields children =>
    rw [Message.mem_walk] at h
    obtain rfl | h := h
    · exact hm
    · exact declares_of_mem_walkAll children (fun c hc => .nested hm hc) h

theorem File.declares_of_mem_walkAll {f : File} (ms : List Message) (hms : ∀ m ∈ ms, f.Declares m)
    {n : Message} (h : n ∈ walkAll ms) : f.Declares n := by
  match ms with
  | [] => cases h
  | m :: ms =>
    rw [walkAll, List.mem_append] at h
    obtain h | h := h
    · exact declares_of_mem_walk m (hms m (.head ms)) h
    · exact declares_of_mem_walkAll ms (fun c hc => hms c (.tail m hc)) h

end

@[simp] theorem File.mem_allMessages_iff {f : File} {m : Message} : m ∈ f.allMessages ↔ f.Declares m := by
  constructor
  · apply declares_of_mem_walkAll f.messages
    intro _ h
    exact .top h
  · intro h
    induction h with
    | top h => exact mem_walkAll.2 ⟨_, h, Message.mem_walk.2 (.inl rfl)⟩
    | nested _ hc ih => exact child_mem_walkAll hc f.messages ih

@[simp] theorem File.mem_allEnums_iff {f : File} {e : EnumType} : e ∈ f.allEnums ↔ f.DeclaresEnum e := by
  simp [allEnums, DeclaresEnum]

def Message.ReservesNumber (m : Message) (n : Int) : Prop :=
  ∃ r ∈ m.reservedRanges, r.start ≤ n ∧ n < r.stop

def EnumType.ReservesNumber (e : EnumType) (n : Int) : Prop :=
  ∃ r ∈ e.reservedRanges, r.start ≤ n ∧ n ≤ r.stop

@[simp] theorem Message.covered_iff {m : Message} {n : Int} :
    Interval.Covered (m.reservedRanges.map fun r => ⟨r.start, r.stop - 1⟩) n ↔
      m.ReservesNumber n := by
  simp only [Interval.Covered, Interval.Holds, ReservesNumber, List.mem_map,
    exists_exists_and_eq_and, Int.le_sub_one_iff]

@[simp] theorem EnumType.covered_iff {e : EnumType} {n : Int} :
    Interval.Covered (e.reservedRanges.map fun r => ⟨r.start, r.stop⟩) n ↔
      e.ReservesNumber n := by
  simp [Interval.Covered, Interval.Holds, ReservesNumber]

structure Message.Retains (current previous : Message) : Prop where
  numbers : ∀ n, previous.ReservesNumber n → current.ReservesNumber n
  names : ∀ name ∈ previous.reservedNames, name ∈ current.reservedNames
  fields : ∀ f ∈ previous.fields, ∃ g ∈ current.fields, g.number = f.number ∧ g.Keeps f

structure EnumType.Retains (current previous : EnumType) : Prop where
  numbers : ∀ n, previous.ReservesNumber n → current.ReservesNumber n
  names : ∀ name ∈ previous.reservedNames, name ∈ current.reservedNames
  values : ∀ v ∈ previous.values, v ∈ current.values

structure Registry.Retains (current previous : Registry) : Prop where
  messages : ∀ f ∈ previous.files, ∀ m, f.Declares m → ∃ g ∈ current.files, ∃ n, g.Declares n ∧
    n.fullName = m.fullName ∧ g.language = f.language ∧ n.Retains m
  enums : ∀ f ∈ previous.files, ∀ e, f.DeclaresEnum e → ∃ g ∈ current.files, ∃ d,
    g.DeclaresEnum d ∧ d.fullName = e.fullName ∧ d.Retains e

namespace Registry.Distinct

variable {current previous : Registry}

theorem message_keeps_iff (h : current.Distinct) {m n : Message} (hn : n ∈ current.allMessages) :
    n.Keeps m ↔ n.Retains m := by
  have hreserved : (Reserved.ofMessage n).Keeps (.ofMessage m) ↔
      (∀ k, m.ReservesNumber k → n.ReservesNumber k) ∧
        ∀ name ∈ m.reservedNames, name ∈ n.reservedNames := by
    simp [Reserved.ofMessage, Reserved.keeps_of_iff]
  constructor
  · intro hk
    refine ⟨(hreserved.1 hk.reserved).1, (hreserved.1 hk.reserved).2, ?_⟩
    intro f hf
    obtain ⟨g, hg, hgf⟩ := hk.fields f hf
    obtain ⟨hmem, hnumber⟩ := Message.field?_eq_some hg
    exact ⟨g, hmem, hnumber, hgf⟩
  · intro hr
    refine ⟨hreserved.2 ⟨hr.numbers, hr.names⟩, ?_⟩
    intro f hf
    obtain ⟨g, hg, hnumber, hgf⟩ := hr.fields f hf
    exact ⟨g, hnumber ▸ h.field?_eq hn hg, hgf⟩

theorem enum_keeps_iff (h : current.Distinct) {e d : EnumType} (hd : d ∈ current.allEnums) :
    d.Keeps e ↔ d.Retains e := by
  have hreserved : (Reserved.ofEnum d).Keeps (.ofEnum e) ↔
      (∀ k, e.ReservesNumber k → d.ReservesNumber k) ∧
        ∀ name ∈ e.reservedNames, name ∈ d.reservedNames := by
    simp [Reserved.ofEnum, Reserved.keeps_of_iff]
  constructor
  · intro hk
    exact ⟨(hreserved.1 hk.reserved).1, (hreserved.1 hk.reserved).2,
      fun v hv => EnumType.number?_eq_some (hk.values v hv)⟩
  · intro hr
    exact ⟨hreserved.2 ⟨hr.numbers, hr.names⟩, fun v hv => h.number?_eq hd (hr.values v hv)⟩

theorem keeps_iff (h : current.Distinct) : current.Keeps previous ↔ current.Retains previous := by
  constructor
  · intro hk
    constructor
    case messages =>
      intro f hf m hm
      have hmem := File.mem_allMessages_iff.2 hm
      obtain ⟨n, hn, hnm⟩ := hk.messages m (mem_allMessages.2 ⟨f, hf, hmem⟩)
      obtain ⟨hnc, hname⟩ := message?_eq_some hn
      obtain ⟨g, hg, hng⟩ := mem_allMessages.1 hnc
      obtain ⟨g', hg', hlanguage⟩ := hk.languages f hf m hmem
      cases (hname ▸ h.fileOf?_eq hg hng).symm.trans hg'
      exact ⟨g, hg, n, File.mem_allMessages_iff.1 hng, hname, hlanguage,
        (h.message_keeps_iff hnc).1 hnm⟩
    case enums =>
      intro f hf e he
      obtain ⟨d, hd, hde⟩ := hk.enums e (mem_allEnums.2 ⟨f, hf, File.mem_allEnums_iff.2 he⟩)
      obtain ⟨hdc, hname⟩ := enum?_eq_some hd
      obtain ⟨g, hg, hdg⟩ := mem_allEnums.1 hdc
      exact ⟨g, hg, d, File.mem_allEnums_iff.1 hdg, hname, (h.enum_keeps_iff hdc).1 hde⟩
  · intro hr
    constructor
    case messages =>
      intro m hm
      obtain ⟨f, hf, hmf⟩ := mem_allMessages.1 hm
      obtain ⟨g, hg, n, hn, hname, -, hnm⟩ := hr.messages f hf m (File.mem_allMessages_iff.1 hmf)
      have hnc := mem_allMessages.2 ⟨g, hg, File.mem_allMessages_iff.2 hn⟩
      exact ⟨n, hname ▸ h.message?_eq hnc, (h.message_keeps_iff hnc).2 hnm⟩
    case enums =>
      intro e he
      obtain ⟨f, hf, hef⟩ := mem_allEnums.1 he
      obtain ⟨g, hg, d, hd, hname, hde⟩ := hr.enums f hf e (File.mem_allEnums_iff.1 hef)
      have hdc := mem_allEnums.2 ⟨g, hg, File.mem_allEnums_iff.2 hd⟩
      exact ⟨d, hname ▸ h.enum?_eq hdc, (h.enum_keeps_iff hdc).2 hde⟩
    case languages =>
      intro f hf m hm
      obtain ⟨g, hg, n, hn, hname, hlanguage, -⟩ :=
        hr.messages f hf m (File.mem_allMessages_iff.1 hm)
      exact ⟨g, hname ▸ h.fileOf?_eq hg (File.mem_allMessages_iff.2 hn), hlanguage⟩

end Registry.Distinct

end SchemaEvolution.Protobuf
