import SchemaEvolution.Proofs.Protobuf.Retained
import SchemaEvolution.Proofs.Protobuf.Wire
import SchemaEvolution.Protobuf.Build

namespace SchemaEvolution.Protobuf

namespace Message

def numbers (m : Message) : List Int := m.fields.map (·.number)

def requiredNumbers (m : Message) : List Int :=
  (m.fields.filter (·.cardinality == .required)).map (·.number)

/-- The bytes can be read, and no required field is missing in them. -/
def Satisfied (m : Message) (bytes : List UInt8) : Prop :=
  ∃ fs, Wire.fields? bytes = some fs ∧ ∀ n ∈ m.requiredNumbers, ∃ f ∈ fs, (f.1 : Int) = n

@[simp] theorem mem_requiredNumbers {m : Message} {n : Int} :
    n ∈ m.requiredNumbers ↔ ∃ f ∈ m.fields, f.cardinality = .required ∧ f.number = n := by
  simp [requiredNumbers, and_assoc]

theorem Satisfied.mono {m p : Message} (h : m.requiredNumbers ⊆ p.requiredNumbers)
    {bytes : List UInt8} (hp : p.Satisfied bytes) : m.Satisfied bytes := by
  obtain ⟨fs, hread, hfields⟩ := hp
  refine ⟨fs, hread, ?_⟩
  intro n hn
  exact hfields n (h hn)

theorem satisfied_of_fields (p : Message) {bytes : List UInt8} {fs : List (Nat × Wire.Payload)}
    (hread : Wire.fields? bytes = some fs)
    (hfs : ∀ n, (∃ f ∈ fs, (f.1 : Int) = n) ↔ n ∈ p.requiredNumbers) : p.Satisfied bytes := by
  refine ⟨fs, hread, ?_⟩
  intro n hn
  rwa [hfs]

theorem Keeps.requiredNumbers_subset {m p : Message} (h : m.Keeps p) :
    p.requiredNumbers ⊆ m.requiredNumbers := by
  intro n hn
  obtain ⟨f, hf, hrequired, rfl⟩ := mem_requiredNumbers.1 hn
  obtain ⟨g, hg, hgf⟩ := h.fields f hf
  obtain ⟨hg, hnumber⟩ := field?_eq_some hg
  exact mem_requiredNumbers.2 ⟨g, hg, hgf.cardinality.trans hrequired, hnumber⟩

theorem Keeps.mem_requiredNumbers {m p : Message} (h : m.Keeps p) (hdistinct : m.numbers.Nodup)
    {n : Int} (hn : n ∈ m.requiredNumbers) (hold : n ∈ p.numbers) : n ∈ p.requiredNumbers := by
  obtain ⟨g, hg, hrequired, rfl⟩ := Message.mem_requiredNumbers.1 hn
  obtain ⟨f, hf, hnumber⟩ := List.mem_map.1 hold
  obtain ⟨k, hk, hkf⟩ := h.fields f hf
  obtain ⟨hk, hknumber⟩ := field?_eq_some hk
  obtain rfl : k = g := List.inj_on_of_nodup_map hdistinct hk hg (hknumber.trans hnumber)
  exact Message.mem_requiredNumbers.2 ⟨f, hf, hkf.cardinality.symm.trans hrequired, hnumber⟩

end Message

theorem isFieldNumber_of_defectsOf {files : List FileDecl} (h : defectsOf files = [])
    {f : FileDecl} (hf : f ∈ files) {x : String × MessageDecl} (hx : x ∈ f.placed) :
    ∀ d ∈ x.2.fields, isFieldNumber d.number := by
  intro d hd
  have hown := ownDefects_eq_nil h hf hx
  simp only [MessageDecl.ownDefects, List.append_eq_nil_iff, List.flatMap_eq_nil_iff,
    FieldDecl.numberDefects, demand_eq_nil_iff] at hown
  exact (hown.1.1.1.1.1 d hd).2.1.1.1

theorem Registry.isFieldNumber_of_parse {bytes : List UInt8} {r : Registry}
    (h : parse bytes = .ok r) {m : Message} (hm : m ∈ r.allMessages) :
    ∀ n ∈ m.numbers, isFieldNumber n := by
  intro n hn
  obtain ⟨set, -, hr⟩ := parse_eq_ok_iff.1 h
  obtain ⟨-, hdefects, rfl⟩ := ofRecords_eq_ok_iff.1 hr
  simp only [mem_allMessages, List.mem_map] at hm
  obtain ⟨_, ⟨x, hx, rfl⟩, hm⟩ := hm
  rw [File.allMessages_link] at hm
  obtain ⟨y, hy, rfl⟩ := List.mem_map.1 hm
  obtain ⟨d, hd, rfl⟩ := List.mem_map.1 ((Message.numbers_link_perm _ _ _).mem_iff.1 hn)
  have hfile := List.mem_map_of_mem (f := FileDecl.ofRecord) ((sortFiles_perm _).mem_iff.1 hx)
  exact isFieldNumber_of_defectsOf hdefects hfile hy d hd

theorem exists_bytes_of_numbers (numbers : List Int) (h : ∀ n ∈ numbers, isFieldNumber n) :
    ∃ bytes fs, Wire.fields? bytes = some fs ∧ ∀ n, (∃ f ∈ fs, (f.1 : Int) = n) ↔ n ∈ numbers := by
  have hnumber (n : Int) (hn : n ∈ numbers) : 0 < n.toNat ∧ n.toNat < 2 ^ 29 ∧ (n.toNat : Int) = n := by
    have hn := h n hn
    simp only [isFieldNumber, Bool.and_eq_true, decide_eq_true_eq] at hn
    omega
  let fs : List (Nat × Wire.Payload) := numbers.map fun n => (n.toNat, .varint 0)
  have hwritable (f : Nat × Wire.Payload) (hf : f ∈ fs) : Wire.WritableField f := by
    obtain ⟨n, hn, rfl⟩ := List.mem_map.1 hf
    exact ⟨⟨(hnumber n hn).1, (hnumber n hn).2.1⟩, Nat.two_pow_pos 64⟩
  refine ⟨_, fs, Wire.fields?_writeField hwritable, ?_⟩
  intro n
  constructor
  · rintro ⟨f, hf, rfl⟩
    obtain ⟨n, hn, rfl⟩ := List.mem_map.1 hf
    rwa [(hnumber n hn).2.2]
  · intro hn
    exact ⟨_, List.mem_map_of_mem hn, (hnumber n hn).2.2⟩

/-- Where no change counts against readers, the required fields of a message stay required, and no
field that was not required becomes so. The required fields are the same, and every message that the
previous version accepts is accepted, exactly if no required field is new. -/
theorem required_kept_iff {currentBytes previousBytes : List UInt8} {current previous : Registry}
    (hcurrent : Registry.parse currentBytes = .ok current)
    (hprevious : Registry.parse previousBytes = .ok previous)
    (hempty : (compare .backward current previous).isEmpty) :
    ∀ file ∈ current.files, ∀ m, file.Declares m →
      ∀ old ∈ previous.files, ∀ p, old.Declares p → m.fullName = p.fullName →
        (∀ n ∈ p.numbers, n ∈ m.requiredNumbers ↔ n ∈ p.requiredNumbers) ∧
        ((∀ n, n ∈ m.requiredNumbers ↔ n ∈ p.requiredNumbers) ↔
          ∀ n ∈ m.requiredNumbers, n ∈ p.numbers) ∧
        ((∀ bytes, p.Satisfied bytes → m.Satisfied bytes) ↔
          ∀ n ∈ m.requiredNumbers, n ∈ p.numbers) := by
  intro file hfile m hm old hold p hp hname
  have hm : m ∈ current.allMessages :=
    Registry.mem_allMessages.2 ⟨file, hfile, File.mem_allMessages_iff.2 hm⟩
  have hp : p ∈ previous.allMessages :=
    Registry.mem_allMessages.2 ⟨old, hold, File.mem_allMessages_iff.2 hp⟩
  have hdistinct := Registry.distinct_of_parse hcurrent
  have hkeeps : m.Keeps p := by
    obtain ⟨k, hk, hkp⟩ := (compare_backward_isEmpty_iff.1 hempty).messages p hp
    rw [← hname, hdistinct.message?_eq hm] at hk
    cases hk
    exact hkp
  have hback (n : Int) (hn : n ∈ m.requiredNumbers) (hold : n ∈ p.numbers) :
      n ∈ p.requiredNumbers := hkeeps.mem_requiredNumbers (hdistinct.fields m hm) hn hold
  have hnumbers (n : Int) (hn : n ∈ p.requiredNumbers) : n ∈ p.numbers := by
    obtain ⟨f, hf, -, rfl⟩ := Message.mem_requiredNumbers.1 hn
    exact List.mem_map_of_mem hf
  have hsubset : p.requiredNumbers ⊆ m.requiredNumbers := hkeeps.requiredNumbers_subset
  refine ⟨?_, ?_, ?_⟩
  · intro n hn
    constructor
    · intro h
      exact hback n h hn
    · intro h
      exact hsubset h
  · constructor
    · intro hsame n hn
      apply hnumbers
      rwa [← hsame]
    · intro hnew n
      constructor
      · intro hn
        exact hback n hn (hnew n hn)
      · intro hn
        exact hsubset hn
  · constructor
    · -- a reader that sees nothing but the required fields of before shows which ones are new
      intro hreads n hn
      have hvalid : ∀ n ∈ p.requiredNumbers, isFieldNumber n := by
        intro n hn
        exact Registry.isFieldNumber_of_parse hprevious hp n (hnumbers n hn)
      obtain ⟨bytes, fs, hread, hfs⟩ := exists_bytes_of_numbers p.requiredNumbers hvalid
      obtain ⟨gs, hread', hgs⟩ := hreads bytes (p.satisfied_of_fields hread hfs)
      cases hread.symm.trans hread'
      apply hnumbers
      rw [← hfs]
      exact hgs n hn
    · intro hnew bytes
      apply Message.Satisfied.mono
      intro n hn
      exact hback n hn (hnew n hn)

def keyField (name : String) : Record :=
  Build.number 4 2 (Build.field ⟨name, 1, 9, none, some "key", false, false⟩)

def entrySet (fields : List Record) : List UInt8 :=
  Build.descriptorSet [Build.file "a.proto" "a" "proto2" []
    [Build.message "Book" [] [Build.message "Entry" fields [] [] [] []] [] [] []] []]

def requiredFields (r : Registry) : List (String × List Int × List Int) :=
  r.allMessages.map fun m => (m.fullName, m.numbers, m.requiredNumbers)

theorem exists_message_of_requiredFields {r : Registry} {name : String} {numbers required : List Int}
    (h : (name, numbers, required) ∈ requiredFields r) : ∃ file ∈ r.files, ∃ m, file.Declares m ∧
      m.fullName = name ∧ m.numbers = numbers ∧ m.requiredNumbers = required := by
  obtain ⟨m, hm, heq⟩ := List.mem_map.1 h
  obtain ⟨file, hfile, hm⟩ := Registry.mem_allMessages.1 hm
  cases heq
  exact ⟨file, hfile, m, File.mem_allMessages_iff.1 hm, rfl, rfl, rfl⟩

theorem required_kept_iff_renamed : ∃ current previous,
    Registry.parse (entrySet [keyField "label"]) = .ok current ∧
    Registry.parse (entrySet [keyField "key"]) = .ok previous ∧
    (compare .backward current previous).isEmpty ∧
    ∃ file ∈ current.files, ∃ m, file.Declares m ∧ ∃ old ∈ previous.files, ∃ p, old.Declares p ∧
      m.fullName = p.fullName ∧ p.requiredNumbers = [1] ∧
      (∀ n, n ∈ m.requiredNumbers ↔ n ∈ p.requiredNumbers) ∧
      ∀ bytes, p.Satisfied bytes → m.Satisfied bytes := by
  obtain ⟨current, previous, hcurrent, hprevious, hshape⟩ := exists_ok_of_bind_toOption
    (x := Registry.parse (entrySet [keyField "label"]))
    (y := Registry.parse (entrySet [keyField "key"]))
    (g := fun current previous => decide ((compare .backward current previous).isEmpty ∧
      ("a.Book.Entry", [1], [1]) ∈ requiredFields current ∧
      ("a.Book.Entry", [1], [1]) ∈ requiredFields previous))
    (c := true) (by decide +kernel)
  obtain ⟨hempty, hm, hp⟩ := of_decide_eq_true hshape
  obtain ⟨file, hfile, m, hm, hname, -, hrequired⟩ := exists_message_of_requiredFields hm
  obtain ⟨old, hold, p, hp, hpname, hnumbers, hprequired⟩ := exists_message_of_requiredFields hp
  have heq := hname.trans hpname.symm
  obtain ⟨-, hsame, hbytes⟩ :=
    required_kept_iff hcurrent hprevious hempty file hfile m hm old hold p hp heq
  have hnew : ∀ n ∈ m.requiredNumbers, n ∈ p.numbers := by
    rw [hrequired, hnumbers]
    intro _ h
    exact h
  exact ⟨current, previous, hcurrent, hprevious, hempty, file, hfile, m, hm, old, hold, p, hp, heq,
    hprequired, hsame.2 hnew, hbytes.2 hnew⟩

/-- A required field is added and no change is found, but an empty message, which the previous version
accepts, is not accepted any more. -/
theorem required_field_added_unseen : ∃ current previous,
    Registry.parse (entrySet [keyField "key"]) = .ok current ∧
    Registry.parse (entrySet []) = .ok previous ∧ (compare .backward current previous).isEmpty ∧
    ∃ file ∈ current.files, ∃ m, file.Declares m ∧ ∃ old ∈ previous.files, ∃ p, old.Declares p ∧
      m.fullName = p.fullName ∧ m.requiredNumbers = [1] ∧ p.requiredNumbers = [] ∧
      p.Satisfied [] ∧ ¬ m.Satisfied [] := by
  obtain ⟨current, previous, hcurrent, hprevious, hshape⟩ := exists_ok_of_bind_toOption
    (x := Registry.parse (entrySet [keyField "key"])) (y := Registry.parse (entrySet []))
    (g := fun current previous => decide ((compare .backward current previous).isEmpty ∧
      ("a.Book.Entry", [1], [1]) ∈ requiredFields current ∧
      ("a.Book.Entry", [], []) ∈ requiredFields previous))
    (c := true) (by decide +kernel)
  obtain ⟨hempty, hm, hp⟩ := of_decide_eq_true hshape
  obtain ⟨file, hfile, m, hm, hname, -, hrequired⟩ := exists_message_of_requiredFields hm
  obtain ⟨old, hold, p, hp, hpname, -, hprequired⟩ := exists_message_of_requiredFields hp
  have hread : Wire.fields? [] = some [] := rfl
  refine ⟨current, previous, hcurrent, hprevious, hempty, file, hfile, m, hm, old, hold, p, hp,
    hname.trans hpname.symm, hrequired, hprequired, ⟨[], hread, by rw [hprequired]; nofun⟩, ?_⟩
  rintro ⟨fs, hfs, hall⟩
  cases hread.symm.trans hfs
  obtain ⟨f, hf, -⟩ := hall 1 (hrequired ▸ .head _)
  cases hf

end SchemaEvolution.Protobuf
