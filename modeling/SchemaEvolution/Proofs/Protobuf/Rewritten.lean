import Mathlib.Data.List.Forall2
import SchemaEvolution.Proofs.Protobuf.ReservedNumbers

namespace SchemaEvolution.Protobuf

structure EnumType.Rewritten (e e' : EnumType) : Prop where
  fullName : e'.fullName = e.fullName
  values : e'.values = e.values
  names : e'.reservedNames = e.reservedNames
  numbers : ∀ n, e'.ReservesNumber n ↔ e.ReservesNumber n

structure Message.SameHead (m m' : Message) : Prop where
  fullName : m'.fullName = m.fullName
  fields : m'.fields = m.fields
  names : m'.reservedNames = m.reservedNames
  numbers : ∀ n, m'.ReservesNumber n ↔ m.ReservesNumber n

/-- Other ranges with the same numbers, in the message and in all types within it. -/
inductive Message.Rewritten : Message → Message → Prop
  | intro {m m' : Message} : m.SameHead m' →
    List.Forall₂ EnumType.Rewritten m.enums m'.enums →
    List.Forall₂ Message.Rewritten m.children m'.children → Rewritten m m'

structure File.Rewritten (f f' : File) : Prop where
  name : f'.name = f.name
  syntaxName : f'.syntaxName = f.syntaxName
  messages : List.Forall₂ Message.Rewritten f.messages f'.messages
  enums : List.Forall₂ EnumType.Rewritten f.enums f'.enums

def Registry.Rewritten (r r' : Registry) : Prop := List.Forall₂ File.Rewritten r.files r'.files

section Lists

variable {α β γ : Type*} {R : α → β → Prop} {xs : List α} {ys : List β}

theorem find?_rel (h : List.Forall₂ R xs ys) {p : α → Bool} {q : β → Bool}
    (hpq : ∀ x y, R x y → p x = q y) : Option.Rel R (xs.find? p) (ys.find? q) := by
  induction h with
  | nil => exact .none
  | @cons x y xs ys hxy _ ih =>
    rw [List.find?_cons, List.find?_cons, ← hpq x y hxy]
    cases p x with
    | true => exact .some hxy
    | false => exact ih

theorem flatMap_eq_of_forall₂ (h : List.Forall₂ R xs ys) {f : α → List γ} {g : β → List γ}
    (hfg : ∀ x y, R x y → f x = g y) : xs.flatMap f = ys.flatMap g := by
  induction h with
  | nil => rfl
  | @cons x y xs ys hxy _ ih => rw [List.flatMap_cons, List.flatMap_cons, hfg x y hxy, ih]

theorem any_eq_of_forall₂ (h : List.Forall₂ R xs ys) {p : α → Bool} {q : β → Bool}
    (hpq : ∀ x y, R x y → p x = q y) : xs.any p = ys.any q := by
  induction h with
  | nil => rfl
  | @cons x y xs ys hxy _ ih => rw [List.any_cons, List.any_cons, hpq x y hxy, ih]

end Lists

section Enums

variable {e e' d d' : EnumType}

theorem EnumType.Rewritten.reserved (h : e.Rewritten e') :
    Reserved.ofEnum e' = Reserved.ofEnum e :=
  congrArg₂ Reserved.mk
    ((Reserved.describes_ofEnum e').intervals_eq (Reserved.describes_ofEnum e) h.numbers)
    (congrArg Names.ofList h.names)

theorem enumDiffs_rewritten (location : String) (hcurrent : d.Rewritten d')
    (hprevious : e.Rewritten e') : enumDiffs location d e = enumDiffs location d' e' := by
  simp only [enumDiffs, valueDiffs, EnumType.number?, hcurrent.reserved, hprevious.reserved,
    hcurrent.values, hprevious.values, hprevious.fullName]

end Enums

section Messages

variable {m m' n n' : Message}

theorem Message.Rewritten.head (h : m.Rewritten m') : m.SameHead m' := by
  cases h
  assumption

theorem Message.Rewritten.enums (h : m.Rewritten m') :
    List.Forall₂ EnumType.Rewritten m.enums m'.enums := by
  cases h
  assumption

theorem Message.Rewritten.children (h : m.Rewritten m') :
    List.Forall₂ Message.Rewritten m.children m'.children := by
  cases h
  assumption

theorem Message.SameHead.reserved (h : m.SameHead m') :
    Reserved.ofMessage m' = Reserved.ofMessage m :=
  congrArg₂ Reserved.mk
    ((Reserved.describes_ofMessage m').intervals_eq (Reserved.describes_ofMessage m) h.numbers)
    (congrArg Names.ofList h.names)

theorem messageDiffs_rewritten (location : String) (hcurrent : n.SameHead n')
    (hprevious : m.SameHead m') : messageDiffs location n m = messageDiffs location n' m' := by
  simp only [messageDiffs, Message.field?, hcurrent.reserved, hprevious.reserved, hcurrent.fields,
    hprevious.fields, hprevious.fullName]

mutual

theorem Message.rewritten_walk (m m' : Message) (h : m.Rewritten m') :
    List.Forall₂ Message.Rewritten m.walk m'.walk := by
  cases m with
  | mk name fullName fields children =>
    cases m' with
    | mk name' fullName' fields' children' =>
      rw [Message.walk, Message.walk]
      exact .cons h (rewritten_walkAll children children' h.children)

theorem rewritten_walkAll (ms ms' : List Message) (h : List.Forall₂ Message.Rewritten ms ms') :
    List.Forall₂ Message.Rewritten (walkAll ms) (walkAll ms') := by
  match ms, ms', h with
  | [], [], .nil => exact .nil
  | m :: ms, m' :: ms', .cons hm hms =>
    rw [walkAll, walkAll]
    exact List.rel_append (Message.rewritten_walk m m' hm) (rewritten_walkAll ms ms' hms)

end

end Messages

namespace File.Rewritten

variable {f f' : File} (h : f.Rewritten f')
include h

theorem allMessages : List.Forall₂ Message.Rewritten f.allMessages f'.allMessages :=
  rewritten_walkAll _ _ h.messages

theorem allEnums : List.Forall₂ EnumType.Rewritten f.allEnums f'.allEnums :=
  List.rel_append h.enums (List.rel_flatMap h.allMessages fun _ _ hm => hm.enums)

theorem language : f'.language = f.language := by
  rw [File.language, File.language, h.syntaxName]

end File.Rewritten

namespace Registry.Rewritten

variable {r r' : Registry} (h : r.Rewritten r') (name : String)
include h

theorem message?_rel : Option.Rel Message.Rewritten (r.message? name) (r'.message? name) := by
  apply find?_rel (List.rel_flatMap h fun _ _ hf => hf.allMessages)
  intro m m' hm
  rw [hm.head.fullName]

theorem enum?_rel : Option.Rel EnumType.Rewritten (r.enum? name) (r'.enum? name) := by
  apply find?_rel (List.rel_flatMap h fun _ _ hf => hf.allEnums)
  intro e e' he
  rw [he.fullName]

theorem fileOf?_rel : Option.Rel File.Rewritten (r.fileOf? name) (r'.fileOf? name) := by
  apply find?_rel h
  intro f f' hf
  apply any_eq_of_forall₂ hf.allMessages
  intro m m' hm
  rw [hm.head.fullName]

end Registry.Rewritten

section Comparison

variable {current current' previous previous' : Registry} (hcurrent : current.Rewritten current')
  (hprevious : previous.Rewritten previous')
include hcurrent hprevious

theorem checkMessages_rewritten :
    checkMessages current previous = checkMessages current' previous' := by
  apply flatMap_eq_of_forall₂ hprevious
  intro f f' hf
  apply flatMap_eq_of_forall₂ hf.allMessages
  intro m m' hm
  simp only [hm.head.fullName, hf.name]
  match current.message? m.fullName, current'.message? m.fullName,
      hcurrent.message?_rel m.fullName with
  | none, none, .none => rfl
  | some _, some _, .some hn => exact messageDiffs_rewritten f.name hn.head hm.head

theorem checkEnums_rewritten : checkEnums current previous = checkEnums current' previous' := by
  apply flatMap_eq_of_forall₂ hprevious
  intro f f' hf
  apply flatMap_eq_of_forall₂ hf.allEnums
  intro e e' he
  simp only [he.fullName, hf.name]
  match current.enum? e.fullName, current'.enum? e.fullName, hcurrent.enum?_rel e.fullName with
  | none, none, .none => rfl
  | some _, some _, .some hd => exact enumDiffs_rewritten f.name hd he

theorem checkLanguage_rewritten :
    checkLanguage current previous = checkLanguage current' previous' := by
  apply flatMap_eq_of_forall₂ hprevious
  intro f f' hf
  apply flatMap_eq_of_forall₂ hf.allMessages
  intro m m' hm
  simp only [hm.head.fullName, hf.name, hf.language]
  match current.fileOf? m.fullName, current'.fileOf? m.fullName,
      hcurrent.fileOf?_rel m.fullName with
  | none, none, .none => rfl
  | some _, some _, .some hg => simp only [hg.language]

theorem compareDiffs_rewritten :
    compareDiffs current previous = compareDiffs current' previous' := by
  rw [compareDiffs, checkMessages_rewritten hcurrent hprevious,
    checkEnums_rewritten hcurrent hprevious, checkLanguage_rewritten hcurrent hprevious]
  rfl

end Comparison

/-- Reserved numbers are compared as sets. In whatever way the ranges of a message or an enum are
written, they are kept as the maximal runs of the numbers that they name, which 64 bits are enough for;
each run that is no longer reserved as a whole is reported once; and other ranges for the same numbers,
on either side, change nothing in a comparison. -/
theorem reserved_numbers_as_sets :
    (∀ m : Message, (Reserved.ofMessage m).Describes m.ReservesNumber ∧
      ((∀ r ∈ m.reservedRanges, r.Fits32) →
        m.intervals64? = some (Reserved.ofMessage m).intervals) ∧
      ∀ i : Interval, i.first ≤ i.last →
        ((Reserved.ofMessage m).coversInterval i ↔ ∀ n, i.Holds n → m.ReservesNumber n)) ∧
    (∀ e : EnumType, (Reserved.ofEnum e).Describes e.ReservesNumber ∧
      ((∀ r ∈ e.reservedRanges, r.Fits32) →
        e.intervals64? = some (Reserved.ofEnum e).intervals) ∧
      ∀ i : Interval, i.first ≤ i.last →
        ((Reserved.ofEnum e).coversInterval i ↔ ∀ n, i.Holds n → e.ReservesNumber n)) ∧
    (∀ (location owner : String) (current previous : Message),
      ∃ runs, LostRuns current.ReservesNumber previous.ReservesNumber runs ∧
        (reservedDiffs location owner (.ofMessage current) (.ofMessage previous)).filter
            (·.kind = .reservedRangeNotInclusive) = runs.map (lostDiff location owner)) ∧
    (∀ (location owner : String) (current previous : EnumType),
      ∃ runs, LostRuns current.ReservesNumber previous.ReservesNumber runs ∧
        (reservedDiffs location owner (.ofEnum current) (.ofEnum previous)).filter
            (·.kind = .reservedRangeNotInclusive) = runs.map (lostDiff location owner)) ∧
    ∀ (R : RuleSet) (current current' previous previous' : Registry),
      current.Rewritten current' → previous.Rewritten previous' →
      compare R current previous = compare R current' previous' := by
  refine ⟨fun m => ?_, fun e => ?_, fun location owner current previous => ?_,
    fun location owner current previous => ?_, fun R current current' previous previous' => ?_⟩
  · have h := Reserved.describes_ofMessage m
    exact ⟨h, Message.intervals64?_eq, fun _ => h.coversInterval_iff⟩
  · have h := Reserved.describes_ofEnum e
    exact ⟨h, EnumType.intervals64?_eq, fun _ => h.coversInterval_iff⟩
  · exact exists_lostRuns (Reserved.describes_ofMessage current)
      (Reserved.describes_ofMessage previous) location owner
  · exact exists_lostRuns (Reserved.describes_ofEnum current)
      (Reserved.describes_ofEnum previous) location owner
  · intro hcurrent hprevious
    rw [compare, compare, compareDiffs_rewritten hcurrent hprevious]

def slots (ranges : List DeclaredRange) : Message := ⟨"Slots", "a.Slots", [], [], [], ranges, [], []⟩

def slotsRegistry (ranges : List DeclaredRange) : Registry :=
  ⟨[⟨"a.proto", "proto3", [slots ranges], []⟩], []⟩

theorem slotsRegistry_rewritten {ranges ranges' : List DeclaredRange}
    (h : ∀ n, (slots ranges').ReservesNumber n ↔ (slots ranges).ReservesNumber n) :
    (slotsRegistry ranges).Rewritten (slotsRegistry ranges') :=
  .cons ⟨rfl, rfl, .cons (.intro ⟨rfl, rfl, rfl, h⟩ .nil .nil) .nil, .nil⟩ .nil

def scattered : List DeclaredRange := [⟨9, 5⟩, ⟨4, 9⟩, ⟨1, 3⟩, ⟨3, 6⟩, ⟨4, 4⟩, ⟨1, 3⟩]

theorem scattered_reservesNumber_iff (n : Int) :
    (slots scattered).ReservesNumber n ↔ (slots [⟨1, 9⟩]).ReservesNumber n := by
  simp only [Message.ReservesNumber, slots, scattered, List.mem_cons, List.not_mem_nil, or_false,
    exists_eq_or_imp, exists_eq_left]
  omega

theorem reserved_numbers_as_sets_slots : (∀ r ∈ (slots scattered).reservedRanges, r.Fits32) ∧
    (slots scattered).intervals64? = some [⟨1, 8⟩] ∧
    (Reserved.ofMessage (slots scattered)).coversInterval ⟨2, 7⟩ ∧
    compare .backward (slotsRegistry [⟨1, 4⟩]) (slotsRegistry [⟨1, 9⟩]) =
      compare .backward (slotsRegistry [⟨1, 4⟩]) (slotsRegistry scattered) := by
  obtain ⟨hmessage, -, -, -, hcompare⟩ := reserved_numbers_as_sets
  obtain ⟨hdescribes, hbits, hcovers⟩ := hmessage (slots scattered)
  have hfits : ∀ r ∈ (slots scattered).reservedRanges, r.Fits32 := by decide
  have hintervals : (Reserved.ofMessage (slots scattered)).intervals = [⟨1, 8⟩] := by
    rw [hdescribes.intervals_eq (hmessage (slots [⟨1, 9⟩])).1 scattered_reservesNumber_iff]
    simp [Reserved.ofMessage, Reserved.of, slots, Interval.normalize, Interval.isNonempty,
      Interval.merge]
  refine ⟨hfits, (hbits hfits).trans (congrArg some hintervals),
    (hcovers ⟨2, 7⟩ (by decide)).2 ?_, ?_⟩
  · intro n hn
    rw [scattered_reservesNumber_iff]
    simp only [Interval.Holds] at hn
    exact ⟨⟨1, 9⟩, .head _, Int.le_trans (by decide) hn.1, Int.lt_of_le_of_lt hn.2 (by decide)⟩
  · exact hcompare .backward _ _ _ _ (slotsRegistry_rewritten fun _ => Iff.rfl)
      (slotsRegistry_rewritten scattered_reservesNumber_iff)

end SchemaEvolution.Protobuf
