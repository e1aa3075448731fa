import Mathlib.Data.List.Nodup
import SchemaEvolution.Proofs.Protobuf.Retained
import SchemaEvolution.Protobuf.Build

/-!
No change is found twice. The text of a change quotes the full name it is about before anything else,
and full names are unique, so changes at different names differ unless a name has a quotation mark
itself.
-/

namespace SchemaEvolution

namespace Text

theorem append_cons_inj {sep : Char} {front front' rest rest' : List Char} (h : sep ∉ front)
    (h' : sep ∉ front') (heq : front ++ sep :: rest = front' ++ sep :: rest') :
    front = front' ∧ rest = rest' := by
  induction front generalizing front' with
  | nil =>
    cases front' with
    | nil => exact ⟨rfl, (List.cons.inj heq).2⟩
    | cons c cs => exact absurd (.head cs) ((List.cons.inj heq).1 ▸ h')
  | cons c cs ih =>
    cases front' with
    | nil => exact absurd (.head cs) ((List.cons.inj heq).1 ▸ h)
    | cons c' cs' =>
      obtain ⟨rfl, htail⟩ := List.cons.inj heq
      obtain ⟨rfl, hrest⟩ := ih (fun hc => h (.tail c hc)) (fun hc => h' (.tail c hc)) htail
      exact ⟨rfl, hrest⟩

theorem append_cons_inj_right {sep : Char} {front front' rest rest' : List Char} (h : sep ∉ rest)
    (h' : sep ∉ rest') (heq : front ++ sep :: rest = front' ++ sep :: rest') : front = front' := by
  have hreverse := congrArg List.reverse heq
  simp only [List.reverse_append, List.reverse_cons, List.append_assoc, List.singleton_append]
    at hreverse
  exact List.reverse_injective (append_cons_inj (by simpa using h) (by simpa using h') hreverse).2

def Plain (text : String) : Prop := '\x27' ∉ text.toList

instance (text : String) : Decidable (Plain text) := inferInstanceAs (Decidable (_ ∉ _))

/-- The first thing that the text quotes, if it is plain. -/
def Quotes (text name : String) : Prop :=
  ∃ start rest : List Char, '\x27' ∉ start ∧
    text.toList = start ++ '\x27' :: (name.toList ++ '\x27' :: rest)

theorem quotes_of (opening closing : String) {name : String}
    (ho : opening.toList.getLast? = some '\x27' ∧ '\x27' ∉ opening.toList.dropLast)
    (hc : closing.toList.head? = some '\x27') : Quotes (opening ++ name ++ closing) name := by
  obtain ⟨start, hstart⟩ := List.getLast?_eq_some_iff.1 ho.1
  obtain ⟨rest, hrest⟩ := List.head?_eq_some_iff.1 hc
  rw [hstart, List.dropLast_concat] at ho
  exact ⟨start, rest, ho.2, by simp [hstart, hrest]⟩

theorem Quotes.append {text name : String} (h : Quotes text name) (more : String) :
    Quotes (text ++ more) name := by
  obtain ⟨start, rest, hstart, htext⟩ := h
  exact ⟨start, rest ++ more.toList, hstart, by simp [htext]⟩

theorem Quotes.unique {text name name' : String} (h : Quotes text name) (h' : Quotes text name')
    (hname : Plain name) (hname' : Plain name') : name = name' := by
  obtain ⟨start, rest, hstart, htext⟩ := h
  obtain ⟨start', rest', hstart', htext'⟩ := h'
  obtain ⟨-, hquoted⟩ := append_cons_inj hstart hstart' (htext.symm.trans htext')
  exact String.toList_injective (append_cons_inj hname hname' hquoted).1

def BeforeLast (text front : String) : Prop :=
  ∃ rest : List Char, '\x27' ∉ rest ∧ text.toList = front.toList ++ '\x27' :: rest

theorem beforeLast_of (front closing : String)
    (h : closing.toList.head? = some '\x27' ∧ '\x27' ∉ closing.toList.tail) :
    BeforeLast (front ++ closing) front := by
  obtain ⟨rest, hrest⟩ := List.head?_eq_some_iff.1 h.1
  rw [hrest, List.tail_cons] at h
  exact ⟨rest, h.2, by simp [hrest]⟩

theorem BeforeLast.append {text front more : String} (h : BeforeLast text front)
    (hmore : Plain more) : BeforeLast (text ++ more) front := by
  obtain ⟨rest, hrest, htext⟩ := h
  refine ⟨rest ++ more.toList, fun hmem => (List.mem_append.1 hmem).elim hrest hmore, ?_⟩
  simp [htext]

theorem BeforeLast.unique {text front front' : String} (h : BeforeLast text front)
    (h' : BeforeLast text front') : front = front' := by
  obtain ⟨rest, hrest, htext⟩ := h
  obtain ⟨rest', hrest', htext'⟩ := h'
  exact String.toList_injective (append_cons_inj_right hrest hrest' (htext.symm.trans htext'))

theorem toList_toString (n : Int) :
    (toString n).toList =
      if 0 ≤ n then Nat.toDigits 10 n.toNat else '-' :: Nat.toDigits 10 (-n).toNat := by
  rw [Int.toString_eq_repr, Int.repr_eq_if]
  split
  · exact Nat.toList_repr
  · rw [String.toList_append, Nat.toList_repr]
    rfl

theorem notMem_toDigits {c : Char} (hc : ¬ c.isDigit) (n : Nat) : c ∉ Nat.toDigits 10 n := by
  intro h
  exact hc (Nat.isDigit_of_mem_toDigits (by decide) (by decide) h)

theorem notMem_toString {c : Char} (hminus : c ≠ '-') (hc : ¬ c.isDigit) (n : Int) :
    c ∉ (toString n).toList := by
  rw [toList_toString]
  split
  · exact notMem_toDigits hc _
  · exact List.not_mem_cons_of_ne_of_not_mem hminus (notMem_toDigits hc _)

theorem plain_toString (n : Int) : Plain (toString n) := notMem_toString (by decide) (by decide) n

theorem toDigits_injective {m n : Nat} (h : Nat.toDigits 10 m = Nat.toDigits 10 n) : m = n := by
  rw [← @Nat.ofDigitChars_ten_toDigits m, ← @Nat.ofDigitChars_ten_toDigits n, h]

theorem toString_injective {m n : Int} (h : (toString m).toList = (toString n).toList) : m = n := by
  have hminus : ∀ k l : Nat, Nat.toDigits 10 k ≠ '-' :: Nat.toDigits 10 l := by
    intro k l heq
    exact notMem_toDigits (by decide : ¬ '-'.isDigit) k (heq ▸ .head _)
  rw [toList_toString, toList_toString] at h
  split at h
  · split at h
    · have := toDigits_injective h
      omega
    · exact absurd h (hminus _ _)
  · split at h
    · exact absurd h.symm (hminus _ _)
    · have := toDigits_injective (List.cons.inj h).2
      omega

end Text

namespace Protobuf

open Text

theorem nodup_flatMap_of_quotes {α : Type*} {xs : List α} (names : α → List String)
    {found : α → List Diff} (hnames : (xs.flatMap names).Nodup)
    (hplain : ∀ x ∈ xs, ∀ n ∈ names x, Plain n) (hfound : ∀ x ∈ xs, (found x).Nodup)
    (hquotes : ∀ x ∈ xs, ∀ d ∈ found x, ∃ n ∈ names x, Quotes d.message n) :
    (xs.flatMap found).Nodup := by
  refine List.nodup_flatMap.2 ⟨hfound, (List.nodup_flatMap.1 hnames).2.imp_of_mem ?_⟩
  intro x y hx hy hdisjoint d hdx hdy
  obtain ⟨n, hn, hnd⟩ := hquotes x hx d hdx
  obtain ⟨k, hk, hkd⟩ := hquotes y hy d hdy
  exact hdisjoint hn (hnd.unique hkd (hplain x hx n hn) (hplain y hy k hk) ▸ hk)

theorem Interval.first_eq_of_text_eq {i j : Interval} (h : i.text = j.text) :
    i.first = j.first := by
  have htext : ∀ i : Interval, i.text.toList.takeWhile (· != ' ') = (toString i.first).toList := by
    intro i
    have hblank : ∀ c ∈ (toString i.first).toList, c != ' ' := by
      intro c hc
      rw [bne_iff_ne]
      rintro rfl
      exact notMem_toString (by decide) (by decide) i.first hc
    unfold text
    split
    · rw [← List.append_nil (toString i.first).toList, List.takeWhile_append_of_pos hblank]
      simp
    · have hto : (toString " to ").toList = ' ' :: ['t', 'o', ' '] := rfl
      rw [String.toList_append, String.toList_append, hto, List.append_assoc]
      change List.takeWhile _ ((toString i.first).toList ++ _) = _
      rw [List.takeWhile_append_of_pos hblank]
      simp
  have hfirst : (toString i.first).toList = (toString j.first).toList := by
    rw [← htext i, ← htext j, h]
  exact toString_injective hfirst

theorem Interval.Normal.nodup_map_text {is : List Interval} (h : Normal is) :
    (is.map text).Nodup := by
  refine List.pairwise_map.2 (h.gaps.imp_of_mem ?_)
  intro i j hi _ hij htext
  have hfirst := first_eq_of_text_eq htext
  have hne := h.nonempty i hi
  simp only [Before] at hij
  omega

structure Reserved.Normal (r : Reserved) : Prop where
  intervals : Interval.Normal r.intervals
  names : r.names.Nodup

theorem Reserved.normal_of (is : List Interval) (names : List String) : (of is names).Normal where
  intervals := (Interval.normal_and_covered_normalize is).1
  names := (Names.sorted_ofList names).imp String.ne_of_lt

theorem nodup_reservedDiffs (location owner : String) (current : Reserved) {previous : Reserved}
    (h : previous.Normal) : (reservedDiffs location owner current previous).Nodup := by
  refine List.nodup_append.2 ⟨?_, ?_, ?_⟩
  case refine_1 =>
    refine List.pairwise_map.2 (List.Pairwise.filter _ ?_)
    refine (List.pairwise_map.1 h.intervals.nodup_map_text).imp fun {i j} hij hdiff => hij ?_
    exact (String.append_right_inj _).1 (congrArg Diff.message hdiff)
  case refine_2 =>
    refine List.Nodup.map (?_) (h.names.filter _)
    intro m n hmn
    exact (String.append_right_inj _).1 ((String.append_left_inj _).1 (congrArg Diff.message hmn))
  case refine_3 =>
    rintro d hd _ hd' rfl
    obtain ⟨i, -, rfl⟩ := List.mem_map.1 hd
    obtain ⟨n, -, hn⟩ := List.mem_map.1 hd'
    cases hn

theorem quotes_of_mem_reservedDiffs {location opening name : String} {current previous : Reserved}
    {d : Diff} (ho : opening.toList.getLast? = some '\x27' ∧ '\x27' ∉ opening.toList.dropLast)
    (h : d ∈ reservedDiffs location (opening ++ name ++ "'") current previous) :
    Quotes d.message name := by
  have hq : Quotes (opening ++ name ++ "'") name := quotes_of _ _ ho rfl
  simp only [reservedDiffs, List.mem_append, List.mem_map] at h
  rcases h with ⟨i, _, rfl⟩ | ⟨n, _, rfl⟩
  · exact (hq.append _).append _
  · exact ((hq.append _).append _).append _

section Messages

variable {current previous : Message} {location : String}

theorem nodup_fieldDiffs (location : String) (current previous : Field) :
    (fieldDiffs location current previous).Nodup :=
  .of_map (·.kind) ((by decide : fieldKinds.Nodup).sublist (kinds_fieldDiffs_sublist _ _ _))

theorem nodup_deletedFieldDiffs (location : String) (reserved : Reserved) (f : Field) :
    (deletedFieldDiffs location reserved f).Nodup :=
  .of_map (·.kind)
    ((by decide : deletedFieldKinds.Nodup).sublist (kinds_deletedFieldDiffs_sublist _ _ _))

theorem quotes_of_mem_fieldDiffs {current previous : Field} {d : Diff}
    (h : d ∈ fieldDiffs location current previous) : Quotes d.message previous.fullName := by
  have hq : ∀ closing : String, closing.toList.head? = some '\x27' →
      Quotes ("field '" ++ previous.fullName ++ closing) previous.fullName := by
    intro closing
    exact quotes_of _ closing (by decide)
  simp only [fieldDiffs, List.mem_append] at h
  obtain (h | h) | h := h
  · unfold jsonNameDiffs at h
    split at h
    · cases h
    · cases List.mem_singleton.1 h
      exact ((((hq _ rfl).append _).append _).append _).append _
  · unfold labelDiffs at h
    split at h
    · cases h
    · cases List.mem_singleton.1 h
      exact (((hq _ rfl).append _).append _).append _
  · unfold kindDiffs at h
    split at h
    · cases List.mem_singleton.1 h
      exact (((hq _ rfl).append _).append _).append _
    · split at h
      · split at h
        · cases h
        · cases List.mem_singleton.1 h
          exact ((((hq _ rfl).append _).append _).append _).append _
      · cases h

theorem quotes_of_mem_deletedFieldDiffs {reserved : Reserved} {f : Field} {d : Diff}
    (h : d ∈ deletedFieldDiffs location reserved f) : Quotes d.message f.fullName := by
  have hq : ∀ closing : String, closing.toList.head? = some '\x27' →
      Quotes ("field '" ++ f.fullName ++ closing) f.fullName := by
    intro closing
    exact quotes_of _ closing (by decide)
  simp only [deletedFieldDiffs, List.mem_cons, List.mem_append] at h
  obtain rfl | h | h := h
  · exact ((hq _ rfl).append _).append _
  · split at h
    · cases h
    · cases List.mem_singleton.1 h
      exact (hq _ rfl).append _
  · split at h
    · cases h
    · cases List.mem_singleton.1 h
      exact ((hq _ rfl).append _).append _

theorem quotes_of_mem_found {reserved : Reserved} {f : Field} {d : Diff}
    (h : d ∈ match current.field? f.number with
      | some new => fieldDiffs location new f
      | none => deletedFieldDiffs location reserved f) : Quotes d.message f.fullName := by
  split at h
  · exact quotes_of_mem_fieldDiffs h
  · exact quotes_of_mem_deletedFieldDiffs h

theorem quotes_of_mem_messageDiffs {d : Diff} (h : d ∈ messageDiffs location current previous) :
    ∃ n ∈ previous.names, Quotes d.message n := by
  simp only [messageDiffs, List.mem_append, List.mem_flatMap] at h
  obtain h | ⟨f, hf, h⟩ := h
  · exact ⟨_, .head _, quotes_of_mem_reservedDiffs (by decide) h⟩
  · exact ⟨_, .tail _ (List.mem_map_of_mem hf), quotes_of_mem_found h⟩

theorem nodup_messageDiffs (hnames : previous.names.Nodup)
    (hplain : ∀ n ∈ previous.names, Plain n) : (messageDiffs location current previous).Nodup := by
  obtain ⟨hfull, hfields⟩ := List.nodup_cons.1 hnames
  have hplainField : ∀ f ∈ previous.fields, Plain f.fullName := by
    intro f hf
    exact hplain _ (.tail _ (List.mem_map_of_mem hf))
  refine List.nodup_append'.2 ⟨nodup_reservedDiffs _ _ _ (Reserved.normal_of _ _), ?_, ?_⟩
  case refine_1 =>
    refine nodup_flatMap_of_quotes (fun f => [f.fullName]) ?_ ?_ (?_) ?_
    · rwa [← List.map_eq_flatMap]
    · simpa using hplainField
    · intro f _
      split
      · exact nodup_fieldDiffs _ _ _
      · exact nodup_deletedFieldDiffs _ _ _
    · intro f _ d hd
      exact ⟨_, .head _, quotes_of_mem_found hd⟩
  case refine_2 =>
    intro d hd hd'
    obtain ⟨f, hf, hdf⟩ := List.mem_flatMap.1 hd'
    refine hfull (List.mem_map.2 ⟨f, hf, ?_⟩)
    exact (quotes_of_mem_found hdf).unique (quotes_of_mem_reservedDiffs (by decide) hd)
      (hplainField f hf) (hplain _ (.head _))

end Messages

section Enums

variable {current previous : EnumType} {location : String}

theorem quotes_of_mem_valueDiffs {enum : String} {reserved : Reserved} {value : String} {n : Int}
    {d : Diff} (h : d ∈ valueDiffs location enum current reserved value n) :
    Quotes d.message enum ∧ BeforeLast d.message ("enum '" ++ enum ++ "' value '" ++ value) := by
  have hq : Quotes ("enum '" ++ enum ++ "' value '" ++ value) enum :=
    (quotes_of "enum '" "' value '" (by decide) rfl).append value
  have hb : ∀ closing : String, closing.toList.head? = some '\x27' ∧
      '\x27' ∉ closing.toList.tail → BeforeLast ("enum '" ++ enum ++ "' value '" ++ value ++ closing)
        ("enum '" ++ enum ++ "' value '" ++ value) := beforeLast_of _
  unfold valueDiffs at h
  split at h
  · simp only [deletedValueDiffs, List.mem_cons, List.mem_append] at h
    obtain rfl | h | h := h
    · exact ⟨((hq.append _).append _).append _,
        ((hb "' (" (by decide)).append (plain_toString n)).append (by decide : Plain ") was deleted")⟩
    · split at h
      · cases h
      · cases List.mem_singleton.1 h
        exact ⟨(hq.append _).append _,
          (hb "' was deleted without reserving number " (by decide)).append (plain_toString n)⟩
    · split at h
      · cases h
      · cases List.mem_singleton.1 h
        exact ⟨hq.append _, hb "' was deleted without reserving its name" (by decide)⟩
  · split at h
    · cases h
    · cases List.mem_singleton.1 h
      exact ⟨(((hq.append _).append _).append _).append _,
        (((hb "' changed number from " (by decide)).append (plain_toString _)).append
          (by decide : Plain " to ")).append (plain_toString _)⟩

theorem nodup_valueDiffs (location enum : String) (current : EnumType) (reserved : Reserved)
    (value : String) (n : Int) : (valueDiffs location enum current reserved value n).Nodup :=
  .of_map (·.kind) ((by decide : valueKinds.Nodup).sublist (kinds_valueDiffs_sublist _ _ _ _ _ _))

theorem quotes_of_mem_enumDiffs {d : Diff} (h : d ∈ enumDiffs location current previous) :
    Quotes d.message previous.fullName := by
  simp only [enumDiffs, List.mem_append, List.mem_flatMap] at h
  obtain h | ⟨v, _, h⟩ := h
  · exact quotes_of_mem_reservedDiffs (by decide) h
  · exact (quotes_of_mem_valueDiffs h).1

theorem nodup_enumDiffs (location : String) (current : EnumType)
    (hvalues : (previous.values.map (·.1)).Nodup) :
    (enumDiffs location current previous).Nodup := by
  refine List.nodup_append'.2 ⟨nodup_reservedDiffs _ _ _ (Reserved.normal_of _ _), ?_, ?_⟩
  case refine_1 =>
    refine List.nodup_flatMap.2 ⟨fun v _ => nodup_valueDiffs _ _ _ _ _ _, ?_⟩
    refine (List.pairwise_map.1 hvalues).imp fun {v w} hvw d hdv hdw => hvw ?_
    have hfront := (quotes_of_mem_valueDiffs hdv).2.unique (quotes_of_mem_valueDiffs hdw).2
    exact (String.append_right_inj _).1 hfront
  case refine_2 =>
    intro d hd hd'
    obtain ⟨v, -, hdv⟩ := List.mem_flatMap.1 hd'
    have hkinds : ∀ k ∈ reservedKinds, k ∉ valueKinds := by decide
    exact hkinds _ (kind_mem_of_mem_reservedDiffs hd)
      ((kinds_valueDiffs_sublist _ _ _ _ _ _).subset (List.mem_map_of_mem hdv))

end Enums

section Checks

variable {β : Type*} {files : List File} {items : File → List β} {found : File → β → List Diff}

theorem nodup_check (names : β → List String)
    (hnames : (files.flatMap fun f => (items f).flatMap names).Nodup)
    (hplain : ∀ n ∈ files.flatMap fun f => (items f).flatMap names, Plain n)
    (hfound : ∀ f ∈ files, ∀ x ∈ items f, (found f x).Nodup)
    (hquotes : ∀ f ∈ files, ∀ x ∈ items f, ∀ d ∈ found f x, ∃ n ∈ names x, Quotes d.message n) :
    (files.flatMap fun f => (items f).flatMap (found f)).Nodup := by
  have hplain' : ∀ f ∈ files, ∀ n ∈ (items f).flatMap names, Plain n := by
    intro f hf n hn
    exact hplain n (List.mem_flatMap.2 ⟨f, hf, hn⟩)
  refine nodup_flatMap_of_quotes (fun f => (items f).flatMap names) hnames hplain' ?_ ?_
  · intro f hf
    exact nodup_flatMap_of_quotes names ((List.nodup_flatMap.1 hnames).1 f hf)
      (fun x hx n hn => hplain' f hf n (List.mem_flatMap.2 ⟨x, hx, hn⟩)) (hfound f hf) (hquotes f hf)
  · intro f hf d hd
    obtain ⟨x, hx, hd⟩ := List.mem_flatMap.1 hd
    obtain ⟨n, hn, hnd⟩ := hquotes f hf x hx d hd
    exact ⟨n, List.mem_flatMap.2 ⟨x, hx, hn⟩, hnd⟩

theorem exists_quotes_of_mem_check (names : β → List String)
    (hquotes : ∀ f ∈ files, ∀ x ∈ items f, ∀ d ∈ found f x, ∃ n ∈ names x, Quotes d.message n)
    {d : Diff} (h : d ∈ files.flatMap fun f => (items f).flatMap (found f)) :
    ∃ n ∈ files.flatMap fun f => (items f).flatMap names, Quotes d.message n := by
  simp only [List.mem_flatMap] at h
  obtain ⟨f, hf, x, hx, hd⟩ := h
  obtain ⟨n, hn, hnd⟩ := hquotes f hf x hx d hd
  exact ⟨n, List.mem_flatMap.2 ⟨f, hf, List.mem_flatMap.2 ⟨x, hx, hn⟩⟩, hnd⟩

end Checks

section Registries

variable {current previous : Registry}

theorem nodup_and_quotes_message (current : Registry) (location : String) {m : Message}
    (hnames : m.names.Nodup) (hplain : ∀ n ∈ m.names, Plain n) {found : List Diff}
    (h : found = match current.message? m.fullName with
      | some new => messageDiffs location new m
      | none => [⟨.messageDeleted, location, s!"message '{m.fullName}' was deleted"⟩]) :
    found.Nodup ∧ ∀ d ∈ found, ∃ n ∈ m.names, Quotes d.message n := by
  split at h
  · subst h
    refine ⟨nodup_messageDiffs hnames hplain, ?_⟩
    intro d
    exact quotes_of_mem_messageDiffs
  · subst h
    refine ⟨List.nodup_singleton _, fun d hd => ⟨_, .head _, ?_⟩⟩
    cases List.mem_singleton.1 hd
    exact quotes_of _ _ (by decide) rfl

theorem nodup_and_quotes_enum (current : Registry) (location : String) {e : EnumType}
    (hvalues : (e.values.map (·.1)).Nodup) {found : List Diff}
    (h : found = match current.enum? e.fullName with
      | some new => enumDiffs location new e
      | none => [⟨.enumDeleted, location, s!"enum '{e.fullName}' was deleted"⟩]) :
    found.Nodup ∧ ∀ d ∈ found, ∃ n ∈ [e.fullName], Quotes d.message n := by
  split at h
  · subst h
    refine ⟨nodup_enumDiffs _ _ hvalues, ?_⟩
    intro d hd
    exact ⟨_, .head _, quotes_of_mem_enumDiffs hd⟩
  · subst h
    refine ⟨List.nodup_singleton _, fun d hd => ⟨_, .head _, ?_⟩⟩
    cases List.mem_singleton.1 hd
    exact quotes_of _ _ (by decide) rfl

theorem nodup_and_quotes_language (current : Registry) (f : File) (m : Message) {found : List Diff}
    (h : found = match current.fileOf? m.fullName with
      | none => []
      | some g =>
        if g.language = f.language then []
        else [⟨.syntaxChanged, f.name,
          s!"syntax of message '{m.fullName}' changed from {f.language} to {g.language}"⟩]) :
    found.Nodup ∧ ∀ d ∈ found, ∃ n ∈ m.names, Quotes d.message n := by
  have hq : Quotes ("syntax of message '" ++ m.fullName ++ "' changed from ") m.fullName :=
    quotes_of _ _ (by decide) rfl
  split at h
  · simp [h]
  · split at h
    · simp [h]
    · subst h
      refine ⟨List.nodup_singleton _, fun d hd => ⟨_, .head _, ?_⟩⟩
      cases List.mem_singleton.1 hd
      exact ((hq.append _).append _).append _

theorem Registry.Distinct.nodup_names_append (hd : previous.Distinct) :
    ((previous.files.flatMap fun f => f.allMessages.flatMap Message.names) ++
      previous.files.flatMap fun f => f.allEnums.flatMap fun e => [e.fullName]).Nodup ∧
    ∀ n, n ∈ (previous.files.flatMap fun f => f.allMessages.flatMap Message.names) ++
      (previous.files.flatMap fun f => f.allEnums.flatMap fun e => [e.fullName]) →
        n ∈ previous.files.flatMap File.declaredNames := by
  have hperm := by
    apply List.flatMap_append_perm previous.files
      (fun f => f.allMessages.flatMap Message.names)
    intro f
    apply f.allEnums.flatMap
    intro e
    exact [e.fullName]
  have hnames : (previous.files.flatMap fun f => f.allMessages.flatMap Message.names ++
      f.allEnums.flatMap fun e => [e.fullName]) = previous.files.flatMap File.declaredNames := by
    simp only [← List.map_eq_flatMap]
    rfl
  rw [hnames] at hperm
  refine ⟨hperm.nodup_iff.2 hd.names, ?_⟩
  intro n
  exact hperm.mem_iff.1

theorem nodup_compareDiffs (hd : previous.Distinct)
    (hplain : ∀ n ∈ previous.files.flatMap File.declaredNames, Plain n) :
    (compareDiffs current previous).Nodup := by
  obtain ⟨hnodup, hmem⟩ := hd.nodup_names_append
  obtain ⟨hmessages, henums, hdisjoint⟩ := List.nodup_append'.1 hnodup
  have hplainMessage : ∀ n ∈ previous.files.flatMap fun f => f.allMessages.flatMap Message.names,
      Plain n := by
    intro n hn
    exact hplain n (hmem n (List.mem_append_left _ hn))
  have hplainEnum : ∀ n ∈ previous.files.flatMap fun f => f.allEnums.flatMap fun e => [e.fullName],
      Plain n := by
    intro n hn
    exact hplain n (hmem n (List.mem_append_right _ hn))
  have hmessage := fun f (hf : f ∈ previous.files) m (hm : m ∈ f.allMessages) =>
    nodup_and_quotes_message current f.name
      ((List.nodup_flatMap.1 ((List.nodup_flatMap.1 hmessages).1 f hf)).1 m hm)
      (fun n hn => hplainMessage n
        (List.mem_flatMap.2 ⟨f, hf, List.mem_flatMap.2 ⟨m, hm, hn⟩⟩)) rfl
  have henum := fun f (hf : f ∈ previous.files) e (he : e ∈ f.allEnums) =>
    nodup_and_quotes_enum current f.name
      (hd.values e (Registry.mem_allEnums.2 ⟨f, hf, he⟩)) rfl
  have hlanguage := fun f (_ : f ∈ previous.files) m (_ : m ∈ f.allMessages) =>
    nodup_and_quotes_language current f m rfl
  rw [compareDiffs, List.append_assoc]
  refine List.nodup_append'.2 ⟨?_, List.nodup_append'.2 ⟨?_, ?_, ?_⟩, ?_⟩
  · apply nodup_check Message.names hmessages hplainMessage
      (fun f hf m hm => (hmessage f hf m hm).1)
    intro f hf m hm
    exact (hmessage f hf m hm).2
  · apply nodup_check (fun e => [e.fullName]) henums hplainEnum
      (fun f hf e he => (henum f hf e he).1)
    intro f hf e he
    exact (henum f hf e he).2
  · apply nodup_check Message.names hmessages hplainMessage
      (fun f hf m hm => (hlanguage f hf m hm).1)
    intro f hf m hm
    exact (hlanguage f hf m hm).2
  · intro d hde hdl
    exact absurd (kind_of_mem_checkLanguage hdl ▸ kind_mem_of_mem_checkEnums hde) (by decide)
  · intro d hdm hd'
    obtain hde | hdl := List.mem_append.1 hd'
    · obtain ⟨m, hm, hmd⟩ := exists_quotes_of_mem_check Message.names
        (fun f hf m hm => (hmessage f hf m hm).2) hdm
      obtain ⟨e, he, hed⟩ := exists_quotes_of_mem_check (fun e : EnumType => [e.fullName])
        (fun f hf e he => (henum f hf e he).2) hde
      exact hdisjoint hm (hmd.unique hed (hplainMessage m hm) (hplainEnum e he) ▸ he)
    · exact absurd (kind_of_mem_checkLanguage hdl ▸ kind_mem_of_mem_checkMessages hdm) (by decide)

/-- A current set is accepted exactly if it retains all that the previous one declares, and what is
found otherwise is reported once. -/
theorem backward_isEmpty_iff_retains {currentBytes previousBytes : List UInt8}
    (hc : Registry.parse currentBytes = .ok current)
    (hp : Registry.parse previousBytes = .ok previous) :
    ((compare .backward current previous).isEmpty ↔ current.Retains previous) ∧
      ((∀ n ∈ previous.files.flatMap File.declaredNames, Plain n) →
        ∀ R : RuleSet, (compare R current previous).diffs.Nodup) := by
  constructor
  · rw [compare_backward_isEmpty_iff]
    exact (Registry.distinct_of_parse hc).keeps_iff
  · intro hplain R
    exact (nodup_compareDiffs (Registry.distinct_of_parse hp) hplain).filter _

end Registries

def reservingSet (messages : List (String × List String)) : List UInt8 :=
  Build.descriptorSet [Build.file "a.proto" "a" Build.usualEdition []
    (messages.map fun m => Build.message m.1 [] [] [] [] m.2) []]

theorem backward_isEmpty_iff_retains_reserved : ∃ current previous : Registry,
    Registry.parse (reservingSet [("A", [])]) = .ok current ∧
      Registry.parse (reservingSet [("A", ["x"]), ("B", [])]) = .ok previous ∧
      (∀ n ∈ previous.files.flatMap File.declaredNames, Plain n) ∧ ¬ current.Retains previous ∧
      (compare .everything current previous).diffs.Nodup := by
  obtain ⟨current, previous, hc, hp, h⟩ := exists_ok_of_bind_toOption
    (x := Registry.parse (reservingSet [("A", [])]))
    (y := Registry.parse (reservingSet [("A", ["x"]), ("B", [])]))
    (g := fun c p => (p.files.flatMap File.declaredNames, (compare .backward c p).isEmpty))
    (c := (["a.A", "a.B"], false)) (by decide +kernel)
  obtain ⟨hnames, hempty⟩ := Prod.mk.inj h
  obtain ⟨hiff, hnodup⟩ := backward_isEmpty_iff_retains hc hp
  have hplain : ∀ n ∈ previous.files.flatMap File.declaredNames, Plain n := by
    rw [hnames]
    decide
  refine ⟨current, previous, hc, hp, hplain, ?_, hnodup hplain .everything⟩
  intro hr
  rw [← hiff, hempty] at hr
  cases hr

def quotingMessages : List (String × List String) :=
  [("A", ["x' no longer reserves name 'y"]), ("A' no longer reserves name 'x", ["y"])]

theorem reserved_name_reported_twice : ∃ current previous : Registry,
    Registry.parse (reservingSet (quotingMessages.map fun m => (m.1, []))) = .ok current ∧
      Registry.parse (reservingSet quotingMessages) = .ok previous ∧
      ¬ (compare .everything current previous).diffs.Nodup := by
  obtain ⟨current, previous, hc, hp, hdiffs⟩ := exists_ok_of_bind_toOption
    (x := Registry.parse (reservingSet (quotingMessages.map fun m => (m.1, []))))
    (y := Registry.parse (reservingSet quotingMessages))
    (g := fun c p => decide (compare .everything c p).diffs.Nodup) (c := false) (by decide +kernel)
  exact ⟨current, previous, hc, hp, of_decide_eq_false hdiffs⟩

end Protobuf

end SchemaEvolution
