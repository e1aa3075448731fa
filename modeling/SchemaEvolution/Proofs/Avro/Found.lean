import SchemaEvolution.Avro.Compare
import SchemaEvolution.Proofs.Avro.Listed
import SchemaEvolution.Proofs.Avro.ReadBack

/-!
The names that are listed for a document. They are names of declared types and fields, unless an
attribute tells of named types or an object recalls one. A name is missing where a fixed type is read
without its name, a declaration repeats a name, a type stands in a field itself, or the canonical
form is nested deeper than texts are read.
-/

namespace SchemaEvolution.Avro

theorem notMem_dot_of_isSimpleName {cs : List Char} (h : isSimpleName cs) : '.' ∉ cs := by
  cases cs with
  | nil => nofun
  | cons c cs =>
    simp only [isSimpleName, Bool.and_eq_true, List.all_eq_true] at h
    rw [List.mem_cons, not_or]
    refine ⟨fun heq => absurd (heq ▸ h.1) (by decide), fun hmem => absurd (h.2 _ hmem) (by decide)⟩

theorem append_dot_inj {as bs fs gs : List Char} (hf : '.' ∉ fs) (hg : '.' ∉ gs)
    (h : as ++ '.' :: fs = bs ++ '.' :: gs) : as = bs ∧ fs = gs := by
  obtain ⟨cs, hbs, hcs⟩ | ⟨cs, has, hcs⟩ := List.append_eq_append_iff.1 h
  · cases cs with
    | nil => exact ⟨by simpa using hbs.symm, (List.cons.inj hcs).2⟩
    | cons c cs =>
      have hmem : '.' ∈ fs := (List.cons.inj hcs).2 ▸ List.mem_append_right cs (.head _)
      exact absurd hmem hf
  · cases cs with
    | nil => exact ⟨by simpa using has, ((List.cons.inj hcs).2).symm⟩
    | cons c cs =>
      have hmem : '.' ∈ gs := (List.cons.inj hcs).2 ▸ List.mem_append_right cs (.head _)
      exact absurd hmem hg

theorem fullName_inj {a b f g : String} (hf : isSimpleName f.toList) (hg : isSimpleName g.toList)
    (h : a ++ "." ++ f = b ++ "." ++ g) : a = b ∧ f = g := by
  have hlist := congrArg String.toList h
  rw [String.toList_append, String.toList_append, String.toList_append, String.toList_append,
    List.append_assoc, List.append_assoc] at hlist
  obtain ⟨ha, hf⟩ :=
    append_dot_inj (notMem_dot_of_isSimpleName hf) (notMem_dot_of_isSimpleName hg) hlist
  exact ⟨String.toList_inj.1 ha, String.toList_inj.1 hf⟩

/-- Every name is declared among `es` too, and every field of it is declared there. -/
def Covers (es ds : List Declaration) : Prop :=
  ∀ d ∈ ds, (∃ e ∈ es, e.name = d.name) ∧ ∀ f ∈ d.fields, ∃ e ∈ es, e.name = d.name ∧ f ∈ e.fields

theorem Covers.refl (ds : List Declaration) : Covers ds ds := by
  intro d hd
  constructor
  · exact ⟨d, hd, rfl⟩
  · intro f hf
    exact ⟨d, hd, rfl, hf⟩

theorem lists_iff_covers {l : Listing} {es ds : List Declaration} (h : Lists l es) (hes : es ⊆ ds)
    (hds : ∀ d ∈ ds, ∀ f ∈ d.fields, isSimpleName f.toList) : Lists l ds ↔ Covers es ds := by
  constructor
  · intro hl d hd
    constructor
    · rw [← h.types, hl.types]
      exact ⟨d, hd, rfl⟩
    · intro f hf
      obtain ⟨e, he, g, hg, heq⟩ := (h.fields _).1 ((hl.fields _).2 ⟨d, hd, f, hf, rfl⟩)
      obtain ⟨hname, rfl⟩ := fullName_inj (hds e (hes he) g hg) (hds d hd f hf) heq
      exact ⟨e, he, hname, hg⟩
  · intro hcovers
    constructor
    · intro t
      rw [h.types]
      constructor
      · rintro ⟨e, he, ht⟩
        exact ⟨e, hes he, ht⟩
      · rintro ⟨d, hd, rfl⟩
        exact (hcovers d hd).1
    · intro x
      rw [h.fields]
      constructor
      · rintro ⟨e, he, hx⟩
        exact ⟨e, hes he, hx⟩
      · rintro ⟨d, hd, f, hf, rfl⟩
        obtain ⟨e, he, hname, hfe⟩ := (hcovers d hd).2 f hf
        rw [← hname]
        exact ⟨e, he, f, hfe, rfl⟩

theorem Covers.subset {es ds : List Declaration} (h : Covers es ds) (hes : es ⊆ ds)
    (hds : (ds.map Declaration.name).Nodup) : ds ⊆ es := by
  intro d hd
  obtain ⟨e, he, hname⟩ := (h d hd).1
  exact List.inj_on_of_nodup_map hds (hes he) hd hname ▸ he

def Schema.listed (s : Schema) : Listing := ⟨s.schemaFile.types, s.schemaFile.fields⟩

section

variable {v : Json} {s : Schema}

theorem exists_run_of_ofJson? (h : Schema.ofJson? v = some s) :
    ∃ w, (canonical s.toJson).run ⟨[]⟩ = some (s.canonicalForm, w) :=
  Schema.exists_run_canonicalForm (isSome_canonicalForm?_of_ofJson? h)

theorem parse?_canonicalForm (h : Schema.ofJson? v = some s) (hplain : s.canonicalForm.Plain) :
    Json.parse? s.canonicalForm.text =
      if s.canonicalForm.toJson.depth ≤ Json.maxDepth then some s.canonicalForm.toJson.sorted
      else none := by
  obtain ⟨w, hrun⟩ := exists_run_of_ofJson? h
  exact parse?_text_of_plain hplain (readsBack_canonical hrun)

theorem lists_of_lists_form {ds : List Declaration} (h : Schema.ofJson? v = some s)
    (hplain : s.canonicalForm.Plain) (hdepth : s.canonicalForm.toJson.depth ≤ Json.maxDepth)
    (hlists : Lists (s.canonicalForm.listing .type) ds) : Lists s.listed ds := by
  rw [Schema.listed, Schema.schemaFile, parse?_canonicalForm h hplain, if_pos hdepth]
  constructor
  · intro t
    exact Names.mem_ofList.trans (hlists.types t)
  · intro x
    exact Names.mem_ofList.trans (hlists.fields x)

theorem lists_listed (h : Schema.ofJson? v = some s) (hquiet : s.Quiet)
    (hplain : s.canonicalForm.Plain) (hdepth : s.canonicalForm.toJson.depth ≤ Json.maxDepth) :
    Lists s.listed (s.written s.canonicalForm) := by
  obtain ⟨w, hrun⟩ := exists_run_of_ofJson? h
  exact lists_of_lists_form h hplain hdepth (lists_canonical hquiet hrun)

theorem listed_of_deep (h : Schema.ofJson? v = some s) (hplain : s.canonicalForm.Plain)
    (hdepth : ¬ s.canonicalForm.toJson.depth ≤ Json.maxDepth) : s.listed = ∅ := by
  rw [Schema.listed, Schema.schemaFile, parse?_canonicalForm h hplain, if_neg hdepth]
  rfl

theorem keptFrom_declaredIn (h : Schema.ofJson? v = some s) (hv : recalls .type v = false) :
    KeptFrom s.parts (declaredIn v) :=
  keptFrom_of_reads (reads_of_ofJson? hv h)

theorem written_subset_declaredIn (h : Schema.ofJson? v = some s) (hv : recalls .type v = false) :
    s.written s.canonicalForm ⊆ declaredIn v :=
  ((written_sublist s _).trans (keptFrom_declaredIn h hv).sublist).subset

theorem lists_declaredIn_iff (h : Schema.ofJson? v = some s) (hv : recalls .type v = false)
    (hquiet : s.Quiet) (hplain : s.canonicalForm.Plain) : Lists s.listed (declaredIn v) ↔
      (declaredIn v = [] ∨ s.canonicalForm.toJson.depth ≤ Json.maxDepth) ∧
        Covers (s.written s.canonicalForm) (declaredIn v) := by
  have hkept := keptFrom_declaredIn h hv
  by_cases hdepth : s.canonicalForm.toJson.depth ≤ Json.maxDepth
  · have hlists := lists_listed h hquiet hplain hdepth
    rw [lists_iff_covers hlists (written_subset_declaredIn h hv) hkept.simple, and_iff_right]
    exact .inr hdepth
  · rw [listed_of_deep h hplain hdepth]
    constructor
    · intro hl
      have hnil : declaredIn v = [] := by
        rw [List.eq_nil_iff_forall_not_mem]
        intro d hd
        have hname : d.name ∈ (∅ : Listing).types := (hl.types d.name).2 ⟨d, hd, rfl⟩
        cases hname
      rw [hnil]
      exact ⟨.inl rfl, nofun⟩
    · rintro ⟨hnil | hdepth', -⟩
      · rw [hnil]
        exact .nil
      · exact absurd hdepth' hdepth

theorem lists_declaredIn_iff_of_nodup (h : Schema.ofJson? v = some s)
    (hv : recalls .type v = false) (hquiet : s.Quiet) (hplain : s.canonicalForm.Plain)
    (hnodup : ((declaredIn v).map Declaration.name).Nodup) :
    Lists s.listed (declaredIn v) ↔
      (declaredIn v = [] ∨ s.canonicalForm.toJson.depth ≤ Json.maxDepth) ∧
        s.declared = declaredIn v := by
  have hkept := keptFrom_declaredIn h hv
  have hwritten := (written_sublist s s.canonicalForm).subset
  rw [lists_declaredIn_iff h hv hquiet hplain]
  apply and_congr_right
  intro _
  constructor
  · intro hcovers
    have hes := hcovers.subset (written_subset_declaredIn h hv) hnodup
    have hsub := List.Subset.trans hes hwritten
    apply hkept.sublist.eq_of_length_le
    exact (List.subperm_of_subset (.of_map _ hnodup) hsub).length_le
  · intro hdeclared
    -- Every declaration is kept, so that none is left for a duration to stand for.
    have hcount : s.parts.countP Schema.isDuration = 0 := by
      have hle := hkept.count
      rw [← hdeclared, Schema.declared] at hle
      omega
    rw [← hdeclared] at hnodup
    have hfresh : Fresh ⟨[]⟩ s.parts := by
      refine ⟨hnodup, fun _ _ => List.not_mem_nil, ?_⟩
      intro x hx
      exact Bool.eq_false_iff.2 (List.countP_eq_zero.1 hcount x hx)
    obtain ⟨w, hrun⟩ := exists_run_of_ofJson? h
    rw [(written_eq_declared hfresh hquiet hrun).1, hdeclared]
    exact .refl _

theorem listed_declared (h : Schema.ofJson? v = some s) (hv : recalls .type v = false)
    (hquiet : s.Quiet) (hplain : s.canonicalForm.Plain) :
    (∀ t ∈ s.listed.types, ∃ d ∈ declaredIn v, d.name = t) ∧
      ∀ x ∈ s.listed.fields, ∃ d ∈ declaredIn v, ∃ f ∈ d.fields, d.name ++ "." ++ f = x := by
  have hsub := written_subset_declaredIn h hv
  by_cases hdepth : s.canonicalForm.toJson.depth ≤ Json.maxDepth
  · have hlists := lists_listed h hquiet hplain hdepth
    constructor
    · intro t ht
      obtain ⟨d, hd, hname⟩ := (hlists.types t).1 ht
      exact ⟨d, hsub hd, hname⟩
    · intro x hx
      obtain ⟨d, hd, hfield⟩ := (hlists.fields x).1 hx
      exact ⟨d, hsub hd, hfield⟩
  · rw [listed_of_deep h hplain hdepth]
    exact ⟨nofun, nofun⟩

end

def stateType : Json :=
  .object [("name", .string "audit.State"), ("symbols", .array [.string "OPEN"]),
    ("type", .string "enum")]

def skuType : Json :=
  .object [("logicalType", .string "decimal"), ("name", .string "Sku"),
    ("precision", .number (.integer 4)), ("size", .number (.integer 8)),
    ("type", .string "fixed")]

def lineType : Json :=
  .object [("fields", .array [.object [("name", .string "sku"), ("type", skuType)]]),
    ("name", .string "Line"), ("type", .string "record")]

def orderDocument : Json :=
  .object [("fields", .array [
      .object [("name", .string "lines"),
        ("type", .object [("items", lineType), ("type", .string "array")])],
      .object [("name", .string "state"), ("type", .array [.string "null", stateType])]]),
    ("name", .string "Order"), ("namespace", .string "shop"), ("type", .string "record")]

def lineSchema : Schema :=
  .record "shop.Line" [(⟨"sku", [], none, []⟩,
    .decimal 4 0 (.fixed "shop.Sku" 8 (typeAttributes "size" skuType)))] ∅

def orderSchema : Schema :=
  .record "shop.Order" [(⟨"lines", [], none, []⟩, .array lineSchema ∅),
    (⟨"state", [], none, []⟩, .union [.plain .null, .enum "audit.State" ["OPEN"] none ∅])] ∅

/-- A document that is read and for which not all of its declarations are listed. -/
def Misses (doc : Json) (declared listed : List Declaration) : Prop :=
  ∃ s, Schema.parse (Text.toUtf8 doc.text) = .ok s ∧
    Json.ofUtf8? (Text.toUtf8 doc.text) = some doc ∧ declaredIn doc = declared ∧
    Lists s.listed listed

def durationDocument : Json :=
  .object [("logicalType", .string "duration"), ("name", .string "duration"),
    ("size", .number (.integer 12)), ("type", .string "fixed")]

theorem misses_duration : Misses durationDocument [⟨"duration", []⟩] [] := by
  have hread : Schema.ofJson? durationDocument = some (.plain .duration) := by rfl
  have hlists := lists_listed hread (by decide +kernel) (by decide +kernel) (by decide +kernel)
  exact ⟨_, parse_text rfl rfl hread, ofUtf8?_text rfl rfl, rfl, hlists⟩

def inlineDocument : Json :=
  .object [("fields", .array [.object [
      ("items", .object [("name", .string "F"), ("size", .number (.integer 4)),
        ("type", .string "fixed")]), ("name", .string "a"), ("type", .string "array")]]),
    ("name", .string "R"), ("type", .string "record")]

def inlineSchema : Schema :=
  .record "R" [(⟨"a", [], none, [("items", .object [("name", .string "F"),
    ("size", .number (.integer 4)), ("type", .string "fixed")])]⟩, .array (.fixed "F" 4 ∅) ∅)] ∅

theorem misses_inline :
    Misses inlineDocument [⟨"R", ["a"]⟩, ⟨"F", []⟩] [⟨"R", ["a"]⟩] := by
  have hread : Schema.ofJson? inlineDocument = some inlineSchema := by rfl
  have hlisting : inlineSchema.canonicalForm.listing .type = ⟨["R"], ["R.a"]⟩ := by rfl
  have hlists : Lists inlineSchema.listed [⟨"R", ["a"]⟩] := by
    apply lists_of_lists_form hread (by decide +kernel) (by decide +kernel)
    rw [hlisting]
    constructor
    · simp [eq_comm]
    · simp [eq_comm]
  exact ⟨_, parse_text rfl rfl hread, ofUtf8?_text rfl rfl, by decide +kernel, hlists⟩

def nestedArrays : Nat → Json
  | 0 => .string "int"
  | n + 1 => .object [("items", nestedArrays n), ("type", .string "array")]

def arraysOfInts : Nat → Schema
  | 0 => .plain .int
  | n + 1 => .array (arraysOfInts n) ∅

def arrayField (n : Nat) : Json :=
  .object [("items", nestedArrays n), ("name", .string "a"), ("type", .string "array")]

def deepDocument (n : Nat) : Json :=
  .object [("fields", .array [arrayField n]), ("name", .string "R"), ("type", .string "record")]

def deepSchema (n : Nat) : Schema :=
  .record "R" [(⟨"a", [], none, [("items", nestedArrays n)]⟩, .array (arraysOfInts n) ∅)] ∅

theorem declareObject_array {fuel : Nat} {inField : Bool} {space : String} {v items : Json}
    {s : Schema} (htype : v.get? "type" = some (.string "array"))
    (hlogical : v.get? "logicalType" = none) (hitems : v.get? "items" = some items)
    (h : declare fuel space items = return s) :
    declareObject (fuel + 2) inField space v = return .array s (typeAttributes "items" v) := by
  rw [declareObject, htype, hlogical]
  change declareType (fuel + 1) inField space v (.string "array") = _
  rw [declareType, hitems]
  change (declare fuel space items >>= fun s =>
    (return Schema.array s (typeAttributes "items" v) : Declaring Schema)) = _
  rw [h]
  rfl

@[simp] theorem liftM_some_bind {α β : Type} (a : α) (f : α → Declaring β) :
    (liftM (some a) >>= f) = f a := rfl

theorem declare_nestedArrays (fuel : Nat) (space : String) (n : Nat) :
    declare (fuel + 3 * n + 1) space (nestedArrays n) = return arraysOfInts n := by
  induction n with
  | zero =>
    rw [nestedArrays, declare]
    rfl
  | succ n ih =>
    rw [show fuel + 3 * (n + 1) + 1 = fuel + 3 * n + 3 + 1 from by omega, nestedArrays, declare,
      declareObject_array rfl rfl rfl ih]
    rfl

theorem size_nestedArrays (n : Nat) : (nestedArrays n).size = 2 * n + 1 := by
  induction n with
  | zero => rfl
  | succ n ih =>
    rw [nestedArrays, Json.size, Json.sizeMembers, ih]
    rfl

theorem ofJson?_deepDocument {n : Nat} (h : (deepSchema n).canonicalForm?.isSome) :
    Schema.ofJson? (deepDocument n) = some (deepSchema n) := by
  obtain ⟨fuel, hfuel⟩ : ∃ fuel, 4 * (deepDocument n).size + 4 = (fuel + 3 * n + 1) + 7 := by
    refine ⟨5 * n + 28, ?_⟩
    rw [deepDocument, Json.size, Json.sizeMembers, Json.size, Json.sizeItems, arrayField, Json.size,
      Json.sizeMembers, size_nestedArrays]
    simp only [Json.size, Json.sizeMembers, Json.sizeItems]
    omega
  have hfields : declareFields (fuel + 3 * n + 4) "" ([arrayField n].filter Json.isObject) =
      return [(⟨"a", [], none, [("items", nestedArrays n)]⟩, .array (arraysOfInts n) ∅)] := by
    change declareFields (fuel + 3 * n + 1 + 3) "" [arrayField n] = _
    rw [declareFields, declareObject_array rfl rfl rfl (declare_nestedArrays fuel "" n),
      declareFields]
    rfl
  have hname : declaredName? "" (deepDocument n) = some ("", "R") := by rfl
  have haliases : declaredAliases? "" (deepDocument n) = some [] := rfl
  have hentries : (deepDocument n).array? "fields" = some [arrayField n] := rfl
  refine Option.filter_eq_some_iff.2 ⟨?_, h⟩
  rw [hfuel, deepDocument, declare, declareObject, ← deepDocument]
  change ((declareType _ false "" _ (.string "record")).run _).map _ = _
  rw [declareType, if_neg Bool.false_ne_true, declareRecord, hname, liftM_some_bind]
  dsimp only
  rw [haliases, liftM_some_bind, hentries, liftM_some_bind, hfields]
  rfl

theorem sorted_nestedArrays (n : Nat) : (nestedArrays n).sorted = nestedArrays n := by
  induction n with
  | zero => rfl
  | succ n ih =>
    change Json.ofMembers [("items", (nestedArrays n).sorted), ("type", .string "array")] = _
    have hkeys : ["items", "type"].Pairwise (· < ·) := by decide
    rw [ih]
    exact Json.ofMembers_of_sorted hkeys

theorem sorted_deepDocument (n : Nat) : (deepDocument n).sorted = deepDocument n := by
  change Json.ofMembers [("fields", .array [Json.ofMembers [("items", (nestedArrays n).sorted),
    ("name", .string "a"), ("type", .string "array")]]), ("name", .string "R"),
    ("type", .string "record")] = _
  have harray : ["items", "name", "type"].Pairwise (· < ·) := by decide
  have hrecord : ["fields", "name", "type"].Pairwise (· < ·) := by decide
  rw [sorted_nestedArrays, Json.ofMembers_of_sorted, Json.ofMembers_of_sorted]
  · rfl
  · exact harray
  · exact hrecord

theorem misses_deep : Misses (deepDocument 124) [⟨"R", ["a"]⟩] [] := by
  have hfloats : (deepDocument 124).floats = [] := by decide +kernel
  have hintegers : (deepDocument 124).integers = [] := by decide +kernel
  have hback : (deepDocument 124).IntegersReadBack := by
    intro i hi
    simp [hintegers] at hi
  have hdoc : (deepDocument 124).form.value? Json.maxDepth = some (deepDocument 124) := by
    rw [Json.value?_form_eq hfloats hback, if_pos (by decide +kernel), sorted_deepDocument]
  have hread := ofJson?_deepDocument (n := 124) (by decide +kernel)
  have hplain : (deepSchema 124).canonicalForm.Plain := by decide +kernel
  have hdeep : ¬ (deepSchema 124).canonicalForm.toJson.depth ≤ Json.maxDepth := by decide +kernel
  refine ⟨_, parse_text hdoc hfloats hread, ofUtf8?_text hdoc hfloats, by decide +kernel, ?_⟩
  rw [listed_of_deep hread hplain hdeep]
  exact .nil

end SchemaEvolution.Avro
