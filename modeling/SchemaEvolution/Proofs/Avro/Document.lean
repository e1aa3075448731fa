import SchemaEvolution.Avro.Compare
import SchemaEvolution.Proofs.Json.Printing
import SchemaEvolution.Proofs.Text.Utf8

/-!
Avro documents. The named types that a document declares are collected from the document alone; what
a part of it is read as is a relation that does without the state of the reader.
-/

namespace SchemaEvolution.Avro

/-- A named type: its full name and, of a record, the names of its fields. -/
structure Declaration where
  name : String
  fields : List String
  deriving DecidableEq, Repr

inductive Place
  | type
  | field
  deriving DecidableEq, Repr

inductive TypeWord
  | record
  | enum
  | fixed
  | recalled
  | over (key : String)
  deriving DecidableEq, Repr

def isAnnotated (v : Json) : Bool := (v.string? "logicalType").any isLogicalName

/-- An object that lacks the part that makes a declaration of it recalls a type. -/
def declaringWord (part : String) (v : Json) (word : TypeWord) : TypeWord :=
  if (v.get? part).isSome then word else .recalled

def typeWord (place : Place) (v : Json) : TypeWord :=
  match v.string? "type", isAnnotated v with
  | some "fixed", _ => declaringWord "size" v .fixed
  | some "record", false =>
    if place = .field then .over "type" else declaringWord "fields" v .record
  | some "enum", false => declaringWord "symbols" v .enum
  | some "array", false => .over "items"
  | some "map", false => .over "values"
  | _, _ => .over "type"

mutual

/-- The declarations in a part of a document, wherever they stand. Entries of a list of fields that
are no objects are passed over. -/
def declarations : Place → (space : String) → Json → List Declaration
  | place, space, .array xs => declarationsAll place space xs
  | place, space, .object ms =>
    match typeWord place (.object ms), declaredName? space (.object ms) with
    | .record, some (own, name) =>
      let entries := ((Json.object ms).array? "fields").getD []
      ⟨name, entries.filterMap (Json.string? "name")⟩ :: declarationsAt .field own "fields" ms
    | .enum, some (_, name) | .fixed, some (_, name) => [⟨name, []⟩]
    | .over key, _ => declarationsAt .type space key ms
    | _, _ => []
  | _, _, _ => []

def declarationsAll (place : Place) (space : String) : List Json → List Declaration
  | [] => []
  | x :: xs =>
    (if place = .type ∨ x.isObject then declarations place space x else []) ++
      declarationsAll place space xs

def declarationsAt (place : Place) (space key : String) : List (String × Json) → List Declaration
  | [] => []
  | (k, x) :: ms => if key = k then declarations place space x else declarationsAt place space key ms

end

def declaredIn (v : Json) : List Declaration := declarations .type "" v

mutual

/-- Somewhere in a part of a document an object recalls a type. -/
def recalls : Place → Json → Bool
  | place, .array xs => recallsIn place xs
  | place, .object ms =>
    match typeWord place (.object ms) with
    | .recalled => true
    | .record => recallsAt .field "fields" ms
    | .over key => recallsAt .type key ms
    | _ => false
  | _, _ => false

def recallsIn (place : Place) : List Json → Bool
  | [] => false
  | x :: xs => ((place = .type || x.isObject) && recalls place x) || recallsIn place xs

def recallsAt (place : Place) (key : String) : List (String × Json) → Bool
  | [] => false
  | (k, x) :: ms => if key = k then recalls place x else recallsAt place key ms

end

section

variable {place : Place} {space own name : String} {v : Json}

theorem declarationsAt_eq (place : Place) (space key : String) (ms : List (String × Json)) :
    declarationsAt place space key ms =
      ((Json.object ms).get? key).elim [] (declarations place space) := by
  induction ms with
  | nil => rfl
  | cons m ms ih =>
    rw [Json.get?] at ih
    rw [declarationsAt, Json.get?, Names.find?_cons, ih]
    split <;> rfl

theorem declarationsAll_filter (space : String) (xs : List Json) :
    declarationsAll .field space (xs.filter Json.isObject) = declarationsAll .field space xs := by
  induction xs with
  | nil => rfl
  | cons x xs ih =>
    by_cases hx : x.isObject
    · rw [List.filter_cons_of_pos hx, declarationsAll, declarationsAll, ih]
    · rw [List.filter_cons_of_neg hx, declarationsAll, ih, if_neg (by simpa using hx)]
      rfl

@[simp] theorem filterMap_name_filter (xs : List Json) :
    (xs.filter Json.isObject).filterMap (Json.string? "name") =
      xs.filterMap (Json.string? "name") := by
  rw [List.filterMap_filter]
  congr 1 with x
  cases x <;> rfl

theorem exists_object_of_get? {key : String} {x : Json} (h : v.get? key = some x) :
    ∃ ms, v = .object ms := by
  cases v with
  | object ms => exact ⟨ms, rfl⟩
  | _ => cases h

theorem declarations_over {key : String} {x : Json} (hword : typeWord place v = .over key)
    (hx : v.get? key = some x) : declarations place space v = declarations .type space x := by
  obtain ⟨ms, rfl⟩ := exists_object_of_get? hx
  rw [declarations]
  simp only [hword]
  rw [declarationsAt_eq, hx, Option.elim_some]

theorem declarations_record {entries : List Json} (hword : typeWord place v = .record)
    (hname : declaredName? space v = some (own, name))
    (hentries : v.array? "fields" = some entries) :
    declarations place space v = ⟨name, entries.filterMap (Json.string? "name")⟩ ::
      declarationsAll .field own entries := by
  obtain ⟨x, hx, harray⟩ := Option.bind_eq_some_iff.1 hentries
  obtain ⟨ms, rfl⟩ := exists_object_of_get? hx
  cases x with
  | array xs =>
    cases harray
    rw [declarations]
    simp only [hword, hname]
    rw [declarationsAt_eq, hx, hentries, Option.elim_some, declarations, Option.getD_some]
  | _ => cases harray

theorem recallsAt_eq (place : Place) (key : String) (ms : List (String × Json)) :
    recallsAt place key ms = ((Json.object ms).get? key).any (recalls place) := by
  induction ms with
  | nil => rfl
  | cons m ms ih =>
    rw [Json.get?] at ih
    rw [recallsAt, Json.get?, Names.find?_cons, ih]
    split <;> rfl

theorem recallsIn_filter (xs : List Json) :
    recallsIn .field (xs.filter Json.isObject) = recallsIn .field xs := by
  induction xs with
  | nil => rfl
  | cons x xs ih =>
    by_cases hx : x.isObject
    · rw [List.filter_cons_of_pos hx, recallsIn, recallsIn, ih]
    · rw [List.filter_cons_of_neg hx, recallsIn, ih, Bool.eq_false_iff.2 hx]
      rfl

theorem recalls_over {key : String} {x : Json} (hword : typeWord place v = .over key)
    (hx : v.get? key = some x) : recalls place v = recalls .type x := by
  obtain ⟨ms, rfl⟩ := exists_object_of_get? hx
  rw [recalls]
  simp only [hword]
  rw [recallsAt_eq, hx, Option.any_some]

theorem recalls_record {entries : List Json} (hword : typeWord place v = .record)
    (hentries : v.array? "fields" = some entries) :
    recalls place v = recallsIn .field (entries.filter Json.isObject) := by
  obtain ⟨x, hx, harray⟩ := Option.bind_eq_some_iff.1 hentries
  obtain ⟨ms, rfl⟩ := exists_object_of_get? hx
  cases x with
  | array xs =>
    cases harray
    rw [recalls]
    simp only [hword]
    rw [recallsAt_eq, hx, Option.any_some, recalls, recallsIn_filter]
  | _ => cases harray

theorem recalls_recalled {key : String} {x : Json} (hword : typeWord place v = .recalled)
    (hx : v.get? key = some x) : recalls place v = true := by
  obtain ⟨ms, rfl⟩ := exists_object_of_get? hx
  rw [recalls]
  simp only [hword]

theorem declarations_enum (hword : typeWord place v = .enum)
    (hname : declaredName? space v = some (own, name)) :
    declarations place space v = [⟨name, []⟩] := by
  cases v with
  | object ms =>
    rw [declarations]
    simp only [hword, hname]
  | _ => cases hword

theorem declarations_fixed (hword : typeWord place v = .fixed)
    (hname : declaredName? space v = some (own, name)) :
    declarations place space v = [⟨name, []⟩] := by
  cases v with
  | object ms =>
    rw [declarations]
    simp only [hword, hname]
  | _ => cases hword

end

def Schema.annotated (s : Schema) (v : Json) : Schema :=
  match v.string? "logicalType" with
  | some logical => if isLogicalName logical then s.annotate logical v else s
  | none => s

mutual

/-- What a part of a document is read as, whatever was declared before it. -/
inductive Reads : Place → (space : String) → Json → Schema → Prop
  | primitive {space name : String} {k : Kind} (hk : Kind.ofPrimitiveName? name = some k) :
    Reads .type space (.string name) (.plain k)
  | ref {space name full : String} : Reads .type space (.string name) (.ref full)
  | union {space : String} {xs : List Json} {members : List Schema}
    (hmembers : ReadsAll space xs members) : Reads .type space (.array xs) (.union members)
  | inner {place : Place} {space : String} {v type : Json} {s : Schema}
    (hword : typeWord place v = .over "type") (htype : v.get? "type" = some type)
    (h : Reads .type space type s) : Reads place space v (s.annotated v)
  | array {place : Place} {space : String} {v items : Json} {s : Schema}
    (hword : typeWord place v = .over "items") (hitems : v.get? "items" = some items)
    (h : Reads .type space items s) : Reads place space v (.array s (typeAttributes "items" v))
  | map {place : Place} {space : String} {v values : Json} {s : Schema}
    (hword : typeWord place v = .over "values") (hvalues : v.get? "values" = some values)
    (h : Reads .type space values s) : Reads place space v (.map s (typeAttributes "values" v))
  | enum {place : Place} {space own name : String} {v : Json} {symbols : List String}
    {default : Option String} (hword : typeWord place v = .enum)
    (hname : declaredName? space v = some (own, name)) :
    Reads place space v (.enum name symbols default (typeAttributes "symbols" v))
  | fixed {place : Place} {space own name : String} {v : Json} {size : Nat}
    (hword : typeWord place v = .fixed) (hname : declaredName? space v = some (own, name))
    (hsize : v.get? "size" >>= natural? = some size) :
    Reads place space v ((Schema.fixed name size (typeAttributes "size" v)).annotated v)
  | record {place : Place} {space own name : String} {v : Json} {entries : List Json}
    {fields : List (FieldHead × Schema)} (hword : typeWord place v = .record)
    (hname : declaredName? space v = some (own, name)) (hentries : v.array? "fields" = some entries)
    (hfields : ReadsFields own (entries.filter Json.isObject) fields) :
    Reads place space v (.record name fields (typeAttributes "fields" v))

inductive ReadsAll : (space : String) → List Json → List Schema → Prop
  | nil {space : String} : ReadsAll space [] []
  | cons {space : String} {x : Json} {xs : List Json} {s : Schema} {ss : List Schema}
    (h : Reads .type space x s) (hs : ReadsAll space xs ss) : ReadsAll space (x :: xs) (s :: ss)

inductive ReadsFields : (space : String) → List Json → List (FieldHead × Schema) → Prop
  | nil {space : String} : ReadsFields space [] []
  | cons {space : String} {v : Json} {vs : List Json} {f : FieldHead} {s : Schema}
    {fs : List (FieldHead × Schema)} (hname : v.string? "name" = some f.name)
    (hsimple : isSimpleName f.name.toList) (h : Reads .field space v s) (hs : ReadsFields space vs fs) :
    ReadsFields space (v :: vs) ((f, s) :: fs)

end

def Yields {α : Type} (x : Declaring α) (a : α) : Prop := ∃ d d', x.run d = some (a, d')

namespace Yields

variable {α β : Type} {x : Declaring α} {f : α → Declaring β} {a : α} {b : β}

theorem bind (h : Yields (x >>= f) b) : ∃ a, Yields x a ∧ Yields (f a) b := by
  obtain ⟨d, d', h⟩ := h
  obtain ⟨⟨a, e⟩, hx, hf⟩ := Option.bind_eq_some_iff.1 h
  exact ⟨a, ⟨d, e, hx⟩, ⟨e, d', hf⟩⟩

theorem rest (h : Yields (x >>= f) b) : ∃ a, Yields (f a) b := by
  obtain ⟨a, -, h⟩ := h.bind
  exact ⟨a, h⟩

theorem pure {a' : α} (h : Yields (pure a : Declaring α) a') : a = a' := by
  obtain ⟨d, d', h⟩ := h
  cases h
  rfl

theorem liftM {o : Option α} (h : Yields (liftM o) a) : o = some a := by
  obtain ⟨d, d', h⟩ := h
  cases o with
  | none => cases h
  | some _ =>
    cases h
    rfl

theorem failure : ¬ Yields (failure : Declaring α) a := nofun

theorem ensure {c : Bool} {u : Unit} (h : Yields (Avro.ensure c) u) : c = true := by
  cases c with
  | true => rfl
  | false => exact absurd h Yields.failure

end Yields

section

variable {place : Place} {fuel : Nat} {space name : String} {v : Json} {s : Schema}

theorem typeWord_of_fixed (h : v.string? "type" = some "fixed") :
    typeWord place v = declaringWord "size" v .fixed := by
  simp only [typeWord, h]

theorem yields_declaration {part said : String} {word : TypeWord} {type : Json}
    {declaration : Declaring Schema} (hword : typeWord place v = declaringWord part v word)
    (htype : v.get? "type" = some type) (hv : recalls place v = false)
    (h : Yields (declareOrRecall space said part v declaration) s) :
    typeWord place v = word ∧ Yields declaration s := by
  rw [declareOrRecall] at h
  split at h
  next hpart => exact ⟨hword.trans (if_pos hpart), h⟩
  next hpart =>
    rw [recalls_recalled (hword.trans (if_neg hpart)) htype] at hv
    cases hv

theorem typeWord_of_annotated (hannotated : isAnnotated v = true)
    (h : v.string? "type" ≠ some "fixed") : typeWord place v = .over "type" := by
  rw [typeWord, hannotated]
  split <;> first | contradiction | rfl

theorem annotated_of_isAnnotated {logical : String}
    (hlogical : v.string? "logicalType" = some logical) (h : isLogicalName logical) (s : Schema) :
    s.annotated v = s.annotate logical v := by
  rw [Schema.annotated, hlogical]
  exact if_pos h

theorem annotated_of_not_isAnnotated (h : isAnnotated v = false) (s : Schema) :
    s.annotated v = s := by
  rw [Schema.annotated]
  rw [isAnnotated] at h
  split
  next logical hlogical =>
    rw [hlogical, Option.any_some] at h
    rw [h]
    rfl
  next => rfl

theorem reads_of_mention (h : Yields (mention space name) s) :
    Reads .type space (.string name) s := by
  rw [mention] at h
  split at h
  next k hk =>
    cases h.pure
    exact .primitive hk
  next =>
    obtain ⟨full, -, h⟩ := h.bind
    rw [lookUp] at h
    obtain ⟨d, -, h⟩ := h.bind
    split at h
    · cases h.pure
      exact .ref
    · split at h
      · cases h.pure
        exact .ref
      · exact absurd h Yields.failure

theorem reads_of_declareEnum (hword : typeWord place v = .enum)
    (h : Yields (declareEnum space v) s) : Reads place space v s := by
  obtain ⟨⟨own, name⟩, hname, h⟩ := h.bind
  obtain ⟨aliases, h⟩ := h.rest
  obtain ⟨symbols, h⟩ := h.rest
  obtain ⟨_, h⟩ := h.rest
  obtain ⟨_, h⟩ := h.rest
  obtain ⟨default, rfl⟩ :
      ∃ default, Schema.enum name symbols default (typeAttributes "symbols" v) = s := by
    split at h
    · obtain ⟨default, h⟩ := h.rest
      obtain ⟨_, h⟩ := h.rest
      exact ⟨default, h.pure⟩
    · obtain ⟨_, h⟩ := h.rest
      obtain ⟨default, h⟩ := h.rest
      obtain ⟨_, h⟩ := h.rest
      exact ⟨default, h.pure⟩
    · obtain ⟨_, h, -⟩ := h.bind
      exact absurd h Yields.failure
  exact .enum hword hname.liftM

theorem exists_of_declareFixed (h : Yields (declareFixed space v) s) : ∃ own name size,
    declaredName? space v = some (own, name) ∧ v.get? "size" >>= natural? = some size ∧
      s = .fixed name size (typeAttributes "size" v) := by
  obtain ⟨⟨own, name⟩, hname, h⟩ := h.bind
  obtain ⟨aliases, h⟩ := h.rest
  obtain ⟨size, hsize, h⟩ := h.bind
  obtain ⟨_, h⟩ := h.rest
  obtain ⟨_, h⟩ := h.rest
  exact ⟨own, name, size, hname.liftM, hsize.liftM, h.pure.symm⟩

end

mutual

theorem reads_of_declare {fuel : Nat} {space : String} {v : Json} {s : Schema}
    (hv : recalls .type v = false) (h : Yields (declare fuel space v) s) :
    Reads .type space v s := by
  match fuel, v with
  | 0, v =>
    rw [declare] at h
    exact absurd h Yields.failure
  | fuel + 1, .string name =>
    rw [declare] at h
    exact reads_of_mention h
  | fuel + 1, .array xs =>
    rw [declare] at h
    rw [recalls] at hv
    exact reads_of_declareUnion hv h
  | fuel + 1, .object ms =>
    rw [declare] at h
    exact reads_of_declareObject hv h
  | fuel + 1, .null | fuel + 1, .bool _ | fuel + 1, .number _ =>
    rw [declare] at h
    · exact absurd h Yields.failure
    all_goals nofun

theorem reads_of_declareUnion {fuel : Nat} {space : String} {xs : List Json} {s : Schema}
    (hxs : recallsIn .type xs = false) (h : Yields (declareUnion (declareAll fuel space xs)) s) :
    Reads .type space (.array xs) s := by
  rw [declareUnion] at h
  obtain ⟨members, hmembers, h⟩ := h.bind
  obtain ⟨_, -, h⟩ := h.bind
  cases h.pure
  exact .union (readsAll_of_declareAll hxs hmembers)

theorem readsAll_of_declareAll {fuel : Nat} {space : String} {xs : List Json} {ss : List Schema}
    (hxs : recallsIn .type xs = false) (h : Yields (declareAll fuel space xs) ss) :
    ReadsAll space xs ss := by
  match fuel, xs with
  | fuel, [] =>
    rw [declareAll] at h
    cases h.pure
    exact .nil
  | 0, _ :: _ =>
    rw [declareAll] at h
    · exact absurd h Yields.failure
    · nofun
  | fuel + 1, x :: xs =>
    rw [declareAll] at h
    obtain ⟨s, hs, h⟩ := h.bind
    obtain ⟨ss, hss, h⟩ := h.bind
    cases h.pure
    obtain ⟨hx, hxs⟩ := Bool.or_eq_false_iff.1 hxs
    exact .cons (reads_of_declare hx hs) (readsAll_of_declareAll hxs hss)

theorem reads_of_declareObject {fuel : Nat} {place : Place} {space : String} {v : Json} {s : Schema}
    (hv : recalls place v = false)
    (h : Yields (declareObject fuel (decide (place = .field)) space v) s) :
    Reads place space v s := by
  match fuel with
  | 0 =>
    rw [declareObject] at h
    exact absurd h Yields.failure
  | fuel + 1 =>
    rw [declareObject] at h
    obtain ⟨type, htype, h⟩ := h.bind
    replace htype := htype.liftM
    split at h
    next logical hlogical =>
      have hstring : v.string? "logicalType" = some logical := by rw [Json.string?, hlogical]; rfl
      split at h
      next hknown =>
        have hannotate := annotated_of_isAnnotated hstring hknown
        have hannotated : isAnnotated v = true := by rw [isAnnotated, hstring]; exact hknown
        -- Beside a logical type the object is read itself only if it is a `fixed`.
        split at h
        next hfixed =>
          obtain ⟨s, hs, h⟩ := h.bind
          have htypeWord : v.string? "type" = some "fixed" := by
            rw [Json.string?, htype]
            exact eq_of_beq hfixed
          obtain ⟨hword, hs⟩ := yields_declaration (typeWord_of_fixed htypeWord) htype hv hs
          obtain ⟨own, name, size, hname, hsize, rfl⟩ := exists_of_declareFixed hs
          cases h.pure
          exact hannotate _ ▸ .fixed hword hname hsize
        next hfixed =>
          obtain ⟨s, hs, h⟩ := h.bind
          cases h.pure
          have hother : v.string? "type" ≠ some "fixed" := by
            rw [Json.string?, htype]
            intro heq
            exact hfixed (beq_iff_eq.2 heq)
          have hword : typeWord place v = .over "type" := typeWord_of_annotated hannotated hother
          rw [recalls_over hword htype] at hv
          exact hannotate _ ▸ .inner hword htype (reads_of_declare hv hs)
      next hknown =>
        have hannotated : isAnnotated v = false := by
          rw [isAnnotated, hstring]
          exact Bool.eq_false_iff.2 hknown
        exact reads_of_declareType hannotated htype hv h
    next => exact absurd h Yields.failure
    next hlogical =>
      have hannotated : isAnnotated v = false := by rw [isAnnotated, Json.string?, hlogical]; rfl
      exact reads_of_declareType hannotated htype hv h

theorem reads_of_declareType {fuel : Nat} {place : Place} {space : String} {v type : Json}
    {s : Schema} (hannotated : isAnnotated v = false) (htype : v.get? "type" = some type)
    (hv : recalls place v = false)
    (h : Yields (declareType fuel (decide (place = .field)) space v type) s) :
    Reads place space v s := by
  have hstring : v.string? "type" = type.asString? := by rw [Json.string?, htype]; rfl
  -- The cases in which the type of the object is read in its place.
  have hinner (hword : typeWord place v = .over "type")
      (h : recalls .type type = false → Reads .type space type s) : Reads place space v s := by
    rw [recalls_over hword htype] at hv
    exact annotated_of_not_isAnnotated hannotated s ▸ .inner hword htype (h hv)
  match fuel with
  | 0 =>
    rw [declareType] at h
    exact absurd h Yields.failure
  | fuel + 1 =>
    rw [declareType.eq_def] at h
    simp only at h
    split at h
    next =>
      cases place with
      | type =>
        have hword : typeWord .type v = declaringWord "fields" v .record := by
          simp [typeWord, hstring, Json.asString?, hannotated]
        obtain ⟨hword, h⟩ := yields_declaration hword htype hv h
        exact reads_of_declareRecord hword hv h
      | field =>
        apply hinner (by simp [typeWord, hstring, Json.asString?, hannotated])
        intro _
        exact reads_of_mention h
    next =>
      have hword : typeWord place v = declaringWord "symbols" v .enum := by
        simp only [typeWord, hstring, Json.asString?, hannotated]
      obtain ⟨hword, h⟩ := yields_declaration hword htype hv h
      exact reads_of_declareEnum hword h
    next =>
      obtain ⟨hword, h⟩ := yields_declaration (typeWord_of_fixed hstring) htype hv h
      obtain ⟨own, name, size, hname, hsize, rfl⟩ := exists_of_declareFixed h
      have hfixed := Reads.fixed hword hname hsize
      rwa [annotated_of_not_isAnnotated hannotated] at hfixed
    next =>
      obtain ⟨items, hitems, h⟩ := h.bind
      obtain ⟨s, hs, h⟩ := h.bind
      cases h.pure
      have hword : typeWord place v = .over "items" := by
        simp only [typeWord, hstring, Json.asString?, hannotated]
      rw [recalls_over hword hitems.liftM] at hv
      exact .array hword hitems.liftM (reads_of_declare hv hs)
    next =>
      obtain ⟨values, hvalues, h⟩ := h.bind
      obtain ⟨s, hs, h⟩ := h.bind
      cases h.pure
      have hword : typeWord place v = .over "values" := by
        simp only [typeWord, hstring, Json.asString?, hannotated]
      rw [recalls_over hword hvalues.liftM] at hv
      exact .map hword hvalues.liftM (reads_of_declare hv hs)
    next =>
      apply hinner (by simp_all [typeWord, Json.asString?])
      intro _
      exact reads_of_mention h
    next =>
      apply hinner (by simp only [typeWord, hstring, Json.asString?])
      intro hv
      rw [recalls] at hv
      exact reads_of_declareUnion hv h
    next =>
      apply hinner (by simp only [typeWord, hstring, Json.asString?])
      intro hv
      exact reads_of_declareObject hv h
    next => exact absurd h Yields.failure

theorem reads_of_declareRecord {fuel : Nat} {place : Place} {space : String} {v : Json}
    {s : Schema} (hword : typeWord place v = .record) (hv : recalls place v = false)
    (h : Yields (declareRecord fuel space v) s) : Reads place space v s := by
  match fuel with
  | 0 =>
    rw [declareRecord] at h
    exact absurd h Yields.failure
  | fuel + 1 =>
    rw [declareRecord] at h
    obtain ⟨⟨own, name⟩, hname, h⟩ := h.bind
    obtain ⟨aliases, h⟩ := h.rest
    obtain ⟨_, h⟩ := h.rest
    obtain ⟨entries, hentries, h⟩ := h.bind
    obtain ⟨fields, hfields, h⟩ := h.bind
    obtain ⟨_, h⟩ := h.rest
    obtain ⟨_, h⟩ := h.rest
    cases h.pure
    rw [recalls_record hword hentries.liftM] at hv
    exact .record hword hname.liftM hentries.liftM (readsFields_of_declareFields
      (fun v hv => List.of_mem_filter hv) hv hfields)

theorem readsFields_of_declareFields {fuel : Nat} {space : String} {vs : List Json}
    {fs : List (FieldHead × Schema)} (hobjects : ∀ v ∈ vs, v.isObject)
    (hvs : recallsIn .field vs = false) (h : Yields (declareFields fuel space vs) fs) :
    ReadsFields space vs fs := by
  match fuel, vs with
  | fuel, [] =>
    rw [declareFields] at h
    cases h.pure
    exact .nil
  | 0, _ :: _ =>
    rw [declareFields] at h
    · exact absurd h Yields.failure
    · nofun
  | fuel + 1, v :: vs =>
    rw [declareFields] at h
    obtain ⟨name, hname, h⟩ := h.bind
    obtain ⟨_, hsimple, h⟩ := h.bind
    obtain ⟨s, hs, h⟩ := h.bind
    obtain ⟨d, h⟩ := h.rest
    obtain ⟨_, h⟩ := h.rest
    obtain ⟨rest, hrest, h⟩ := h.bind
    cases h.pure
    obtain ⟨hobject, hobjects⟩ := List.forall_mem_cons.1 hobjects
    obtain ⟨hv, hvs⟩ := Bool.or_eq_false_iff.1 hvs
    rw [hobject, Bool.or_true, Bool.true_and] at hv
    exact .cons hname.liftM hsimple.ensure (reads_of_declareObject hv hs)
      (readsFields_of_declareFields hobjects hvs hrest)

end

theorem reads_of_ofJson? {v : Json} {s : Schema} (hv : recalls .type v = false)
    (h : Schema.ofJson? v = some s) : Reads .type "" v s := by
  obtain ⟨hread, -⟩ := Option.filter_eq_some_iff.1 h
  obtain ⟨⟨_, d⟩, hrun, rfl⟩ := Option.map_eq_some_iff.1 hread
  exact reads_of_declare hv ⟨_, d, hrun⟩

theorem isSome_canonicalForm?_of_ofJson? {v : Json} {s : Schema} (h : Schema.ofJson? v = some s) :
    s.canonicalForm?.isSome := (Option.filter_eq_some_iff.1 h).2

theorem exists_of_parse {bytes : List UInt8} {s : Schema} (h : Schema.parse bytes = .ok s) :
    ∃ v, Json.ofUtf8? bytes = some v ∧ Schema.ofJson? v = some s := by
  rw [Schema.parse] at h
  split at h
  next => cases h
  next text htext =>
    split at h
    next => cases h
    next s' hs' =>
      cases h
      obtain ⟨v, hv, hs⟩ := Option.bind_eq_some_iff.1 hs'
      refine ⟨v, ?_, hs⟩
      rw [Json.ofUtf8?, htext]
      exact hv

theorem ofUtf8?_text {doc : Json} (hdoc : doc.form.value? Json.maxDepth = some doc)
    (hfloats : doc.floats = []) : Json.ofUtf8? (Text.toUtf8 doc.text) = some doc := by
  rw [Json.ofUtf8?, Text.ofUtf8?_toUtf8, Option.bind_eq_bind, Option.bind_some, Json.parse?,
    Json.text, String.toList_ofList,
    Json.ofChars?_of_document (Json.document_render (by simp [hfloats])), hdoc]

/-- The text of a document is read as the schema that the document declares. -/
theorem parse_text {doc : Json} {s : Schema} (hdoc : doc.form.value? Json.maxDepth = some doc)
    (hfloats : doc.floats = []) (hs : Schema.ofJson? doc = some s) :
    Schema.parse (Text.toUtf8 doc.text) = .ok s := by
  have hread := ofUtf8?_text hdoc hfloats
  rw [Json.ofUtf8?, Text.ofUtf8?_toUtf8, Option.bind_eq_bind, Option.bind_some] at hread
  simp [Schema.parse, hread, hs]

end SchemaEvolution.Avro
