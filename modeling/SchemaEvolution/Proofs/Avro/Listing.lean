import SchemaEvolution.Proofs.Avro.Canonical
import SchemaEvolution.Proofs.Avro.Printing
import SchemaEvolution.Proofs.Json.Nesting

namespace SchemaEvolution.Avro

namespace Listing

@[simp] theorem types_empty : (∅ : Listing).types = [] := rfl

@[simp] theorem fields_empty : (∅ : Listing).fields = [] := rfl

@[simp] theorem types_append (l l' : Listing) : (l ++ l').types = l.types ++ l'.types := rfl

@[simp] theorem fields_append (l l' : Listing) : (l ++ l').fields = l.fields ++ l'.fields := rfl

@[simp] theorem append_empty (l : Listing) : l ++ ∅ = l := by
  cases l
  exact congrArg₂ mk (List.append_nil _) (List.append_nil _)

@[simp] theorem empty_append (l : Listing) : ∅ ++ l = l := rfl

@[simp] theorem mk_nil_nil : (⟨[], []⟩ : Listing) = ∅ := rfl

end Listing

theorem listingAt_eq (role : Role) (key : String) (ms : List (String × Json)) :
    listingAt role key ms = ((Json.object ms).get? key).elim ∅ (listing role) := by
  induction ms with
  | nil => rfl
  | cons m ms ih =>
    rw [Json.get?] at ih
    rw [listingAt, Json.get?, Names.find?_cons, ih]
    split <;> rfl

namespace Form

def listing (role : Role) (f : Form) : Listing := Avro.listing role f.toJson.sorted

def listingAll (role : Role) : List Form → Listing
  | [] => ∅
  | f :: fs => f.listing role ++ listingAll role fs

def partListing (role : Role) : Option Form → Listing
  | none => ∅
  | some f => f.listing role

@[simp] theorem partListing_none (role : Role) : partListing role none = ∅ := rfl

@[simp] theorem partListing_some (role : Role) (f : Form) :
    partListing role (some f) = f.listing role := rfl

def asString? : Form → Option String
  | .string s => some s
  | _ => none

@[simp] theorem asString?_string (s : String) : (string s).asString? = some s := rfl

@[simp] theorem asString?_toJson_sorted (f : Form) : f.toJson.sorted.asString? = f.asString? := by
  cases f <;> rfl

@[simp] theorem listing_string (role : Role) (s : String) : (string s).listing role = ∅ := by
  cases role <;> rfl

@[simp] theorem listing_integer (role : Role) (n : Int) : (integer n).listing role = ∅ := by
  cases role <;> rfl

@[simp] theorem listingAll_sortedItems (role : Role) (fs : List Form) :
    Avro.listingAll role (Json.sortedItems (itemsToJson fs)) = listingAll role fs := by
  induction fs with
  | nil => rfl
  | cons f fs ih => rw [itemsToJson, Json.sortedItems, Avro.listingAll, ih, listingAll, listing]

@[simp] theorem listing_type_array (fs : List Form) :
    (array fs).listing .type = listingAll .type fs := listingAll_sortedItems .type fs

@[simp] theorem listing_fields_array (owner : Option String) (fs : List Form) :
    (array fs).listing (.fields owner) = listingAll (.field owner) fs :=
  listingAll_sortedItems (.field owner) fs

@[simp] theorem listing_field_array (owner : Option String) (fs : List Form) :
    (array fs).listing (.field owner) = ∅ := rfl

end Form

namespace Parts

open Form

variable {p : Parts}

theorem exists_object (p : Parts) : ∃ ms, p.form = .object ms ∧
    (ms.map (·.1)).Sublist (p.toList.map (·.1)) := by
  refine ⟨_, rfl, ?_⟩
  generalize p.toList = parts
  induction parts with
  | nil => exact .slnil
  | cons part parts ih =>
    cases hpart : part.2 with
    | none =>
      rw [List.filterMap_cons_none (by rw [hpart]; rfl)]
      exact ih.cons part.1
    | some f =>
      rw [List.filterMap_cons_some (by rw [hpart]; rfl)]
      exact ih.cons_cons part.1

theorem find?_membersToJson (key : String) (ms : List (String × Form)) :
    Names.find? key (membersToJson ms) = (Names.find? key ms).map toJson := by
  induction ms with
  | nil => rfl
  | cons m ms ih =>
    obtain ⟨k, f⟩ := m
    rw [membersToJson, Names.find?_cons, Names.find?_cons, ih]
    split <;> rfl

theorem get?_sorted (key : String) :
    p.form.toJson.sorted.get? key = (p.form.get? key).map fun f => f.toJson.sorted := by
  obtain ⟨ms, hms, hsublist⟩ := exists_object p
  have hnodup : ((membersToJson ms).map (·.1)).Nodup := by
    rw [membersToJson_eq_map, List.map_map]
    exact p.nodup_keys.sublist hsublist
  rw [hms, toJson, Json.get?_sorted hnodup, find?_membersToJson, Option.map_map]
  rfl

@[simp] theorem string?_sorted : p.form.toJson.sorted.string? "name" = p.name >>= asString? := by
  rw [Json.string?, get?_sorted, get?_name]
  cases p.name with
  | none => rfl
  | some f => exact asString?_toJson_sorted f

theorem elim_get?_sorted (role : Role) (key : String) :
    (p.form.toJson.sorted.get? key).elim ∅ (Avro.listing role) =
      partListing role (p.form.get? key) := by
  rw [get?_sorted]
  cases p.form.get? key <;> rfl

@[simp] theorem listing_type : p.form.listing .type = ⟨(p.name >>= asString?).toList, []⟩ ++
    partListing (.fields (p.name >>= asString?)) p.fields ++ partListing .type p.items ++
      partListing .type p.values := by
  obtain ⟨ms, hms⟩ : ∃ ms, p.form.toJson.sorted = .object ms := ⟨_, rfl⟩
  rw [Form.listing, hms, Avro.listing]
  simp only [listingAt_eq]
  simp only [← hms, string?_sorted, elim_get?_sorted, get?_fields, get?_items, get?_values]

@[simp] theorem listing_fields (owner : Option String) : p.form.listing (.fields owner) = ∅ := rfl

@[simp] theorem listing_field (owner : Option String) : p.form.listing (.field owner) =
    ⟨[], (do return (← owner) ++ "." ++ (← p.name >>= asString?) : Option String).toList⟩ ++
      partListing .type p.type := by
  obtain ⟨ms, hms⟩ : ∃ ms, p.form.toJson.sorted = .object ms := ⟨_, rfl⟩
  rw [Form.listing, hms, Avro.listing, listingAt_eq]
  simp only [← hms, string?_sorted, elim_get?_sorted, get?_type]

end Parts

end SchemaEvolution.Avro
