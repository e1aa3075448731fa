import SchemaEvolution.Avro.Canonical
import SchemaEvolution.Proofs.Json.Injective

namespace SchemaEvolution.Avro

namespace Form

mutual

def toJson : Form → Json
  | .string s => .string s
  | .integer n => .number (.integer n)
  | .array xs => .array (itemsToJson xs)
  | .object ms => .object (membersToJson ms)

def itemsToJson : List Form → List Json
  | [] => []
  | x :: xs => x.toJson :: itemsToJson xs

def membersToJson : List (String × Form) → List (String × Json)
  | [] => []
  | (k, x) :: ms => (k, x.toJson) :: membersToJson ms

end

mutual

def strings : Form → List String
  | .string s => [s]
  | .integer _ => []
  | .array xs => stringsItems xs
  | .object ms => stringsMembers ms

def stringsItems : List Form → List String
  | [] => []
  | x :: xs => x.strings ++ stringsItems xs

def stringsMembers : List (String × Form) → List String
  | [] => []
  | (k, x) :: ms => k :: x.strings ++ stringsMembers ms

end

def Unquoted (f : Form) : Prop := ∀ s ∈ f.strings, '"' ∉ s.toList

/-- No text in the form has a character that JSON escapes. -/
def Plain (f : Form) : Prop := ∀ s ∈ f.strings, ∀ c ∈ s.toList, Json.escapedChar c = [c]

mutual

def allStrings (p : String → Bool) : Form → Bool
  | .string s => p s
  | .integer _ => true
  | .array xs => allStringsItems p xs
  | .object ms => allStringsMembers p ms

def allStringsItems (p : String → Bool) : List Form → Bool
  | [] => true
  | x :: xs => x.allStrings p && allStringsItems p xs

def allStringsMembers (p : String → Bool) : List (String × Form) → Bool
  | [] => true
  | (k, x) :: ms => p k && x.allStrings p && allStringsMembers p ms

end

mutual

theorem allStrings_iff {p : String → Bool} (f : Form) : f.allStrings p ↔ ∀ s ∈ f.strings, p s := by
  cases f with
  | string s => simp [allStrings, strings]
  | integer n => simp [allStrings, strings]
  | array xs => rw [allStrings, strings, allStringsItems_iff]
  | object ms => rw [allStrings, strings, allStringsMembers_iff]

theorem allStringsItems_iff {p : String → Bool} (xs : List Form) :
    allStringsItems p xs ↔ ∀ s ∈ stringsItems xs, p s := by
  match xs with
  | [] => simp [allStringsItems, stringsItems]
  | x :: xs =>
    rw [allStringsItems, stringsItems, Bool.and_eq_true, List.forall_mem_append, allStrings_iff,
      allStringsItems_iff]

theorem allStringsMembers_iff {p : String → Bool} (ms : List (String × Form)) :
    allStringsMembers p ms ↔ ∀ s ∈ stringsMembers ms, p s := by
  match ms with
  | [] => simp [allStringsMembers, stringsMembers]
  | (k, x) :: ms =>
    rw [allStringsMembers, stringsMembers, Bool.and_eq_true, Bool.and_eq_true, List.cons_append,
      List.forall_mem_cons, List.forall_mem_append, allStrings_iff, allStringsMembers_iff, and_assoc]

end

-- Deciding along the form goes no deeper than the form does.
instance (f : Form) : Decidable f.Unquoted :=
  decidable_of_iff (f.allStrings fun s => !s.toList.contains '"') (by simp [allStrings_iff, Unquoted])

instance (f : Form) : Decidable f.Plain :=
  decidable_of_iff (f.allStrings fun s => s.toList.all fun c => Json.escapedChar c = [c])
    (by simp [allStrings_iff, Plain])

theorem itemsToJson_eq_map (fs : List Form) : itemsToJson fs = fs.map toJson := by
  induction fs with
  | nil => rfl
  | cons f fs ih => rw [itemsToJson, ih, List.map_cons]

theorem membersToJson_eq_map (ms : List (String × Form)) :
    membersToJson ms = ms.map fun m => (m.1, m.2.toJson) := by
  induction ms with
  | nil => rfl
  | cons m ms ih => rw [membersToJson, ih, List.map_cons]

mutual

@[simp] theorem floats_toJson (f : Form) : f.toJson.floats = [] := by
  match f with
  | .string _ | .integer _ => rfl
  | .array xs => exact floats_itemsToJson xs
  | .object ms => exact floats_membersToJson ms

@[simp] theorem floats_itemsToJson (xs : List Form) : Json.floatsItems (itemsToJson xs) = [] := by
  match xs with
  | [] => rfl
  | x :: xs => simp [itemsToJson, Json.floatsItems, floats_toJson x, floats_itemsToJson xs]

@[simp] theorem floats_membersToJson (ms : List (String × Form)) :
    Json.floatsMembers (membersToJson ms) = [] := by
  match ms with
  | [] => rfl
  | (_, x) :: ms => simp [membersToJson, Json.floatsMembers, floats_toJson x, floats_membersToJson ms]

end

mutual

theorem eq_of_toJson_eq {f g : Form} (h : f.toJson = g.toJson) : f = g := by
  match f, g with
  | .string _, .string _ | .integer _, .integer _ =>
    cases h
    rfl
  | .array xs, .array ys => rw [eq_of_itemsToJson_eq (Json.array.inj h)]
  | .object ms, .object ns => rw [eq_of_membersToJson_eq (Json.object.inj h)]
  | .string _, .integer _ | .string _, .array _ | .string _, .object _ => cases h
  | .integer _, .string _ | .integer _, .array _ | .integer _, .object _ => cases h
  | .array _, .string _ | .array _, .integer _ | .array _, .object _ => cases h
  | .object _, .string _ | .object _, .integer _ | .object _, .array _ => cases h

theorem eq_of_itemsToJson_eq {xs ys : List Form} (h : itemsToJson xs = itemsToJson ys) : xs = ys := by
  match xs, ys with
  | [], [] => rfl
  | x :: xs, y :: ys =>
    obtain ⟨hx, hxs⟩ := List.cons.inj h
    rw [eq_of_toJson_eq hx, eq_of_itemsToJson_eq hxs]
  | [], _ :: _ | _ :: _, [] => cases h

theorem eq_of_membersToJson_eq {ms ns : List (String × Form)}
    (h : membersToJson ms = membersToJson ns) : ms = ns := by
  match ms, ns with
  | [], [] => rfl
  | (k, x) :: ms, (l, y) :: ns =>
    obtain ⟨hm, hms⟩ := List.cons.inj h
    obtain ⟨rfl, hx⟩ := Prod.mk.inj hm
    rw [eq_of_toJson_eq hx, eq_of_membersToJson_eq hms]
  | [], _ :: _ | _ :: _, [] => cases h

end

def isMark (c : Char) : Bool :=
  c ∈ ['"', '[', ']', '\x7b', '\x7d', ',', ':', '-'] || c.isDigit

theorem isMark_of_mem_render {n : Int} {c : Char} (h : c ∈ (Json.Number.integer n).render) :
    isMark c := by
  have hdigits {m : Nat} (hc : c ∈ Nat.toDigits 10 m) : isMark c := by
    have hdigit := Nat.isDigit_of_mem_toDigits (by decide) (by decide) hc
    rw [isMark, hdigit, Bool.or_true]
  cases n with
  | ofNat n => exact hdigits h
  | negSucc n =>
    cases h with
    | head => rfl
    | tail _ h => exact hdigits h

theorem escapedChar_of_isDigit {c : Char} (h : c.isDigit) : Json.escapedChar c = [c] := by
  have hrange : 48 ≤ c.toNat ∧ c.toNat ≤ 57 := by
    simp only [Char.isDigit, Bool.and_eq_true, decide_eq_true_eq] at h
    exact h
  unfold Json.escapedChar
  split
  case h_8 => exact if_neg (by omega)
  all_goals exact absurd hrange (by decide)

section

variable {e : Char → List Char}

theorem flatMap_eq_self {cs : List Char} (h : ∀ c ∈ cs, e c = [c]) : cs.flatMap e = cs := by
  induction cs with
  | nil => rfl
  | cons c cs ih =>
    obtain ⟨hc, hcs⟩ := List.forall_mem_cons.1 h
    rw [List.flatMap_cons, hc, ih hcs]
    rfl

variable (hmark : ∀ c, isMark c → e c = [c])

include hmark

theorem flatMap_quoted {s : String} (h : s.toList.flatMap e = s.toList.flatMap Json.escapedChar) :
    (quoted s).flatMap e = Json.renderString s := by
  simp [quoted, Json.renderString, hmark '"' rfl, h]

mutual

theorem flatMap_render {f : Form}
    (h : ∀ s ∈ f.strings, s.toList.flatMap e = s.toList.flatMap Json.escapedChar) :
    f.render.flatMap e = f.toJson.render := by
  match f with
  | .string s => exact flatMap_quoted hmark (h s (.head _))
  | .integer n =>
    apply flatMap_eq_self
    intro c hc
    exact hmark c (isMark_of_mem_render hc)
  | .array xs =>
    have hitems : (renderItems xs).flatMap e = _ := flatMap_renderItems h
    simp [render, toJson, Json.render, hmark '[' rfl, hmark ']' rfl, hitems]
  | .object ms =>
    have hmembers : (renderMembers ms).flatMap e = _ := flatMap_renderMembers h
    simp [render, toJson, Json.render, hmark '\x7b' rfl, hmark '\x7d' rfl, hmembers]

theorem flatMap_renderItems {xs : List Form}
    (h : ∀ s ∈ stringsItems xs, s.toList.flatMap e = s.toList.flatMap Json.escapedChar) :
    (renderItems xs).flatMap e = Json.renderItems (itemsToJson xs) := by
  match xs with
  | [] => rfl
  | [x] =>
    obtain ⟨hx, -⟩ := List.forall_mem_append.1 h
    exact flatMap_render hx
  | x :: y :: ys =>
    obtain ⟨hx, hys⟩ := List.forall_mem_append.1 h
    have hitems := flatMap_renderItems hys
    simp only [itemsToJson] at hitems
    simp [renderItems, itemsToJson, Json.renderItems, hmark ',' rfl, flatMap_render hx, hitems]

theorem flatMap_renderMembers {ms : List (String × Form)}
    (h : ∀ s ∈ stringsMembers ms, s.toList.flatMap e = s.toList.flatMap Json.escapedChar) :
    (renderMembers ms).flatMap e = Json.renderMembers (membersToJson ms) := by
  match ms with
  | [] => rfl
  | [(k, x)] =>
    obtain ⟨hk, hrest⟩ := List.forall_mem_cons.1 h
    obtain ⟨hx, -⟩ := List.forall_mem_append.1 hrest
    simp [renderMembers, membersToJson, Json.renderMembers, hmark ':' rfl, flatMap_quoted hmark hk,
      flatMap_render hx]
  | (k, x) :: m :: ms =>
    obtain ⟨hk, hrest⟩ := List.forall_mem_cons.1 h
    obtain ⟨hx, hms⟩ := List.forall_mem_append.1 hrest
    have hmembers := flatMap_renderMembers hms
    obtain ⟨l, y⟩ := m
    simp only [membersToJson] at hmembers
    simp [renderMembers, membersToJson, Json.renderMembers, hmark ':' rfl, hmark ',' rfl,
      flatMap_quoted hmark hk, flatMap_render hx, hmembers]

end

end

theorem text_eq_of_plain {f : Form} (h : f.Plain) : f.text = f.toJson.text := by
  have hrender : f.render.flatMap (fun c => [c]) = f.toJson.render := by
    apply flatMap_render
    · intro c _
      rfl
    · intro s hs
      rw [flatMap_eq_self (h s hs), flatMap_eq_self (fun _ _ => rfl)]
  rw [flatMap_eq_self (fun _ _ => rfl)] at hrender
  rw [text, Json.text, hrender]

def escapeOpen (c : Char) : List Char := if c = '"' then [c] else Json.escapedChar c

theorem escapeOpen_of_isMark {c : Char} (h : isMark c) : escapeOpen c = [c] := by
  rw [isMark, Bool.or_eq_true, decide_eq_true_eq] at h
  rw [escapeOpen]
  split
  · rfl
  next hquote =>
    obtain hmark | hdigit := h
    · revert hquote
      simp only [List.mem_cons, List.not_mem_nil, or_false] at hmark
      rcases hmark with rfl | rfl | rfl | rfl | rfl | rfl | rfl | rfl <;> decide
    · exact escapedChar_of_isDigit hdigit

theorem flatMap_escapeOpen {f : Form} (h : f.Unquoted) :
    f.render.flatMap escapeOpen = f.toJson.render := by
  apply flatMap_render
  · intro c hc
    exact escapeOpen_of_isMark hc
  · intro s hs
    apply List.flatMap_congr
    intro c hc
    have hquote : c ≠ '"' := by
      rintro rfl
      exact h s hs hc
    rw [escapeOpen, if_neg hquote]

/-- Forms without quotes in their texts are told apart by what is printed for them. -/
theorem eq_of_text_eq {f g : Form} (hf : f.Unquoted) (hg : g.Unquoted) (h : f.text = g.text) :
    f = g := by
  have hrender : f.render = g.render := String.ofList_injective h
  apply eq_of_toJson_eq
  apply Json.eq_of_text_eq (floats_toJson f) (floats_toJson g)
  rw [Json.text, Json.text, ← flatMap_escapeOpen hf, ← flatMap_escapeOpen hg, hrender]

end Form

end SchemaEvolution.Avro
