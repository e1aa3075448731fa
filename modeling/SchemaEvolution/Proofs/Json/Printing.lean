import SchemaEvolution.Json.Pointer
import SchemaEvolution.Proofs.Json.Reading

namespace SchemaEvolution.Json

open Decimal (Binary64)

mutual

def floats : Json → List Binary64
  | .number (.float x) => [x]
  | .array xs => floatsItems xs
  | .object ms => floatsMembers ms
  | _ => []

def floatsItems : List Json → List Binary64
  | [] => []
  | x :: xs => x.floats ++ floatsItems xs

def floatsMembers : List (String × Json) → List Binary64
  | [] => []
  | (_, x) :: ms => x.floats ++ floatsMembers ms

end

@[simp] theorem mem_floatsItems {f : Binary64} {xs : List Json} :
    f ∈ floatsItems xs ↔ ∃ x ∈ xs, f ∈ x.floats := by
  induction xs with
  | nil => simp [floatsItems]
  | cons x xs ih => simp [floatsItems, ih]

@[simp] theorem mem_floatsMembers {f : Binary64} {ms : List (String × Json)} :
    f ∈ floatsMembers ms ↔ ∃ m ∈ ms, f ∈ m.2.floats := by
  induction ms with
  | nil => simp [floatsMembers]
  | cons m ms ih => simp [floatsMembers, ih]

def Number.ReadsBack (n : Number) : Prop := ofNumeral? n.render = some n

def Numeral.ofNat (negative : Bool) (n : Nat) : Numeral where
  negative := negative
  whole := Nat.toDigits 10 n
  fraction := none
  exponent := none
  whole_ne_nil := Nat.toDigits_ne_nil
  isDigit_whole := fun _ => Nat.isDigit_of_mem_toDigits (by decide) (by decide)
  leadingZero := fun h => by
    cases n with
    | zero => rfl
    | succ n => exact absurd h (Pointer.head?_toDigits_ne_zero n.succ_pos)
  fraction_ne_nil := nofun
  isDigit_fraction := nofun

@[simp] theorem ofDigits_toDigits (n : Nat) : ofDigits ((Nat.toDigits 10 n).map digitValue) = n := by
  rw [ofDigits, List.foldl_map]
  exact Nat.ofDigitChars_eq_foldl.symm.trans Nat.ofDigitChars_ten_toDigits

@[simp] theorem Numeral.text_ofNat (negative : Bool) (n : Nat) :
    (ofNat negative n).text = signText negative ++ Nat.toDigits 10 n := by
  simp [text, ofNat, fractionText, exponentText]

theorem Numeral.number?_ofNat (negative : Bool) (n : Nat) :
    (ofNat negative n).literal.number? =
      if negative then
        if 0 < n ∧ n ≤ Nat.pow 2 63 then some (.integer (-n)) else (ofNat negative n).literal.float?
      else if n ≤ Literal.greatestWord then some (.integer n)
      else (ofNat negative n).literal.float? := by
  have hn : ofDigits (ofNat negative n).literal.whole = n := ofDigits_toDigits n
  rw [Literal.number?, hn]
  rfl

theorem Literal.float?_ne_integer (l : Literal) (i : Int) : l.float? ≠ some (.integer i) := by
  intro h
  obtain ⟨x, -, h⟩ := Option.bind_eq_some_iff.1 h
  cases h

theorem Literal.range_of_number? {l : Literal} {i : Int} (h : l.number? = some (.integer i)) :
    (∃ n : Nat, n ≤ greatestWord ∧ i = n) ∨ ∃ n : Nat, 0 < n ∧ n ≤ Nat.pow 2 63 ∧ i = -n := by
  unfold number? at h
  dsimp only at h
  split at h
  · exact absurd h (l.float?_ne_integer i)
  · split at h
    · split at h
      next hn =>
        cases h
        exact .inr ⟨_, hn.1, hn.2, rfl⟩
      · exact absurd h (l.float?_ne_integer i)
    · split at h
      next hn =>
        cases h
        exact .inl ⟨_, hn, rfl⟩
      · exact absurd h (l.float?_ne_integer i)

@[simp] theorem Number.render_ofNat (n : Nat) :
    (Number.integer n).render = (Numeral.ofNat false n).text := (Numeral.text_ofNat false n).symm

@[simp] theorem Number.render_neg_succ (n : Nat) :
    (Number.integer (-(n.succ : Int))).render = (Numeral.ofNat true n.succ).text :=
  (Numeral.text_ofNat true n.succ).symm

theorem Number.readsBack_ofNat {n : Nat} (h : n ≤ Literal.greatestWord) :
    (Number.integer n).ReadsBack := by
  rw [ReadsBack, render_ofNat, Numeral.ofNumeral?_text, Numeral.number?_ofNat,
    if_neg Bool.false_ne_true, if_pos h]

theorem Number.readsBack_neg_succ {n : Nat} (h : n.succ ≤ Nat.pow 2 63) :
    (Number.integer (-(n.succ : Int))).ReadsBack := by
  rw [ReadsBack, render_neg_succ, Numeral.ofNumeral?_text, Numeral.number?_ofNat, if_pos rfl,
    if_pos ⟨n.succ_pos, h⟩]

theorem Number.readsBack_integer {cs : List Char} {i : Int}
    (h : ofNumeral? cs = some (.integer i)) : (Number.integer i).ReadsBack := by
  unfold ofNumeral? at h
  split at h
  · obtain ⟨n, hn, rfl⟩ | ⟨n, hpos, hn, rfl⟩ := Literal.range_of_number? h
    · exact readsBack_ofNat hn
    · obtain ⟨m, rfl⟩ := Nat.exists_eq_succ_of_ne_zero (Nat.ne_of_gt hpos)
      exact readsBack_neg_succ hn
  · cases h

theorem Number.exists_numeral_integer (i : Int) : ∃ n : Numeral, (Number.integer i).render = n.text ∧
    i = if n.negative then -(ofDigits n.literal.whole : Int) else ofDigits n.literal.whole := by
  cases i with
  | ofNat n =>
    exact ⟨_, render_ofNat n, congrArg (fun m : Nat => (m : Int)) (ofDigits_toDigits n).symm⟩
  | negSucc n =>
    exact ⟨_, render_neg_succ n,
      congrArg (fun m : Nat => -(m : Int)) (ofDigits_toDigits n.succ).symm⟩

theorem Number.spells_integer (i : Int) :
    Spells (.number (Number.integer i).render) (Number.integer i).render := by
  obtain ⟨n, htext, -⟩ := exists_numeral_integer i
  rw [htext]
  exact .number n

mutual

def form : Json → Form
  | .null => .null
  | .bool b => .bool b
  | .number n => .number n.render
  | .string s => .string s
  | .array xs => .array (formItems xs)
  | .object ms => .object (formMembers ms)

def formItems : List Json → List Form
  | [] => []
  | x :: xs => x.form :: formItems xs

def formMembers : List (String × Json) → List (String × Form)
  | [] => []
  | (k, x) :: ms => (k, x.form) :: formMembers ms

end

mutual

theorem spells_form {v : Json} (h : ∀ x ∈ v.floats, (Number.float x).ReadsBack) :
    Spells v.form v.render := by
  match v with
  | .null => exact .null
  | .bool true => exact .true
  | .bool false => exact .false
  | .number (.integer i) => exact Number.spells_integer i
  | .number (.float x) => exact spells_of_ofNumeral? (h x (.head _))
  | .string s => exact .string (spellsText_escaped s.toList)
  | .array [] => exact .noItems blank_nil
  | .array (x :: xs) => exact .array blank_nil (spellsItems_form (List.cons_ne_nil x xs) h)
  | .object [] => exact .noMembers blank_nil
  | .object (m :: ms) => exact .object blank_nil (spellsMembers_form (List.cons_ne_nil m ms) h)

theorem spellsItems_form {xs : List Json} (hne : xs ≠ [])
    (h : ∀ x ∈ floatsItems xs, (Number.float x).ReadsBack) :
    SpellsItems (formItems xs) (renderItems xs) := by
  match xs with
  | [x] =>
    rw [← List.append_nil (renderItems [x])]
    exact .last (spells_form (List.forall_mem_append.1 h).1) blank_nil
  | x :: y :: ys =>
    obtain ⟨hx, hys⟩ := List.forall_mem_append.1 h
    exact .more (spells_form hx) blank_nil blank_nil (spellsItems_form (List.cons_ne_nil y ys) hys)

theorem spellsMembers_form {ms : List (String × Json)} (hne : ms ≠ [])
    (h : ∀ x ∈ floatsMembers ms, (Number.float x).ReadsBack) :
    SpellsMembers (formMembers ms) (renderMembers ms) := by
  match ms with
  | [(k, x)] =>
    have htext : renderMembers [(k, x)] = '"' :: (k.toList.flatMap escapedChar ++ '"' ::
        ([] ++ ':' :: ([] ++ (x.render ++ [])))) := by
      simp [renderMembers, renderString]
    rw [htext]
    exact .last (spellsText_escaped k.toList) blank_nil blank_nil
      (spells_form (List.forall_mem_append.1 h).1) blank_nil
  | (k, x) :: n :: ns =>
    obtain ⟨hx, hns⟩ := List.forall_mem_append.1 h
    have htext : renderMembers ((k, x) :: n :: ns) = '"' :: (k.toList.flatMap escapedChar ++ '"' ::
        ([] ++ ':' :: ([] ++ (x.render ++ ([] ++ ',' :: ([] ++ renderMembers (n :: ns))))))) := by
      simp [renderMembers, renderString]
    rw [htext]
    exact .more (spellsText_escaped k.toList) blank_nil blank_nil (spells_form hx) blank_nil
      blank_nil (spellsMembers_form (List.cons_ne_nil n ns) hns)

end

theorem document_render {v : Json} (h : ∀ x ∈ v.floats, (Number.float x).ReadsBack) :
    v.form.Document v.render := by
  have h := Form.Document.mk blank_nil (spells_form h) blank_nil
  rwa [List.nil_append, List.append_nil] at h

theorem valueItems?_formItems {d : Nat} {xs : List Json}
    (h : ∀ x ∈ xs, x.form.value? d = some x) : Form.valueItems? d (formItems xs) = some xs := by
  induction xs with
  | nil => rfl
  | cons x xs ih =>
    obtain ⟨hx, hxs⟩ := List.forall_mem_cons.1 h
    simp [formItems, Form.valueItems?, hx, ih hxs]

theorem valueMembers?_formMembers {d : Nat} {ms : List (String × Json)}
    (h : ∀ m ∈ ms, m.2.form.value? d = some m.2) :
    Form.valueMembers? d (formMembers ms) = some ms := by
  induction ms with
  | nil => rfl
  | cons m ms ih =>
    obtain ⟨k, x⟩ := m
    obtain ⟨hx, hms⟩ := List.forall_mem_cons.1 h
    simp [formMembers, Form.valueMembers?, hx, ih hms]

theorem ofMembers_of_sorted {ms : List (String × Json)}
    (h : (ms.map (·.1)).Pairwise (· < ·)) : ofMembers ms = .object ms :=
  congrArg Json.object (Names.foldl_put_eq_append ms [] h)

theorem value?_form_ofMembers {d : Nat} {ms : List (String × Json)}
    (h : ∀ m ∈ ms, (∀ x ∈ m.2.floats, (Number.float x).ReadsBack) →
      m.2.form.value? d = some m.2)
    (hfloats : ∀ x ∈ (ofMembers ms).floats, (Number.float x).ReadsBack) :
    (ofMembers ms).form.value? (d + 1) = some (ofMembers ms) := by
  have hmembers (m : String × Json) (hm : m ∈ ms.foldl (fun ms m => Names.put m.1 m.2 ms) []) :
      m.2.form.value? d = some m.2 := by
    refine h m ?_ fun x hx => hfloats x (mem_floatsMembers.2 ⟨m, hm, hx⟩)
    exact (Names.mem_of_mem_foldl_put ms hm).resolve_left List.not_mem_nil
  have hsorted := Names.sorted_keys_foldl_put ms [] .nil
  rw [ofMembers, form, Form.value?, valueMembers?_formMembers hmembers, Option.map_some,
    ofMembers_of_sorted hsorted]

mutual

theorem value?_form {d : Nat} {t : Form} {v : Json} (h : t.value? d = some v)
    (hfloats : ∀ x ∈ v.floats, (Number.float x).ReadsBack) : v.form.value? d = some v := by
  match d, t with
  | _, .null => cases h; rfl
  | _, .bool b => cases h; rfl
  | _, .string s => cases h; rfl
  | _, .number cs =>
    obtain ⟨n, hn, rfl⟩ := Option.map_eq_some_iff.1 h
    have hback : n.ReadsBack := by
      cases n with
      | integer i => exact Number.readsBack_integer hn
      | float x => exact hfloats x (.head _)
    rw [form, Form.value?, hback, Option.map_some]
  | d + 1, .array xs =>
    obtain ⟨vs, hvs, rfl⟩ := Option.map_eq_some_iff.1 h
    have hitems (v : Json) (hv : v ∈ vs) : v.form.value? d = some v := by
      apply value?_form_of_mem_items hvs hv
      intro x hx
      exact hfloats x (mem_floatsItems.2 ⟨v, hv, hx⟩)
    rw [form, Form.value?, valueItems?_formItems hitems, Option.map_some]
  | d + 1, .object ms =>
    obtain ⟨vs, hvs, rfl⟩ := Option.map_eq_some_iff.1 h
    exact value?_form_ofMembers (fun m hm => value?_form_of_mem_members hvs hm) hfloats

theorem value?_form_of_mem_items {d : Nat} {xs : List Form} {vs : List Json}
    (h : Form.valueItems? d xs = some vs) {v : Json} (hv : v ∈ vs)
    (hfloats : ∀ x ∈ v.floats, (Number.float x).ReadsBack) : v.form.value? d = some v := by
  match xs with
  | [] =>
    cases h
    cases hv
  | x :: xs =>
    obtain ⟨w, hw, h⟩ := Option.bind_eq_some_iff.1 h
    obtain ⟨ws, hws, h⟩ := Option.bind_eq_some_iff.1 h
    cases h
    obtain rfl | hv := List.mem_cons.1 hv
    · exact value?_form hw hfloats
    · exact value?_form_of_mem_items hws hv hfloats

theorem value?_form_of_mem_members {d : Nat} {ms : List (String × Form)}
    {vs : List (String × Json)} (h : Form.valueMembers? d ms = some vs) {m : String × Json}
    (hm : m ∈ vs) (hfloats : ∀ x ∈ m.2.floats, (Number.float x).ReadsBack) :
    m.2.form.value? d = some m.2 := by
  match ms with
  | [] =>
    cases h
    cases hm
  | (k, x) :: ms =>
    obtain ⟨w, hw, h⟩ := Option.bind_eq_some_iff.1 h
    obtain ⟨ws, hws, h⟩ := Option.bind_eq_some_iff.1 h
    cases h
    obtain rfl | hm := List.mem_cons.1 hm
    · exact value?_form hw hfloats
    · exact value?_form_of_mem_members hws hm hfloats

end

theorem ofChars?_render {cs : List Char} {v : Json} (h : ofChars? cs = some v)
    (hfloats : ∀ x ∈ v.floats, (Number.float x).ReadsBack) : ofChars? v.render = some v := by
  obtain ⟨t, -, hvalue⟩ := exists_document_of_ofChars? h
  rw [ofChars?_of_document (document_render hfloats), value?_form hvalue hfloats]

end SchemaEvolution.Json
