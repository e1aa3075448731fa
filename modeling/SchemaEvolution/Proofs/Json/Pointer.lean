import Mathlib.Data.List.Induction
import SchemaEvolution.Json.Pointer

namespace SchemaEvolution

namespace Text

theorem splitAt_of_notMem {sep : Char} {cs : List Char} (h : sep ∉ cs) : splitAt sep cs = [cs] := by
  induction cs with
  | nil => rfl
  | cons c cs ih =>
    rw [List.mem_cons, not_or] at h
    rw [splitAt, if_neg (Ne.symm h.1), ih h.2]

theorem splitAt_append_cons {sep : Char} {cs : List Char} (h : sep ∉ cs) (rest : List Char) :
    splitAt sep (cs ++ sep :: rest) = cs :: splitAt sep rest := by
  induction cs with
  | nil => simp [splitAt]
  | cons c cs ih =>
    rw [List.mem_cons, not_or] at h
    rw [List.cons_append, splitAt, if_neg (Ne.symm h.1), ih h.2]

theorem splitAt_ne_nil (sep : Char) (cs : List Char) : splitAt sep cs ≠ [] := by
  cases cs with
  | nil => simp [splitAt]
  | cons c cs =>
    rw [splitAt]
    split
    · simp
    · split <;> simp

theorem notMem_of_mem_splitAt {sep : Char} {cs piece : List Char} (h : piece ∈ splitAt sep cs) :
    sep ∉ piece := by
  induction cs generalizing piece with
  | nil => simp_all [splitAt]
  | cons c cs ih =>
    rw [splitAt] at h
    split at h
    · rcases List.mem_cons.1 h with rfl | h
      · exact List.not_mem_nil
      · exact ih h
    next hc =>
      split at h
      next hnil => exact absurd hnil (splitAt_ne_nil sep cs)
      next first pieces hsplit =>
        rcases List.mem_cons.1 h with rfl | h
        · have hfirst : sep ∉ first := ih (hsplit ▸ .head pieces)
          simp [hfirst, Ne.symm hc]
        · exact ih (hsplit ▸ .tail first h)

theorem flatMap_splitAt (sep : Char) (cs : List Char) :
    (splitAt sep cs).flatMap (sep :: ·) = sep :: cs := by
  induction cs with
  | nil => rfl
  | cons c cs ih =>
    rw [splitAt]
    split
    next hc => rw [List.flatMap_cons, ih, hc]; rfl
    next hc =>
      split
      next hnil => exact absurd hnil (splitAt_ne_nil sep cs)
      next first pieces hsplit =>
        rw [hsplit, List.flatMap_cons, List.cons_append] at ih
        rw [List.flatMap_cons, List.cons_append, List.cons_append, (List.cons.inj ih).2]

end Text

namespace Pointer

@[simp] theorem find?_cons {v : Json} {t : String} {p : Pointer} :
    find? (t :: p) v = step v t >>= find? p := rfl

def Plain (p : Pointer) : Prop := ∀ t ∈ p, '/' ∉ t.toList

theorem Plain.append {p q : Pointer} (hp : p.Plain) (hq : q.Plain) : Plain (p ++ q) := by
  intro t ht
  exact (List.mem_append.1 ht).elim (hp t) (hq t)

@[simp] theorem toList_text (p : Pointer) : p.text.toList = p.flatMap fun t => '/' :: t.toList := by
  rw [text, String.toList_join, List.flatMap_map]
  congr 1
  funext t
  simp

@[simp] theorem text_append (p q : Pointer) : text (p ++ q) = p.text ++ q.text := by
  apply String.toList_injective
  simp

theorem splitAt_tokens {t : String} {p : Pointer} (h : Plain (t :: p)) :
    Text.splitAt '/' (t.toList ++ p.flatMap fun t => '/' :: t.toList) =
      (t :: p).map String.toList := by
  induction p generalizing t with
  | nil => simpa using Text.splitAt_of_notMem (h t (.head _))
  | cons u p ih =>
    rw [List.flatMap_cons, List.cons_append, Text.splitAt_append_cons (h t (.head _)),
      ih fun v hv => h v (.tail t hv)]
    rfl

theorem ofText?_text {p : Pointer} (h : p.Plain) : ofText? p.text = some p := by
  unfold ofText?
  rw [toList_text]
  cases p with
  | nil => rfl
  | cons t p =>
    simp only [List.flatMap_cons, List.cons_append, splitAt_tokens h, List.map_map]
    congr 1
    exact (List.map_congr_left fun t _ => String.ofList_toList).trans (List.map_id _)

theorem ofText?_eq_some_iff {s : String} {p : Pointer} : ofText? s = some p ↔
    (s.toList = [] ∧ p = []) ∨
      ∃ cs, s.toList = '/' :: cs ∧ p = (Text.splitAt '/' cs).map String.ofList := by
  unfold ofText?
  cases s.toList with
  | nil => simp [eq_comm]
  | cons c cs =>
    by_cases hc : c = '/'
    · subst hc
      simp [eq_comm]
    · simp [hc]

theorem plain_of_ofText? {s : String} {p : Pointer} (h : ofText? s = some p) :
    p.Plain ∧ p.text = s := by
  obtain ⟨hs, rfl⟩ | ⟨cs, hs, rfl⟩ := ofText?_eq_some_iff.1 h
  · exact ⟨List.forall_mem_nil _, String.toList_injective (by rw [hs]; rfl)⟩
  · refine ⟨?_, String.toList_injective ?_⟩
    · intro t ht
      obtain ⟨piece, hpiece, rfl⟩ := List.mem_map.1 ht
      rw [String.toList_ofList]
      exact Text.notMem_of_mem_splitAt hpiece
    · rw [toList_text, List.flatMap_map, hs, ← Text.flatMap_splitAt]
      simp only [String.toList_ofList]

theorem exists_digitChar {c : Char} (h : c.isDigit) : ∃ d < 10, c = Nat.digitChar d := by
  have hc : '0'.toNat ≤ c.toNat ∧ c.toNat ≤ '9'.toNat := Char.isDigit_iff_toNat.1 h
  have hd : ∀ d < 10, Nat.digitChar d = Char.ofNat ('0'.toNat + d) := by decide
  have hlt : c.toNat - '0'.toNat < 10 := by have : '9'.toNat = '0'.toNat + 9 := rfl; omega
  refine ⟨c.toNat - '0'.toNat, hlt, ?_⟩
  rw [hd _ hlt, Nat.add_sub_of_le hc.1, Char.ofNat_toNat]

theorem toDigits_ofDigitChars {cs : List Char} (hne : cs ≠ []) (hd : ∀ c ∈ cs, c.isDigit)
    (hz : cs.head? = some '0' → cs = ['0']) : Nat.toDigits 10 (Nat.ofDigitChars 10 cs 0) = cs := by
  induction cs using List.reverseRecOn with
  | nil => exact absurd rfl hne
  | append_singleton cs c ih =>
    obtain ⟨d, hlt, rfl⟩ := exists_digitChar (hd c (by simp))
    rw [Nat.ofDigitChars_append, Nat.ofDigitChars_cons_digitChar_of_lt_ten hlt,
      Nat.ofDigitChars_nil]
    cases hcs : cs with
    | nil => simp [Nat.toDigits_of_lt_base hlt]
    | cons a as =>
      have ha : cs.head? ≠ some '0' := by
        intro h
        have := hz (by rw [List.head?_append, h]; rfl)
        simp [hcs] at this
      have hn := ih (by simp [hcs]) (fun x hx => hd x (by simp [hx])) (absurd · ha)
      have hpos : 0 < Nat.ofDigitChars 10 cs 0 := by
        refine Nat.pos_of_ne_zero fun h0 => ha ?_
        rw [h0] at hn
        rw [← hn]
        rfl
      rw [← hcs, ← Nat.toDigits_append_toDigits (by decide) hpos hlt, hn,
        Nat.toDigits_of_lt_base hlt]

theorem index?_eq_some_iff {token : String} {i : Nat} : index? token = some i ↔ token = index i := by
  constructor
  · intro h
    unfold index? at h
    split at h
    next => cases h
    next => cases h
    next hnil hzero =>
      split at h
      next hall =>
        cases h
        rw [index, toDigits_ofDigitChars hnil (List.all_eq_true.1 hall), String.ofList_toList]
        intro hhead
        cases hcs : token.toList with
        | nil => exact absurd hcs hnil
        | cons c cs =>
          cases cs with
          | nil => simpa [hcs] using hhead
          | cons d ds => simp [hcs] at hhead; exact absurd (hhead ▸ hcs) (hzero d ds)
      next => cases h
  · rintro rfl
    exact index?_index i

theorem notMem_escapeChars (cs : List Char) : '/' ∉ escapeChars cs := by
  fun_induction escapeChars cs with
  | case1 => simp
  | case2 cs ih => simp [ih]
  | case3 cs ih => simp [ih]
  | case4 c cs h₁ h₂ ih => simp [ih]; rintro rfl; exact absurd rfl (h₂ ·)

theorem escapeChars_eq_self {cs : List Char} (h : ∀ c ∈ cs, c ≠ '~' ∧ c ≠ '/') :
    escapeChars cs = cs := by
  fun_induction escapeChars cs with
  | case1 => rfl
  | case2 cs ih => exact absurd rfl (h '~' (.head cs)).1
  | case3 cs ih => exact absurd rfl (h '/' (.head cs)).2
  | case4 c cs h₁ h₂ ih => rw [ih fun d hd => h d (.tail c hd)]

def Standard (p : Pointer) : Prop := ∀ t ∈ p, escape (unescape t) = t

@[simp] theorem standard_cons {t : String} {p : Pointer} :
    Standard (t :: p) ↔ escape (unescape t) = t ∧ p.Standard := List.forall_mem_cons

@[simp] theorem step_escape (ms : List (String × Json)) (key : String) :
    step (.object ms) (escape key) = Names.find? key ms := by
  rw [step, unescape_escape]

@[simp] theorem step_index (xs : List Json) (i : Nat) : step (.array xs) (index i) = xs[i]? := by
  rw [step, index?_index]
  rfl

@[simp] theorem escape_unescape_escape (key : String) : escape (unescape (escape key)) = escape key := by
  rw [unescape_escape]

@[simp] theorem escape_index (i : Nat) : escape (index i) = index i := by
  rw [escape, index, String.toList_ofList, escapeChars_eq_self]
  intro c hc
  have hd : c.isDigit := Nat.isDigit_of_mem_toDigits (by decide) (by decide) hc
  exact ⟨by rintro rfl; exact absurd hd (by decide), by rintro rfl; exact absurd hd (by decide)⟩

@[simp] theorem escape_unescape_index (i : Nat) : escape (unescape (index i)) = index i := by
  rw [← escape_index i, unescape_escape]

theorem Standard.plain {p : Pointer} (h : p.Standard) : p.Plain := by
  intro t ht
  rw [← h t ht, escape, String.toList_ofList]
  exact notMem_escapeChars _

end Pointer

end SchemaEvolution
