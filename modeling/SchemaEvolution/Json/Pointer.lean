import SchemaEvolution.Json.Basic
import SchemaEvolution.Text.Split

namespace SchemaEvolution

abbrev Pointer := List String

namespace Pointer

def text (p : Pointer) : String := String.join (p.map ("/" ++ ·))

def ofText? (s : String) : Option Pointer :=
  match s.toList with
  | [] => some []
  | '/' :: cs => some ((Text.splitAt '/' cs).map String.ofList)
  | _ => none

def escapeChars : List Char → List Char
  | [] => []
  | '~' :: cs => '~' :: '0' :: escapeChars cs
  | '/' :: cs => '~' :: '1' :: escapeChars cs
  | c :: cs => c :: escapeChars cs

def unescapeChars : List Char → List Char
  | [] => []
  | '~' :: '0' :: cs => '~' :: unescapeChars cs
  | '~' :: '1' :: cs => '/' :: unescapeChars cs
  | c :: cs => c :: unescapeChars cs

theorem unescapeChars_escapeChars (cs : List Char) : unescapeChars (escapeChars cs) = cs := by
  fun_induction escapeChars cs with
  | case1 => rfl
  | case2 cs ih => simp [unescapeChars, ih]
  | case3 cs ih => simp [unescapeChars, ih]
  | case4 c cs h₁ h₂ ih =>
    rw [unescapeChars, ih]
    · rintro _ rfl; exact absurd rfl (h₁ · )
    · rintro _ rfl; exact absurd rfl (h₁ · )

def escape (key : String) : String := String.ofList (escapeChars key.toList)

def unescape (token : String) : String := String.ofList (unescapeChars token.toList)

@[simp] theorem unescape_escape (key : String) : unescape (escape key) = key := by
  simp [unescape, escape, unescapeChars_escapeChars]

def index (i : Nat) : String := String.ofList (Nat.toDigits 10 i)

def index? (token : String) : Option Nat :=
  match token.toList with
  | [] => none
  | '0' :: _ :: _ => none
  | cs => if cs.all Char.isDigit then some (Nat.ofDigitChars 10 cs 0) else none

theorem head?_toDigits_ne_zero {n : Nat} (h : 0 < n) : (Nat.toDigits 10 n).head? ≠ some '0' := by
  induction n using Nat.strongRecOn with
  | ind n ih =>
    by_cases hn : n < 10
    · rw [Nat.toDigits_of_lt_base hn]
      have : ∀ m < 10, 0 < m → [m.digitChar].head? ≠ some '0' := by decide
      exact this n hn h
    · have hm := ih (n / 10) (by omega) (by omega)
      rw [Nat.toDigits_of_base_le (by decide) (by omega), List.head?_append]
      cases hd : (Nat.toDigits 10 (n / 10)).head? with
      | none => exact absurd (List.head?_eq_none_iff.1 hd) Nat.toDigits_ne_nil
      | some c => rwa [hd] at hm

@[simp] theorem index?_index (i : Nat) : index? (index i) = some i := by
  simp only [index?, index, String.toList_ofList]
  split
  next h => simp at h
  next d ds h =>
    cases i with
    | zero => simp at h
    | succ i => exact absurd (congrArg List.head? h) (head?_toDigits_ne_zero i.succ_pos)
  next =>
    have hd : (Nat.toDigits 10 i).all Char.isDigit = true := by
      apply List.all_eq_true.2
      intro c hc
      exact Nat.isDigit_of_mem_toDigits (by decide) (by decide) hc
    simp [hd, Nat.ofDigitChars_ten_toDigits]

def step (v : Json) (token : String) : Option Json :=
  match v with
  | .object ms => Names.find? (unescape token) ms
  | .array xs => index? token >>= fun i => xs[i]?
  | _ => none

def find? (p : Pointer) (root : Json) : Option Json := p.foldlM step root

@[simp] theorem find?_nil (root : Json) : find? [] root = some root := rfl

@[simp] theorem find?_append (p q : Pointer) (root : Json) :
    find? (p ++ q) root = find? p root >>= find? q := by
  simp only [find?, List.foldlM_append]
  rfl

end Pointer

end SchemaEvolution
