import Mathlib.Data.List.TakeWhile
import SchemaEvolution.Json.Parser

namespace SchemaEvolution.Json

def Ends (p : Char → Bool) (rest : List Char) : Prop := ∀ c ∈ rest.head?, p c = false

@[simp] theorem ends_nil {p : Char → Bool} : Ends p [] := by simp [Ends]

@[simp] theorem ends_cons {p : Char → Bool} {c : Char} {cs : List Char} :
    Ends p (c :: cs) ↔ p c = false := by simp [Ends]

def digitValue (c : Char) : Nat := c.toNat - '0'.toNat

def exponentMarks : List Char := ['e', 'E']

theorem forall_mem_exponentMarks {p : Char → Prop} :
    (∀ c ∈ exponentMarks, p c) ↔ p 'e' ∧ p 'E' := by
  simp [exponentMarks]

structure Exponent where
  mark : Char
  sign : List Char
  digits : List Char
  mark_mem : mark ∈ exponentMarks
  sign_mem : sign ∈ [[], ['+'], ['-']]
  digits_ne_nil : digits ≠ []
  isDigit_digits : ∀ c ∈ digits, c.isDigit

structure Numeral where
  negative : Bool
  whole : List Char
  fraction : Option (List Char)
  exponent : Option Exponent
  whole_ne_nil : whole ≠ []
  isDigit_whole : ∀ c ∈ whole, c.isDigit
  leadingZero : whole.head? = some '0' → whole = ['0']
  fraction_ne_nil : ∀ ds ∈ fraction, ds ≠ []
  isDigit_fraction : ∀ ds ∈ fraction, ∀ c ∈ ds, c.isDigit

namespace Exponent

def text (x : Exponent) : List Char := x.mark :: x.sign ++ x.digits

def value (x : Exponent) : Int :=
  let n : Int := ofDigits (x.digits.map digitValue)
  if x.sign = ['-'] then -n else n

end Exponent

namespace Numeral

def fractionText : Option (List Char) → List Char
  | none => []
  | some ds => '.' :: ds

def exponentText : Option Exponent → List Char
  | none => []
  | some x => x.text

def signText (negative : Bool) : List Char := if negative then ['-'] else []

def text (n : Numeral) : List Char :=
  signText n.negative ++ (n.whole ++ (fractionText n.fraction ++ exponentText n.exponent))

def literal (n : Numeral) : Literal where
  negative := n.negative
  whole := n.whole.map digitValue
  fraction := n.fraction.map (·.map digitValue)
  exponent := n.exponent.map Exponent.value

def goesOn (c : Char) : Bool := c.isDigit || c = '.' || c ∈ exponentMarks

end Numeral

variable {cs ds rest : List Char}

theorem takeDigits_append (hds : ∀ c ∈ ds, c.isDigit) (hrest : Ends Char.isDigit rest) :
    takeDigits (ds ++ rest) = (ds.map digitValue, rest) := by
  have htake : rest.takeWhile Char.isDigit = [] ∧ rest.dropWhile Char.isDigit = rest := by
    cases rest with
    | nil => exact ⟨rfl, rfl⟩
    | cons c cs => simp [ends_cons.1 hrest]
  rw [takeDigits, List.takeWhile_append_of_pos hds, List.dropWhile_append_of_pos hds, htake.1,
    htake.2, List.append_nil]
  rfl

theorem digitValue_eq_zero {c : Char} (h : c.isDigit) (hzero : digitValue c = 0) : c = '0' := by
  have hc : 48 ≤ c.toNat ∧ c.toNat ≤ 57 := Char.isDigit_iff_toNat.1 h
  have hzero : c.toNat - 48 = 0 := hzero
  apply Char.toNat_inj.1
  change c.toNat = 48
  omega

theorem takeWhole?_append (hne : ds ≠ []) (hds : ∀ c ∈ ds, c.isDigit)
    (hz : ds.head? = some '0' → ds = ['0']) (hrest : Ends Char.isDigit rest) :
    takeWhole? (ds ++ rest) = some (ds.map digitValue, rest) := by
  unfold takeWhole?
  rw [takeDigits_append hds hrest]
  split
  next h => exact absurd (List.map_eq_nil_iff.1 (Prod.mk.inj h).1) hne
  next h =>
    obtain ⟨c, tail, rfl, hzero, htail⟩ := List.map_eq_cons_iff.1 (Prod.mk.inj h).1
    rw [digitValue_eq_zero (hds c (.head _)) hzero] at hz
    rw [(List.cons.inj (hz rfl)).2] at htail
    cases htail
  next => rfl

theorem takeFraction?_append {f : Option (List Char)} (hne : ∀ ds ∈ f, ds ≠ [])
    (hds : ∀ ds ∈ f, ∀ c ∈ ds, c.isDigit) (hrest : Ends Char.isDigit rest)
    (hpoint : Ends (· = '.') rest) :
    takeFraction? (Numeral.fractionText f ++ rest) = some (f.map (·.map digitValue), rest) := by
  cases f with
  | none =>
    cases rest with
    | nil => rfl
    | cons c cs =>
      have hc : c ≠ '.' := by simpa using ends_cons.1 hpoint
      change takeFraction? (c :: cs) = _
      unfold takeFraction?
      split
      next heq => exact absurd (List.cons.inj heq).1 hc
      next => rfl
  | some ds =>
    change takeFraction? ('.' :: (ds ++ rest)) = _
    rw [takeFraction?, takeDigits_append (hds ds rfl) hrest]
    cases ds with
    | nil => exact absurd rfl (hne [] rfl)
    | cons d ds => rfl

theorem Exponent.takeSign_append (x : Exponent) :
    takeSign (x.sign ++ (x.digits ++ rest)) = (decide (x.sign = ['-']), x.digits ++ rest) := by
  have hsign := x.sign_mem
  simp only [List.mem_cons, List.not_mem_nil, or_false] at hsign
  obtain h | h | h := hsign
  · obtain ⟨d, ds, hds⟩ := List.exists_cons_of_ne_nil x.digits_ne_nil
    have hd : d.isDigit := x.isDigit_digits d (hds ▸ .head ds)
    rw [h, hds]
    change takeSign (d :: (ds ++ rest)) = _
    unfold takeSign
    split
    next heq => cases heq; exact absurd hd (by decide)
    next heq => cases heq; exact absurd hd (by decide)
    next => rfl
  · rw [h]; rfl
  · rw [h]; rfl

theorem takeExponent?_append {x : Option Exponent} (hrest : Ends Char.isDigit rest)
    (hmark : Ends (· ∈ exponentMarks) rest) :
    takeExponent? (Numeral.exponentText x ++ rest) = some (x.map Exponent.value, rest) := by
  cases x with
  | none =>
    cases rest with
    | nil => rfl
    | cons c cs =>
      have hc := ends_cons.1 hmark
      simp only [exponentMarks, List.mem_cons, List.not_mem_nil, or_false, decide_eq_false_iff_not,
        not_or] at hc
      change takeExponent? (c :: cs) = _
      simp [takeExponent?, hc]
  | some x =>
    have hmark : x.mark == 'e' || x.mark == 'E' := by simpa [exponentMarks] using x.mark_mem
    have hdigits := takeDigits_append x.isDigit_digits hrest
    change takeExponent? (x.mark :: (x.sign ++ x.digits ++ rest)) = _
    rw [takeExponent?, if_pos hmark, List.append_assoc, x.takeSign_append]
    dsimp only
    rw [hdigits]
    cases hx : x.digits with
    | nil => exact absurd hx x.digits_ne_nil
    | cons d ds => simp [Exponent.value, hx]

namespace Numeral

theorem ends_fractionText (f : Option (List Char)) (hrest : Ends Char.isDigit rest) :
    Ends Char.isDigit (fractionText f ++ rest) := by
  cases f with
  | none => exact hrest
  | some ds => exact ends_cons.2 rfl

theorem ends_exponentText {p : Char → Bool} (x : Option Exponent)
    (hp : ∀ c ∈ exponentMarks, p c = false) (hrest : Ends p rest) :
    Ends p (exponentText x ++ rest) := by
  cases x with
  | none => exact hrest
  | some x => exact ends_cons.2 (hp x.mark x.mark_mem)

theorem whole_append_ne_minus (n : Numeral) (cs : List Char) : n.whole ++ rest ≠ '-' :: cs := by
  obtain ⟨d, ds, hds⟩ := List.exists_cons_of_ne_nil n.whole_ne_nil
  have hd : d.isDigit := n.isDigit_whole d (hds ▸ .head ds)
  intro h
  rw [hds, List.cons_append] at h
  rw [(List.cons.inj h).1] at hd
  exact absurd hd (by decide)

theorem takeLiteral?_text (n : Numeral) (hrest : Ends goesOn rest) :
    takeLiteral? (n.text ++ rest) = some (n.literal, rest) := by
  have hends {p : Char → Bool} (hp : ∀ c, p c → goesOn c) : Ends p rest := by
    intro c hc
    apply Bool.eq_false_iff.2
    intro h
    exact Bool.eq_false_iff.1 (hrest c hc) (hp c h)
  have hdigit : Ends Char.isDigit rest := by
    apply hends
    intro c h
    simp [goesOn, h]
  have hpoint : Ends (· = '.') rest := by
    apply hends
    intro c h
    simp_all [goesOn]
  have hmark : Ends (· ∈ exponentMarks) rest := by
    apply hends
    intro c h
    simp_all [goesOn]
  have hexponent : Ends Char.isDigit (exponentText n.exponent ++ rest) :=
    ends_exponentText _ (forall_mem_exponentMarks.2 ⟨rfl, rfl⟩) hdigit
  have hpoint : Ends (· = '.') (exponentText n.exponent ++ rest) :=
    ends_exponentText _ (forall_mem_exponentMarks.2 ⟨rfl, rfl⟩) hpoint
  have hwhole := takeWhole?_append n.whole_ne_nil n.isDigit_whole n.leadingZero
    (ends_fractionText n.fraction hexponent)
  have hfraction := takeFraction?_append n.fraction_ne_nil n.isDigit_fraction hexponent hpoint
  have hexponent := takeExponent?_append (x := n.exponent) hdigit hmark
  rw [text, List.append_assoc, List.append_assoc, List.append_assoc, signText]
  split
  next hn =>
    rw [List.singleton_append, takeLiteral?]
    simp only [Option.bind_eq_bind, hwhole, hfraction, hexponent, Option.bind_some]
    rw [literal, hn]
    rfl
  next hn =>
    rw [List.nil_append, takeLiteral?]
    · simp only [Option.bind_eq_bind, hwhole, hfraction, hexponent, Option.bind_some]
      rw [literal, Bool.eq_false_iff.2 hn]
      rfl
    · exact n.whole_append_ne_minus

end Numeral

theorem of_takeDigits {values : List Nat} (h : takeDigits cs = (values, rest)) :
    ∃ ds, (∀ c ∈ ds, c.isDigit) ∧ cs = ds ++ rest ∧ values = ds.map digitValue := by
  obtain ⟨rfl, rfl⟩ := Prod.mk.inj h
  refine ⟨cs.takeWhile Char.isDigit, ?_, List.takeWhile_append_dropWhile.symm, rfl⟩
  intro c
  exact List.mem_takeWhile_imp

theorem of_takeWhole? {values : List Nat} (h : takeWhole? cs = some (values, rest)) :
    ∃ ds, ds ≠ [] ∧ (∀ c ∈ ds, c.isDigit) ∧ (ds.head? = some '0' → ds = ['0']) ∧
      cs = ds ++ rest ∧ values = ds.map digitValue := by
  unfold takeWhole? at h
  split at h
  · cases h
  · cases h
  next hnil hzero =>
    obtain ⟨ds, hds, hcs, hvalues⟩ := of_takeDigits (Option.some.inj h)
    refine ⟨ds, ?_, hds, ?_, hcs, hvalues⟩
    · rintro rfl
      exact hnil rest (by rw [Option.some.inj h, hvalues]; rfl)
    · intro hhead
      match ds with
      | c :: [] => exact congrArg (· :: []) (Option.some.inj hhead)
      | c :: d :: tail =>
        cases hhead
        exact (hzero _ _ rest (by rw [Option.some.inj h, hvalues]; rfl)).elim

theorem of_takeFraction? {values : Option (List Nat)} (h : takeFraction? cs = some (values, rest)) :
    ∃ f : Option (List Char), (∀ ds ∈ f, ds ≠ []) ∧ (∀ ds ∈ f, ∀ c ∈ ds, c.isDigit) ∧
      cs = Numeral.fractionText f ++ rest ∧ values = f.map (·.map digitValue) := by
  unfold takeFraction? at h
  split at h
  next tail =>
    split at h
    · cases h
    next hnil hdigits =>
      obtain ⟨rfl, rfl⟩ := Prod.mk.inj (Option.some.inj h)
      obtain ⟨ds, hds, rfl, rfl⟩ := of_takeDigits hdigits
      have hne : ds ≠ [] := by
        rintro rfl
        exact hnil rfl
      exact ⟨some ds, by simpa using hne, by simpa using hds, rfl, rfl⟩
  · obtain ⟨rfl, rfl⟩ := Prod.mk.inj (Option.some.inj h)
    exact ⟨none, nofun, nofun, rfl, rfl⟩

theorem of_takeSign {negative : Bool} (h : takeSign cs = (negative, rest)) :
    ∃ sign ∈ [[], ['+'], ['-']], cs = sign ++ rest ∧ negative = decide (sign = ['-']) := by
  unfold takeSign at h
  split at h
  · obtain ⟨rfl, rfl⟩ := Prod.mk.inj h
    exact ⟨['-'], by decide, rfl, rfl⟩
  · obtain ⟨rfl, rfl⟩ := Prod.mk.inj h
    exact ⟨['+'], by decide, rfl, rfl⟩
  · obtain ⟨rfl, rfl⟩ := Prod.mk.inj h
    exact ⟨[], by decide, rfl, rfl⟩

theorem of_takeExponent? {value : Option Int} (h : takeExponent? cs = some (value, rest)) :
    ∃ x : Option Exponent, cs = Numeral.exponentText x ++ rest ∧ value = x.map Exponent.value := by
  unfold takeExponent? at h
  split at h
  · cases h
    exact ⟨none, rfl, rfl⟩
  next c tail =>
    split at h
    next hmark =>
      split at h
      next negative cs' hsign =>
      split at h
      · cases h
      next hnil hdigits =>
        obtain ⟨rfl, rfl⟩ := Prod.mk.inj (Option.some.inj h)
        obtain ⟨sign, hmem, rfl, rfl⟩ := of_takeSign hsign
        obtain ⟨ds, hds, rfl, rfl⟩ := of_takeDigits hdigits
        have hmark : c ∈ exponentMarks := by simpa [exponentMarks] using hmark
        have hne : ds ≠ [] := by
          rintro rfl
          exact hnil rfl
        refine ⟨some ⟨c, sign, ds, hmark, hmem, hne, hds⟩, ?_, ?_⟩
        · simp [Numeral.exponentText, Exponent.text]
        · simp [Exponent.value]
    · cases h
      exact ⟨none, rfl, rfl⟩

theorem of_takeLiteral? {l : Literal} (h : takeLiteral? cs = some (l, rest)) :
    ∃ n : Numeral, cs = n.text ++ rest ∧ l = n.literal := by
  have hparts {negative : Bool} {tail : List Char} (h : ((takeWhole? tail).bind fun whole =>
      (takeFraction? whole.2).bind fun fraction =>
        (takeExponent? fraction.2).bind fun exponent =>
          some (⟨negative, whole.1, fraction.1, exponent.1⟩, exponent.2)) = some (l, rest)) :
      ∃ n : Numeral, Numeral.signText negative ++ tail = n.text ++ rest ∧ l = n.literal := by
    obtain ⟨⟨_, _⟩, hwhole, h⟩ := Option.bind_eq_some_iff.1 h
    obtain ⟨⟨_, _⟩, hfraction, h⟩ := Option.bind_eq_some_iff.1 h
    obtain ⟨⟨_, _⟩, hexponent, h⟩ := Option.bind_eq_some_iff.1 h
    obtain ⟨rfl, rfl⟩ := Prod.mk.inj (Option.some.inj h)
    obtain ⟨w, hw, hwd, hz, rfl, rfl⟩ := of_takeWhole? hwhole
    obtain ⟨f, hf, hfd, rfl, rfl⟩ := of_takeFraction? hfraction
    obtain ⟨x, rfl, rfl⟩ := of_takeExponent? hexponent
    exact ⟨⟨negative, w, f, x, hw, hwd, hz, hf, hfd⟩, by simp [Numeral.text], rfl⟩
  rw [takeLiteral?.eq_def] at h
  dsimp only at h
  split at h
  · exact hparts h
  · exact hparts h

end SchemaEvolution.Json
