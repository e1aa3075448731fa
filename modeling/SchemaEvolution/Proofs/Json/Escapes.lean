import SchemaEvolution.Json.Parser
import SchemaEvolution.Json.Printer

namespace SchemaEvolution.Json

inductive SpellsChar : Char → List Char → Prop
  | plain {c : Char} : 0x20 ≤ c.toNat → c ≠ '"' → c ≠ '\\' → SpellsChar c [c]
  | short {c e : Char} : simpleEscape? e = some c → SpellsChar c ['\\', e]
  | code {a b c d : Char} {n : Nat} : hexFour? a b c d = some n →
    ¬ isHighSurrogate n → ¬ isLowSurrogate n → SpellsChar (Char.ofNat n) ['\\', 'u', a, b, c, d]
  | pair {a b c d e f g h : Char} {hi lo : Nat} :
    hexFour? a b c d = some hi → isHighSurrogate hi →
    hexFour? e f g h = some lo → isLowSurrogate lo →
    SpellsChar (joinSurrogates hi lo) ['\\', 'u', a, b, c, d, '\\', 'u', e, f, g, h]

inductive SpellsText : List Char → List Char → Prop
  | nil : SpellsText [] []
  | cons {c : Char} {s es cs : List Char} : SpellsChar c es → SpellsText s cs →
    SpellsText (c :: s) (es ++ cs)

variable {c : Char} {s cs es rest : List Char}

theorem takeString?_of_spellsChar (h : SpellsChar c es) :
    takeString? (es ++ cs) = (takeString? cs).map (consChar c) := by
  cases h with
  | plain hc hquote hslash =>
    have hkept : ¬ (decide (c.toNat < 0x20) || c == '\\') = true := by
      simp only [Bool.or_eq_true, decide_eq_true_eq, beq_iff_eq, not_or, Nat.not_lt]
      exact ⟨hc, hslash⟩
    change takeString? (c :: cs) = _
    rw [takeString?, if_neg hkept]
    · exact hquote
    · intro _ _ _ _ _ h
      exact absurd h hslash
    · intro _ _ h
      exact absurd h hslash
  | @short c e he =>
    change takeString? ('\\' :: e :: cs) = _
    rw [takeString?, he]
    rintro _ _ _ _ _ rfl
    cases he
  | code hn hhigh hlow =>
    change takeString? ('\\' :: 'u' :: _ :: _ :: _ :: _ :: cs) = _
    rw [takeString?, hn]
    dsimp only
    rw [if_neg hhigh, if_neg hlow]
  | pair hhi hhigh hlo hlow =>
    change takeString? ('\\' :: 'u' :: _ :: _ :: _ :: _ :: '\\' :: 'u' :: _ :: _ :: _ :: _ :: cs) = _
    rw [takeString?, hhi]
    simp only [hhigh, hlo, hlow, if_true]

theorem takeString?_of_spellsText (h : SpellsText s cs) :
    takeString? (cs ++ '"' :: rest) = some (s, rest) := by
  induction h with
  | nil => exact takeString?.eq_2 rest
  | cons hc _ ih =>
    rw [List.append_assoc, takeString?_of_spellsChar hc, ih]
    rfl

theorem SpellsChar.exists_spellsText (hc : SpellsChar c es)
    (ih : ∀ {s rest}, takeString? cs = some (s, rest) →
      ∃ text, SpellsText s text ∧ cs = text ++ '"' :: rest)
    (h : (takeString? cs).map (consChar c) = some (s, rest)) :
    ∃ text, SpellsText s text ∧ es ++ cs = text ++ '"' :: rest := by
  obtain ⟨⟨s', rest'⟩, htail, heq⟩ := Option.map_eq_some_iff.1 h
  obtain ⟨rfl, rfl⟩ := Prod.mk.inj heq
  obtain ⟨text, htext, rfl⟩ := ih htail
  exact ⟨es ++ text, .cons hc htext, (List.append_assoc es text _).symm⟩

theorem spellsText_of_takeString? (h : takeString? cs = some (s, rest)) :
    ∃ text, SpellsText s text ∧ cs = text ++ '"' :: rest := by
  fun_induction takeString? cs generalizing s rest with
  | case2 rest' =>
    obtain ⟨rfl, rfl⟩ := Prod.mk.inj (Option.some.inj h)
    exact ⟨[], .nil, rfl⟩
  | case5 _ _ _ _ _ hhi hhigh _ _ _ _ _ _ hlo hlow ih =>
    exact (SpellsChar.pair hhi hhigh hlo hlow).exists_spellsText ih h
  | case9 _ _ _ _ _ _ hn hhigh hlow ih =>
    exact (SpellsChar.code hn hhigh hlow).exists_spellsText ih h
  | case11 _ _ _ _ he ih => exact (SpellsChar.short he).exists_spellsText ih h
  | case13 c tail hquote _ _ hkept ih =>
    simp only [Bool.or_eq_true, decide_eq_true_eq, beq_iff_eq, not_or, Nat.not_lt] at hkept
    exact (SpellsChar.plain hkept.1 hquote hkept.2).exists_spellsText ih h
  | _ => cases h

theorem spellsText_iff : SpellsText s cs ↔ takeString? (cs ++ ['"']) = some (s, []) := by
  refine ⟨takeString?_of_spellsText, fun h => ?_⟩
  obtain ⟨text, htext, heq⟩ := spellsText_of_takeString? h
  rwa [List.append_cancel_right heq]

instance : Decidable (SpellsText s cs) := decidable_of_iff _ spellsText_iff.symm

theorem spellsChar_escapedChar (c : Char) : SpellsChar c (escapedChar c) := by
  unfold escapedChar
  split
  · exact .short rfl
  · exact .short rfl
  · exact .short rfl
  · exact .short rfl
  · exact .short rfl
  · exact .short rfl
  · exact .short rfl
  next hquote hslash _ _ _ _ _ =>
    split
    next hc =>
      have hhex : ∀ n < 0x20, hexFour? '0' '0' (Text.hexDigit (n / 16)) (Text.hexDigit n) = some n ∧
          ¬ isHighSurrogate n ∧ ¬ isLowSurrogate n := by decide
      obtain ⟨hn, hhigh, hlow⟩ := hhex c.toNat hc
      have h := SpellsChar.code hn hhigh hlow
      rwa [Char.ofNat_toNat] at h
    next hc => exact .plain (Nat.le_of_not_lt hc) hquote hslash

theorem spellsText_escaped (s : List Char) : SpellsText s (s.flatMap escapedChar) := by
  induction s with
  | nil => exact .nil
  | cons c s ih => exact .cons (spellsChar_escapedChar c) ih

end SchemaEvolution.Json
