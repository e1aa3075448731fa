import SchemaEvolution.Text.Percent

namespace SchemaEvolution.Text

@[simp] theorem hexValue?_upperHexDigit (n : Nat) : hexValue? (Percent.upperHexDigit n) = some (n % 16) := by
  have h : ∀ m < 16, hexValue? (m.digitChar).toUpper = some m := by decide
  exact h _ (Nat.mod_lt n (by decide))

@[simp] theorem hexValue?_percent : hexValue? '%' = none := by decide

theorem length_toUtf8_char (c : Char) : (toUtf8 c.toString).length = c.utf8Size := by
  unfold toUtf8
  rw [Array.length_toList]
  exact String.utf8ByteSize_singleton

namespace Percent

@[simp] theorem decode_encodeByte (b : UInt8) (cs : List Char) :
    decode (encodeByte b ++ cs) = b :: decode cs := by
  have hb : b.toNat < 256 := b.toNat_lt
  have hvalue : 16 * (b.toNat / 16 % 16) + b.toNat % 16 = b.toNat := by omega
  simp [encodeByte, decode, hvalue, UInt8.ofNat_toNat]

theorem decode_encodeChar (c : Char) (cs : List Char) :
    decode (encodeChar c ++ cs) = toUtf8 c.toString ++ decode cs := by
  unfold encodeChar
  induction toUtf8 c.toString with
  | nil => rfl
  | cons b bytes ih =>
    simp [ih]

def Free : List Char → Prop
  | a :: b :: _ => hexValue? a = none ∨ hexValue? b = none
  | _ => True

theorem decode_percent {cs : List Char} (h : Free cs) :
    decode ('%' :: cs) = toUtf8 "%" ++ decode cs := by
  match cs with
  | [] => rfl
  | [c] => rfl
  | a :: b :: rest =>
    rw [decode]
    split
    next x y hx hy => exact absurd h (by simp [Free, hx, hy])
    next => rfl

theorem decode_of_ne {c : Char} (h : c ≠ '%') (cs : List Char) :
    decode (c :: cs) = toUtf8 c.toString ++ decode cs := by
  rw [decode]
  rintro a b rest rfl
  exact absurd rfl h

variable {escaped : Char → Bool}

theorem encode_cons_of_escaped {c : Char} (h : escaped c) (cs : List Char) :
    encode escaped (c :: cs) = encodeChar c ++ encode escaped cs := by
  rw [encode, List.flatMap_cons, if_pos h, encode]

theorem encode_cons_of_not {c : Char} (h : ¬ escaped c) (cs : List Char) :
    encode escaped (c :: cs) = c :: encode escaped cs := by
  rw [encode, List.flatMap_cons, if_neg h, encode]
  rfl

theorem exists_encodeChar (c : Char) : ∃ cs, encodeChar c = '%' :: cs := by
  have hlen := length_toUtf8_char c
  have hpos := c.utf8Size_pos
  unfold encodeChar
  cases hbytes : toUtf8 c.toString with
  | nil =>
    rw [hbytes, List.length_nil] at hlen
    omega
  | cons b bytes => exact ⟨_, rfl⟩

theorem free_percent (cs : List Char) : Free ('%' :: cs) := by
  cases cs with
  | nil => trivial
  | cons c cs => exact .inl hexValue?_percent

theorem free_encode {cs : List Char} (h : Free cs) : Free (encode escaped cs) := by
  match cs with
  | [] => trivial
  | a :: rest =>
    by_cases ha : escaped a
    · obtain ⟨more, hmore⟩ := exists_encodeChar a
      rw [encode_cons_of_escaped ha, hmore]
      exact free_percent _
    rw [encode_cons_of_not ha]
    match rest with
    | [] => trivial
    | b :: rest =>
      by_cases hb : escaped b
      · obtain ⟨more, hmore⟩ := exists_encodeChar b
        rw [encode_cons_of_escaped hb, hmore]
        exact .inr hexValue?_percent
      · rw [encode_cons_of_not hb]
        exact h

theorem decode_encode (hpercent : ¬ escaped '%') (hhex : ∀ c, escaped c → hexValue? c = none)
    (cs : List Char) : decode (encode escaped cs) = decode cs := by
  have hnot {c : Char} {x : Nat} (hx : hexValue? c = some x) : ¬ escaped c := by
    intro hc
    rw [hhex c hc] at hx
    cases hx
  fun_induction decode cs with
  | case1 => rfl
  | case2 a b rest y x hy hx ih =>
    rw [encode_cons_of_not hpercent, encode_cons_of_not (hnot hx), encode_cons_of_not (hnot hy),
      decode]
    simp only [hx, hy, ih]
  | case3 a b rest h ih =>
    -- encoding must not make an escape out of this percent sign and what follows it
    have hfree : Free (a :: b :: rest) := by
      cases hx : hexValue? a with
      | none => exact .inl hx
      | some x =>
        cases hy : hexValue? b with
        | none => exact .inr hy
        | some y => exact absurd hy (h x y hx)
    rw [encode_cons_of_not hpercent, decode_percent (free_encode hfree), ih]
  | case4 c rest h ih =>
    by_cases hc : escaped c
    · rw [encode_cons_of_escaped hc, decode_encodeChar, ih]
    rw [encode_cons_of_not hc]
    by_cases hp : c = '%'
    · subst hp
      have hfree : Free rest := by
        match rest with
        | [] => trivial
        | [d] => trivial
        | a :: b :: rest => exact absurd rfl (h a b rest rfl)
      rw [decode_percent (free_encode hfree), ih]
      rfl
    · rw [decode_of_ne hp, ih]

end Percent

end SchemaEvolution.Text
