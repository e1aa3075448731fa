import Mathlib.Algebra.Ring.Int.Defs
import Mathlib.Algebra.Ring.Nat
import SchemaEvolution.Protobuf.Wire

namespace SchemaEvolution.Protobuf.Wire

theorem varint_ne_nil (n : Nat) : varint n ≠ [] := by
  rw [varint]
  split <;> simp

theorem takeVarintFrom?_varint {n : Nat} {seen : Nat} (hseen : seen ≤ 9)
    (h : n < 2 ^ (64 - 7 * seen)) (rest : List UInt8) :
    takeVarintFrom? seen (varint n ++ rest) = some (n, rest) := by
  fun_induction varint n generalizing seen with
  | case1 n hn =>
    have hb : (UInt8.ofNat n).toNat = n := by rw [UInt8.toNat_ofNat']; omega
    rw [List.singleton_append, takeVarintFrom?, hb]
    split
    next h9 =>
      subst h9
      exact if_pos h
    next => rfl
  | case2 n hn ih =>
    have hb : (UInt8.ofNat (n % 128 + 128)).toNat = n % 128 + 128 := by
      rw [UInt8.toNat_ofNat']; omega
    have h9 : seen ≠ 9 := by
      rintro rfl
      exact hn (Nat.lt_trans h (by decide))
    -- seven bits fewer are left for the next byte
    have hnext : n / 128 < 2 ^ (64 - 7 * (seen + 1)) := by
      rw [Nat.div_lt_iff_lt_mul (by decide), ← Nat.pow_add 2 _ 7]
      exact Nat.lt_of_lt_of_le h (Nat.pow_le_pow_right (by decide) (by omega))
    rw [List.cons_append, takeVarintFrom?, if_neg h9, hb, if_neg (by omega), ih (by omega) hnext]
    simp only [Option.map_some, Option.some.injEq, Prod.mk.injEq, and_true]
    omega

theorem takeVarint?_varint {n : Nat} (h : n < 2 ^ 64) (rest : List UInt8) :
    takeVarint? (varint n ++ rest) = some (n, rest) :=
  takeVarintFrom?_varint (Nat.zero_le 9) h rest

theorem lt_of_takeVarintFrom? {seen n : Nat} {bytes rest : List UInt8} (hseen : seen ≤ 9)
    (h : takeVarintFrom? seen bytes = some (n, rest)) : n < 2 ^ (64 - 7 * seen) := by
  induction bytes generalizing seen n with
  | nil => cases h
  | cons b bytes ih =>
    rw [takeVarintFrom?] at h
    split at h
    next h9 =>
      split at h
      · cases h
        subst h9
        assumption
      · cases h
    next h9 =>
      have hpow : 2 ^ (64 - 7 * seen) = 128 * 2 ^ (64 - 7 * (seen + 1)) := by
        rw [show 64 - 7 * seen = 7 + (64 - 7 * (seen + 1)) by omega, Nat.pow_add]
      have hpos : 0 < 2 ^ (64 - 7 * (seen + 1)) := Nat.two_pow_pos _
      split at h
      · cases h
        omega
      · obtain ⟨⟨m, rest'⟩, hm, heq⟩ := Option.map_eq_some_iff.1 h
        cases heq
        have hlt := ih (by omega) hm
        have hbyte := b.toNat_lt
        simp only at hlt ⊢
        omega

theorem lt_of_takeVarint? {n : Nat} {bytes rest : List UInt8}
    (h : takeVarint? bytes = some (n, rest)) : n < 2 ^ 64 :=
  lt_of_takeVarintFrom? (Nat.zero_le 9) h

@[simp] theorem length_littleEndian (n width : Nat) : (littleEndian n width).length = width := by
  induction width generalizing n with
  | zero => rfl
  | succ width ih => rw [littleEndian, List.length_cons, ih]

theorem ofLittleEndian_littleEndian {n width : Nat} (h : n < 256 ^ width) :
    ofLittleEndian (littleEndian n width) = n := by
  induction width generalizing n with
  | zero =>
    rw [Nat.pow_zero, Nat.lt_one_iff] at h
    exact h.symm
  | succ width ih =>
    have hb : (UInt8.ofNat (n % 256)).toNat = n % 256 := by rw [UInt8.toNat_ofNat']; omega
    rw [littleEndian, ofLittleEndian, hb, ih (Nat.div_lt_of_lt_mul (Nat.pow_succ' ▸ h))]
    exact Nat.mod_add_div n 256

theorem ofLittleEndian_lt (bytes : List UInt8) : ofLittleEndian bytes < 256 ^ bytes.length := by
  induction bytes with
  | nil => exact Nat.one_pos
  | cons b bytes ih =>
    have hbyte := b.toNat_lt
    rw [ofLittleEndian, List.length_cons, Nat.pow_succ']
    omega

@[simp] theorem take?_append (bytes rest : List UInt8) :
    take? bytes.length (bytes ++ rest) = some (bytes, rest) := by
  simp [take?]

theorem length_of_take? {n : Nat} {bytes front rest : List UInt8}
    (h : take? n bytes = some (front, rest)) : front.length = n := by
  simp only [take?] at h
  split at h
  · cases h
    assumption
  · cases h

namespace Payload

def wireType : Payload → Nat
  | .varint _ => 0
  | .fixed64 _ => 1
  | .bytes _ => 2
  | .group _ => 3
  | .fixed32 _ => 5

theorem wireType_le (p : Payload) : p.wireType ≤ 5 := by
  cases p <;> simp [wireType]

def write : Payload → List UInt8
  | .varint n => Wire.varint n
  | .fixed64 n => littleEndian n 8
  | .bytes b => lengthPrefixed b
  | .group _ => []
  | .fixed32 n => littleEndian n 4

def Writable : Payload → Prop
  | .varint n => n < 2 ^ 64
  | .fixed64 n => n < 2 ^ 64
  | .bytes b => b.length < 2 ^ 64
  | .group _ => False
  | .fixed32 n => n < 2 ^ 32

def Fits : Payload → Prop
  | .varint n => n < 2 ^ 64
  | .fixed64 n => n < 2 ^ 64
  | _ => True

end Payload

theorem takePayload?_write {p : Payload} (h : p.Writable) (fuel number : Nat) (rest : List UInt8) :
    takePayload? (fuel + 1) ⟨number, p.wireType⟩ (p.write ++ rest) = some (p, rest) := by
  cases p with
  | varint n => simp [takePayload?, Payload.wireType, Payload.write, takeVarint?_varint h]
  | fixed64 n =>
    have htake : take? 8 (littleEndian n 8 ++ rest) = some (littleEndian n 8, rest) := by
      rw [← length_littleEndian n 8]
      exact take?_append _ _
    simp [takePayload?, Payload.wireType, Payload.write, htake,
      @ofLittleEndian_littleEndian n 8 h]
  | bytes b =>
    have htake : takeBytes? (lengthPrefixed b ++ rest) = some (b, rest) := by
      rw [takeBytes?, lengthPrefixed, List.append_assoc, takeVarint?_varint h]
      exact take?_append b rest
    simp [takePayload?, Payload.wireType, Payload.write, htake]
  | group d => cases h
  | fixed32 n =>
    have htake : take? 4 (littleEndian n 4 ++ rest) = some (littleEndian n 4, rest) := by
      rw [← length_littleEndian n 4]
      exact take?_append _ _
    simp [takePayload?, Payload.wireType, Payload.write, htake,
      @ofLittleEndian_littleEndian n 4 h]

theorem fits_of_takePayload? {fuel : Nat} {k : Key} {p : Payload} {bytes rest : List UInt8}
    (h : takePayload? fuel k bytes = some (p, rest)) : p.Fits := by
  cases fuel with
  | zero => simp [takePayload?] at h
  | succ fuel =>
    rw [takePayload?] at h
    split at h
    · obtain ⟨⟨n, _⟩, hn, heq⟩ := Option.map_eq_some_iff.1 h
      cases heq
      exact lt_of_takeVarint? hn
    · obtain ⟨⟨b, _⟩, hb, heq⟩ := Option.map_eq_some_iff.1 h
      cases heq
      have hlt := ofLittleEndian_lt b
      rw [length_of_take? hb] at hlt
      exact hlt
    · obtain ⟨_, _, heq⟩ := Option.map_eq_some_iff.1 h
      cases heq
      trivial
    · obtain ⟨_, _, heq⟩ := Option.map_eq_some_iff.1 h
      cases heq
      trivial
    · obtain ⟨_, _, heq⟩ := Option.map_eq_some_iff.1 h
      cases heq
      trivial
    · cases h

theorem takeKey?_encode {k : Key} (hn : 0 < k.number ∧ k.number < 2 ^ 29) (hw : k.wireType ≤ 5)
    (rest : List UInt8) : takeKey? (k.encode ++ rest) = some (k, rest) := by
  have h64 : 8 * k.number + k.wireType < 2 ^ 64 := by omega
  have hnumber : (8 * k.number + k.wireType) / 8 = k.number := by omega
  have htype : (8 * k.number + k.wireType) % 8 = k.wireType := by omega
  simp only [takeKey?, Key.encode, takeVarint?_varint h64, Option.bind_eq_bind, Option.bind_some,
    hnumber, htype, Nat.pow_eq]
  exact if_pos ⟨by omega, hn.1, hw⟩

def writeField (f : Nat × Payload) : List UInt8 := (⟨f.1, f.2.wireType⟩ : Key).encode ++ f.2.write

structure WritableField (f : Nat × Payload) : Prop where
  number : 0 < f.1 ∧ f.1 < 2 ^ 29
  payload : f.2.Writable

theorem writeField_ne_nil (f : Nat × Payload) : writeField f ≠ [] := by
  simp [writeField, Key.encode, varint_ne_nil]

theorem length_le_length_flatMap {α : Type*} {write : α → List UInt8} (h : ∀ a, write a ≠ [])
    (xs : List α) : xs.length ≤ (xs.flatMap write).length := by
  induction xs with
  | nil => exact Nat.le_refl _
  | cons x xs ih =>
    have hpos := List.length_pos_iff.2 (h x)
    rw [List.flatMap_cons, List.length_append, List.length_cons]
    omega

theorem takeFields?_writeField {fs : List (Nat × Payload)} (h : ∀ f ∈ fs, WritableField f)
    {fuel : Nat} (hfuel : fs.length < fuel) :
    takeFields? fuel (fs.flatMap writeField) = some fs := by
  induction fs generalizing fuel with
  | nil =>
    cases fuel with
    | zero => cases hfuel
    | succ fuel => rfl
  | cons f fs ih =>
    obtain ⟨n, p⟩ := f
    rw [List.forall_mem_cons] at h
    have hne : (writeField (n, p) ++ fs.flatMap writeField) ≠ [] := by
      simp [writeField_ne_nil]
    rw [List.length_cons] at hfuel
    obtain ⟨fuel, rfl⟩ : ∃ k, fuel = k + 2 := ⟨fuel - 2, by omega⟩
    rw [List.flatMap_cons, takeFields?.eq_3 _ _ hne, writeField, List.append_assoc,
      takeKey?_encode h.1.number p.wireType_le]
    simp only [Option.bind_eq_bind, Option.bind_some, takePayload?_write h.1.payload,
      ih h.2 (by omega : fs.length < fuel + 1)]
    rfl

theorem fields?_writeField {fs : List (Nat × Payload)} (h : ∀ f ∈ fs, WritableField f) :
    fields? (fs.flatMap writeField) = some fs := by
  have hlength := length_le_length_flatMap writeField_ne_nil fs
  exact takeFields?_writeField h (by omega)

theorem fits_of_takeFields? {fuel : Nat} {bytes : List UInt8} {fs : List (Nat × Payload)}
    (h : takeFields? fuel bytes = some fs) : ∀ f ∈ fs, f.2.Fits := by
  induction fuel generalizing bytes fs with
  | zero =>
    cases bytes with
    | nil => cases h; simp
    | cons b bytes => cases h
  | succ fuel ih =>
    cases bytes with
    | nil => cases h; simp
    | cons b bytes =>
      simp only [takeFields?, Option.bind_eq_bind, Option.bind_eq_some_iff] at h
      obtain ⟨⟨k, rest⟩, -, ⟨p, rest'⟩, hp, fields, hfields, heq⟩ := h
      cases heq
      exact List.forall_mem_cons.2 ⟨fits_of_takePayload? hp, ih hfields⟩

theorem fits_of_fields? {bytes : List UInt8} {fs : List (Nat × Payload)}
    (h : fields? bytes = some fs) : ∀ f ∈ fs, f.2.Fits := fits_of_takeFields? h

theorem takeVarints?_varint {ns : List Nat} (h : ∀ n ∈ ns, n < 2 ^ 64) {fuel : Nat}
    (hfuel : ns.length ≤ fuel) : takeVarints? fuel (ns.flatMap varint) = some ns := by
  induction ns generalizing fuel with
  | nil => cases fuel <;> rfl
  | cons n ns ih =>
    rw [List.forall_mem_cons] at h
    have hne : (varint n ++ ns.flatMap varint) ≠ [] := by simp [varint_ne_nil]
    cases fuel with
    | zero => cases hfuel
    | succ fuel =>
      rw [List.flatMap_cons, takeVarints?.eq_3 _ _ hne, takeVarint?_varint h.1]
      simp only [Option.bind_eq_bind, Option.bind_some, ih h.2 (Nat.le_of_succ_le_succ hfuel)]
      rfl

theorem varints?_varint {ns : List Nat} (h : ∀ n ∈ ns, n < 2 ^ 64) :
    varints? (ns.flatMap varint) = some ns :=
  takeVarints?_varint h (length_le_length_flatMap varint_ne_nil ns)

theorem lt_of_takeVarints? {fuel : Nat} {bytes : List UInt8} {ns : List Nat}
    (h : takeVarints? fuel bytes = some ns) : ∀ n ∈ ns, n < 2 ^ 64 := by
  induction fuel generalizing bytes ns with
  | zero =>
    cases bytes with
    | nil => cases h; simp
    | cons b bytes => cases h
  | succ fuel ih =>
    cases bytes with
    | nil => cases h; simp
    | cons b bytes =>
      simp only [takeVarints?, Option.bind_eq_bind, Option.bind_eq_some_iff] at h
      obtain ⟨⟨n, rest⟩, hn, ms, hms, heq⟩ := h
      cases heq
      exact List.forall_mem_cons.2 ⟨lt_of_takeVarint? hn, ih hms⟩

theorem lt_of_varints? {bytes : List UInt8} {ns : List Nat} (h : varints? bytes = some ns) :
    ∀ n ∈ ns, n < 2 ^ 64 := lt_of_takeVarints? h

end SchemaEvolution.Protobuf.Wire
