import SchemaEvolution.Proofs.Protobuf.Record
import SchemaEvolution.Proofs.Protobuf.Wire
import SchemaEvolution.Proofs.Text.Utf8
import SchemaEvolution.Protobuf.Codec

namespace SchemaEvolution.Protobuf

def FieldSpec.regular (f : FieldSpec) : Bool :=
  0 < f.number && f.number < 1000 &&
    match f.shape, f.type with
    | .required, .message _ => false
    | .packed, .message _ => false
    | .packed, .scalar s => s.isVarint
    | _, _ => true

theorem FieldSpec.shape_of_message {f : FieldSpec} (h : f.regular) {u : MessageType}
    (ht : f.type = .message u) : f.shape = .singular ∨ f.shape = .repeated := by
  rw [regular, ht] at h
  cases hs : f.shape <;> simp_all

theorem MessageType.regular_of_mem_fields (t : MessageType) : ∀ f ∈ t.fields, f.regular := by
  cases t <;> decide

theorem MessageType.field?_of_required (t : MessageType) :
    ∀ f ∈ t.fields, f.shape = .required → t.field? f.number = some f := by
  cases t <;> decide

theorem MessageType.field?_eq_some {t : MessageType} {n : Nat} {spec : FieldSpec}
    (h : t.field? n = some spec) : spec ∈ t.fields ∧ spec.number = n ∧ spec.regular := by
  have hmem := List.mem_of_find?_eq_some h
  exact ⟨hmem, by simpa using List.find?_some h, t.regular_of_mem_fields spec hmem⟩

namespace Scalar

def Holds : Scalar → Value → Prop
  | .int32, .number n => -2 ^ 31 ≤ n ∧ n < 2 ^ 31
  | .int64, .number n => -2 ^ 63 ≤ n ∧ n < 2 ^ 63
  | .uint64, .number n => 0 ≤ n ∧ n < 2 ^ 64
  | .bool, .number n => n = 0 ∨ n = 1
  | .double, .bits64 n => n < 2 ^ 64
  | .text, .text _ => True
  | .bytes, .bytes _ => True
  | _, _ => False

theorem holds_ofVarint {s : Scalar} (hs : s.isVarint) {n : Nat} (h : n < 2 ^ 64) :
    s.Holds (s.ofVarint n) := by
  cases s with
  | int32 =>
    have hlow := @Int.le_bmod n (Nat.pow 2 32) (by decide)
    have hhigh := @Int.bmod_lt n (Nat.pow 2 32) (by decide)
    simp only [Nat.pow_eq] at hlow hhigh
    simp only [Holds, ofVarint, Nat.pow_eq]
    omega
  | int64 =>
    have hlow := @Int.le_bmod n (Nat.pow 2 64) (by decide)
    have hhigh := @Int.bmod_lt n (Nat.pow 2 64) (by decide)
    simp only [Nat.pow_eq] at hlow hhigh
    simp only [Holds, ofVarint, Nat.pow_eq]
    omega
  | uint64 =>
    simp only [Holds, ofVarint]
    omega
  | bool =>
    simp only [Holds, ofVarint]
    split <;> simp
  | double => cases hs
  | text => cases hs
  | bytes => cases hs

theorem holds_of_ofPayload? {s : Scalar} {p : Wire.Payload} {v : Value} (hp : p.Fits)
    (h : s.ofPayload? p = some v) : s.Holds v := by
  unfold ofPayload? at h
  split at h
  · cases h
    exact hp
  · obtain ⟨_, _, rfl⟩ := Option.map_eq_some_iff.1 h
    trivial
  · cases h
    trivial
  · split at h
    next hs =>
      cases h
      exact holds_ofVarint hs hp
    next => cases h
  · cases h

end Scalar

def Value.payload (t : FieldType) : Value → Wire.Payload
  | .number n => .varint (n % 2 ^ 64).toNat
  | .bits64 n => .fixed64 n
  | .text s => .bytes (Text.toUtf8 s)
  | .bytes b => .bytes b
  | .record fields =>
    match t with
    | .scalar _ => .bytes []
    | .message u => .bytes (u.encode fields)

namespace Scalar

variable {s : Scalar} {v : Value} {t : FieldType}

theorem encode_eq_write (h : s.Holds v) : encode v = (v.payload t).write := by
  cases v with
  | number n => rfl
  | bits64 n => rfl
  | text x => rfl
  | bytes b => rfl
  | record fields => cases s <;> exact False.elim h

theorem wireType_payload (h : s.Holds v) : (v.payload t).wireType = s.wireType := by
  cases s <;> cases v <;> first | rfl | exact False.elim h

theorem fits_payload (h : s.Holds v) : (v.payload t).Fits := by
  cases v with
  | number n =>
    change (n % 2 ^ 64).toNat < 2 ^ 64
    omega
  | bits64 n => cases s <;> first | exact h | exact False.elim h
  | text x => trivial
  | bytes b => trivial
  | record fields => cases s <;> exact False.elim h

theorem ofVarint_payload (hs : s.isVarint) {n : Int} (h : s.Holds (.number n)) :
    s.ofVarint (n % 2 ^ 64).toNat = .number n := by
  have hn : ((n % 2 ^ 64).toNat : Int) = n % 2 ^ 64 := by omega
  cases s with
  | int32 =>
    simp only [Holds] at h
    simp only [ofVarint, hn, Nat.pow_eq, Value.number.injEq, Int.bmod_def]
    omega
  | int64 =>
    simp only [Holds] at h
    simp only [ofVarint, hn, Nat.pow_eq, Value.number.injEq, Int.bmod_def]
    omega
  | uint64 =>
    simp only [Holds] at h
    simp only [ofVarint, hn, Value.number.injEq]
    omega
  | bool =>
    simp only [Holds] at h
    rcases h with rfl | rfl <;> rfl
  | double => cases hs
  | text => cases hs
  | bytes => cases hs

theorem isVarint_of_holds_number {n : Int} (h : s.Holds (.number n)) : s.isVarint := by
  cases s <;> first | rfl | exact False.elim h

theorem ofPayload?_varint (hs : s.isVarint) (n : Nat) :
    s.ofPayload? (.varint n) = some (s.ofVarint n) := by
  cases s <;> first | rfl | cases hs

theorem ofPayload?_payload (h : s.Holds v) : s.ofPayload? (v.payload t) = some v := by
  cases v with
  | number n =>
    have hs := isVarint_of_holds_number h
    rw [Value.payload, ofPayload?_varint hs, ofVarint_payload hs h]
  | bits64 n => cases s <;> first | rfl | exact False.elim h
  | text x =>
    have htext : Scalar.text.ofPayload? (.bytes (Text.toUtf8 x)) = some (.text x) := by
      rw [ofPayload?, Text.ofUtf8?_toUtf8]
      rfl
    cases s <;> first | exact htext | exact False.elim h
  | bytes b => cases s <;> first | rfl | exact False.elim h
  | record fields => cases s <;> exact False.elim h

end Scalar

def Shape.Allows : Shape → List Value → Prop
  | .singular, vs | .required, vs => ∃ v, vs = [v]
  | .repeated, vs | .packed, vs => vs ≠ []

section Fits

variable (inner : MessageType → Record → Prop)

def ValueFits : FieldType → Value → Prop
  | .scalar s, v => s.Holds v
  | .message u, .record r => inner u r
  | .message _, _ => False

structure EntryFits (spec : FieldSpec) (vs : List Value) : Prop where
  shape : spec.shape.Allows vs
  values : ∀ v ∈ vs, ValueFits inner spec.type v

structure FitsWith (t : MessageType) (r : Record) : Prop where
  sorted : r.Sorted
  entries : ∀ n vs, r.lookup n = some vs → ∃ spec, t.field? n = some spec ∧ EntryFits inner spec vs
  required : ∀ f ∈ t.fields, f.shape = .required → (r.lookup f.number).isSome

end Fits

/-- Fits with messages nested at most `depth` levels in it. -/
def Fits : (depth : Nat) → MessageType → Record → Prop
  | 0 => FitsWith fun _ _ => False
  | depth + 1 => FitsWith (Fits depth)

theorem MessageType.initial_eq (t : MessageType) :
    t.initial = if t = .namePart then [(1, [.text ""]), (2, [.number 0])] else [] := by
  cases t <;> rfl

variable {inner : MessageType → Record → Prop} {t : MessageType} {r : Record} {n : Nat}
  {spec : FieldSpec}

theorem fitsWith_initial (inner : MessageType → Record → Prop) (t : MessageType) :
    FitsWith inner t t.initial := by
  rw [MessageType.initial_eq]
  split
  next h =>
    subst h
    refine ⟨by simp [Record.Sorted], ?_, ?_⟩
    · intro n vs hn
      rcases List.mem_pair.1 (Names.mem_of_lookup_eq_some hn) with heq | heq
      · cases heq
        exact ⟨⟨1, .required, .scalar .text⟩, rfl, ⟨_, rfl⟩, by simp [ValueFits, Scalar.Holds]⟩
      · cases heq
        exact ⟨⟨2, .required, .scalar .bool⟩, rfl, ⟨_, rfl⟩, by simp [ValueFits, Scalar.Holds]⟩
    · decide
  next h =>
    refine ⟨.nil, fun n vs hn => (by cases hn), ?_⟩
    cases t <;> first | decide | cases h rfl

theorem FitsWith.alter (h : FitsWith inner t r) (hspec : t.field? n = some spec)
    {f : List Value → List Value} (hentry : EntryFits inner spec (f (r.values n))) :
    FitsWith inner t (r.alter f n) where
  sorted := h.sorted.alter f n
  entries m vs hm := by
    rw [h.sorted.lookup_alter] at hm
    split at hm
    next hmn =>
      cases hm
      exact ⟨spec, hmn ▸ hspec, hentry⟩
    next => exact h.entries m vs hm
  required g hg hshape := by
    rw [h.sorted.lookup_alter]
    split
    · rfl
    · exact h.required g hg hshape

theorem FitsWith.of_mem_values (h : FitsWith inner t r) (hspec : t.field? n = some spec) {v : Value}
    (hv : v ∈ r.values n) : ValueFits inner spec.type v := by
  cases hold : r.lookup n with
  | none => simp [Record.values, hold] at hv
  | some old =>
    obtain ⟨spec', hspec', hentry⟩ := h.entries n old hold
    cases hspec.symm.trans hspec'
    rw [Record.values, hold] at hv
    exact hentry.values v hv

theorem FitsWith.addAll (h : FitsWith inner t r) (hspec : t.field? n = some spec)
    (hshape : spec.shape = .repeated ∨ spec.shape = .packed) (vs : List Value)
    (hvs : ∀ v ∈ vs, ValueFits inner spec.type v) : FitsWith inner t (r.addAll n vs) := by
  unfold Record.addAll
  split
  · exact h
  next hne =>
    refine h.alter hspec ⟨?_, ?_⟩
    · have hnil : r.values n ++ vs ≠ [] := by
        intro hnil
        exact hne (by simp [(List.append_eq_nil_iff.1 hnil).2])
      rcases hshape with hs | hs <;> simpa only [hs, Shape.Allows] using hnil
    · intro v hv
      rcases List.mem_append.1 hv with hv | hv
      · exact h.of_mem_values hspec hv
      · exact hvs v hv

theorem FitsWith.add (h : FitsWith inner t r) (hspec : t.field? n = some spec)
    (hshape : spec.shape = .repeated ∨ spec.shape = .packed) {v : Value}
    (hv : ValueFits inner spec.type v) : FitsWith inner t (r.add n v) :=
  h.addAll hspec hshape [v] (by simpa using hv)

theorem FitsWith.put (h : FitsWith inner t r) (hspec : t.field? n = some spec)
    (hshape : spec.shape = .singular ∨ spec.shape = .required) {v : Value}
    (hv : ValueFits inner spec.type v) : FitsWith inner t (r.put n v) := by
  refine h.alter hspec ⟨?_, by simpa using hv⟩
  rcases hshape with hs | hs <;> exact hs ▸ ⟨v, rfl⟩

theorem FitsWith.record? (h : FitsWith inner t r) (hspec : t.field? n = some spec)
    {u : MessageType} (htype : spec.type = .message u) {old : Record}
    (hold : r.record? n = some old) : inner u old := by
  obtain ⟨v, hv, hrecord⟩ := Option.bind_eq_some_iff.1 hold
  have hfits := h.of_mem_values hspec (List.mem_of_head? hv)
  rw [htype] at hfits
  cases v with
  | record fields =>
    cases hrecord
    exact hfits
  | number | bits64 | text | bytes => cases hrecord

theorem FitsWith.read? {s : Scalar} {p : Wire.Payload} {r' : Record} (h : FitsWith inner t r)
    (hspec : t.field? n = some spec) (htype : spec.type = .scalar s) (hp : p.Fits)
    (hr : s.read? spec.shape n r p = some r') : FitsWith inner t r' := by
  have hvalue : ∀ v, s.Holds v → ValueFits inner spec.type v := by
    intro v hv
    rw [htype]
    exact hv
  have hone : ∀ {v}, s.ofPayload? p = some v → ValueFits inner spec.type v := fun hv =>
    hvalue _ (Scalar.holds_of_ofPayload? hp hv)
  have hlist : ¬ spec.shape = .singular → ¬ spec.shape = .required →
      spec.shape = .repeated ∨ spec.shape = .packed := by
    cases spec.shape <;> simp
  unfold Scalar.read? at hr
  split at hr
  next hs =>
    obtain ⟨v, hv, rfl⟩ := Option.map_eq_some_iff.1 hr
    exact h.put hspec (.inl hs) (hone hv)
  next hs =>
    obtain ⟨v, hv, rfl⟩ := Option.map_eq_some_iff.1 hr
    exact h.put hspec (.inr hs) (hone hv)
  next b hsingular hrequired =>
    split at hr
    next hvarint =>
      obtain ⟨ns, hns, rfl⟩ := Option.map_eq_some_iff.1 hr
      apply h.addAll hspec (hlist hsingular hrequired) _
      intro v hv
      obtain ⟨k, hk, rfl⟩ := List.mem_map.1 hv
      exact hvalue _ (Scalar.holds_ofVarint hvarint (Wire.lt_of_varints? hns k hk))
    next =>
      obtain ⟨v, hv, rfl⟩ := Option.map_eq_some_iff.1 hr
      exact h.add hspec (hlist hsingular hrequired) (hone hv)
  next _ hsingular hrequired =>
    obtain ⟨v, hv, rfl⟩ := Option.map_eq_some_iff.1 hr
    exact h.add hspec (hlist hsingular hrequired) (hone hv)

def InnerDecoder.Keeps (decode : InnerDecoder) (inner : MessageType → Record → Prop) : Prop :=
  ∀ u start bytes r, start = u.initial ∨ inner u start → decode u start bytes = some r → inner u r

variable {decode : InnerDecoder}

theorem FitsWith.readField? (hd : decode.Keeps inner) {depth : Nat} {f : Nat × Wire.Payload}
    {r' : Record} (h : FitsWith inner t r) (hp : f.2.Fits)
    (hr : Protobuf.readField? depth decode t r f = some r') : FitsWith inner t r' := by
  unfold Protobuf.readField? at hr
  split at hr
  next =>
    split at hr
    · cases hr
      exact h
    · cases hr
  next spec hspec =>
    split at hr
    next s htype => exact h.read? hspec htype hp hr
    next u b htype _ =>
      have hvalue : ∀ v, inner u v → ValueFits inner spec.type (.record v) := by
        intro v hv
        rw [htype]
        exact hv
      split at hr
      next hshape =>
        obtain ⟨v, hv, rfl⟩ := Option.map_eq_some_iff.1 hr
        refine h.put hspec (.inl hshape) (hvalue v (hd u _ b v ?_ hv))
        cases hold : r.record? f.1 with
        | none => exact .inl rfl
        | some old => exact .inr (h.record? hspec htype hold)
      next hshape =>
        obtain ⟨v, hv, rfl⟩ := Option.map_eq_some_iff.1 hr
        have hlist := (FieldSpec.shape_of_message (MessageType.field?_eq_some hspec).2.2 htype)
        exact h.add hspec (.inl (hlist.resolve_left hshape)) (hvalue v (hd u _ b v (.inl rfl) hv))
    next => cases hr

theorem FitsWith.decodeWith? (hd : decode.Keeps inner) {depth : Nat} {start : Record}
    {bytes : List UInt8} (h : FitsWith inner t start)
    (hr : Protobuf.decodeWith? depth decode t start bytes = some r) : FitsWith inner t r := by
  simp only [Protobuf.decodeWith?, Option.bind_eq_bind, Option.bind_eq_some_iff] at hr
  obtain ⟨fs, hfs, hr⟩ := hr
  have hfits := Wire.fits_of_fields? hfs
  clear hfs
  induction fs generalizing start with
  | nil =>
    cases hr
    exact h
  | cons f fs ih =>
    rw [List.forall_mem_cons] at hfits
    rw [List.foldlM_cons, Option.bind_eq_bind, Option.bind_eq_some_iff] at hr
    obtain ⟨r', hr', hr⟩ := hr
    exact ih (h.readField? hd hfits.1 hr') hr hfits.2

theorem decode?_keeps (depth : Nat) : InnerDecoder.Keeps (decode? depth) (Fits depth) := by
  induction depth with
  | zero =>
    intro u start bytes r hstart hr
    have hnone : InnerDecoder.Keeps (fun _ _ _ => none) fun _ _ => False := by
      intro _ _ _ _ _ h
      cases h
    refine FitsWith.decodeWith? hnone ?_ hr
    rcases hstart with rfl | h
    · exact fitsWith_initial _ u
    · exact h
  | succ depth ih =>
    intro u start bytes r hstart hr
    refine FitsWith.decodeWith? ih ?_ hr
    rcases hstart with rfl | h
    · exact fitsWith_initial _ u
    · exact h

theorem fits_of_decode? {bytes : List UInt8} (h : t.decode? bytes = some r) :
    Fits maxDepth t r :=
  decode?_keeps maxDepth t _ bytes r (.inl rfl) h

def fieldsOf (t : MessageType) (e : Nat × List Value) : List (Nat × Wire.Payload) :=
  match t.field? e.1 with
  | none => []
  | some spec =>
    match spec.shape with
    | .packed => [(e.1, .bytes (e.2.flatMap Scalar.encode))]
    | _ => e.2.map fun v => (e.1, v.payload spec.type)

theorem encodeValues_eq_flatMap (spec : FieldSpec) (key : List UInt8) (vs : List Value) :
    encodeValues spec key vs = vs.flatMap fun v => key ++ encodeValue spec.type v := by
  induction vs with
  | nil => rw [encodeValues, List.flatMap_nil]
  | cons v vs ih => rw [encodeValues, List.flatMap_cons, ih]

theorem encodeValue_eq_write {ft : FieldType} {v : Value} (h : ValueFits inner ft v) :
    encodeValue ft v = (v.payload ft).write := by
  cases ft with
  | scalar s =>
    have hwrite := Scalar.encode_eq_write (t := .scalar s) h
    cases v with
    | record fields => cases s <;> exact False.elim h
    | number | bits64 | text | bytes =>
      rw [encodeValue, hwrite]
      exact fun _ heq => nomatch heq
  | message u =>
    cases v with
    | record fields => rw [encodeValue]; rfl
    | number | bits64 | text | bytes => exact False.elim h

def FieldType.wireType : FieldType → Nat
  | .scalar s => s.wireType
  | .message _ => 2

theorem wireType_payload {ft : FieldType} {v : Value} (h : ValueFits inner ft v) :
    (v.payload ft).wireType = ft.wireType := by
  cases ft with
  | scalar s => exact Scalar.wireType_payload h
  | message u =>
    cases v with
    | record fields => rfl
    | number | bits64 | text | bytes => exact False.elim h

theorem encodeValues_eq_writeField {vs : List Value} (n : Nat)
    (h : ∀ v ∈ vs, ValueFits inner spec.type v) :
    encodeValues spec (⟨n, spec.type.wireType⟩ : Wire.Key).encode vs =
      (vs.map fun v => (n, v.payload spec.type)).flatMap Wire.writeField := by
  rw [encodeValues_eq_flatMap, List.flatMap_map]
  apply List.flatMap_congr
  intro v hv
  rw [Wire.writeField, encodeValue_eq_write (h v hv), wireType_payload (h v hv)]

theorem encodeFields_eq {r : Record}
    (h : ∀ e ∈ r, ∃ spec, t.field? e.1 = some spec ∧ EntryFits inner spec e.2) :
    encodeFields t r = (r.flatMap (fieldsOf t)).flatMap Wire.writeField := by
  induction r with
  | nil => rw [encodeFields]; rfl
  | cons e r ih =>
    obtain ⟨n, vs⟩ := e
    rw [List.forall_mem_cons] at h
    obtain ⟨⟨spec, hspec, hentry⟩, hr⟩ := h
    have hwrite := encodeValues_eq_writeField n hentry.values
    rw [encodeFields, ih hr, List.flatMap_cons, List.flatMap_append, hspec]
    congr 1
    simp only [fieldsOf, hspec]
    cases hshape : spec.shape with
    | packed => simp [Wire.writeField, Wire.Payload.wireType, Wire.Payload.write]
    | singular | required | repeated =>
      cases htype : spec.type with
      | scalar s => rw [htype] at hwrite; exact hwrite
      | message u => rw [htype] at hwrite; exact hwrite

def InnerDecoder.Reads (decode : InnerDecoder) (inner : MessageType → Record → Prop) : Prop :=
  ∀ u r, inner u r → (u.encode r).length < 2 ^ 64 → decode u u.initial (u.encode r) = some r

section Read

variable {s : Scalar} {v : Value} {ft : FieldType} {decode : InnerDecoder} (depth : Nat)

theorem Scalar.read?_put {shape : Shape} (hshape : shape = .singular ∨ shape = .required)
    (h : s.Holds v) (n : Nat) (r : Record) :
    s.read? shape n r (v.payload ft) = some (r.put n v) := by
  have hpayload := ofPayload?_payload (t := ft) h
  rcases hshape with rfl | rfl <;> simp [read?, hpayload]

theorem Scalar.read?_add (h : s.Holds v) (n : Nat) (r : Record) :
    s.read? .repeated n r (v.payload ft) = some (r.add n v) := by
  have hpayload := ofPayload?_payload (t := ft) h
  -- only numbers come packed, and a number is not written as bytes
  have hbytes : ∀ b, v.payload ft = .bytes b → s.isVarint = false := by
    intro b hb
    cases v <;> cases s <;> first | rfl | exact False.elim h | cases hb
  cases hp : v.payload ft with
  | bytes b =>
    rw [hp] at hpayload
    simp [read?, hbytes b hp, hpayload]
  | varint | fixed64 | group | fixed32 =>
    rw [hp] at hpayload
    simp [read?, hpayload]

theorem length_lt_of_lengthPrefixed {bytes : List UInt8}
    (h : (Wire.lengthPrefixed bytes).length < 2 ^ 64) : bytes.length < 2 ^ 64 := by
  rw [Wire.lengthPrefixed, List.length_append] at h
  omega

theorem readField?_put (hd : decode.Reads inner) (hspec : t.field? n = some spec)
    (hshape : spec.shape = .singular ∨ spec.shape = .required)
    (hfresh : r.values n = [] ∨ spec.shape = .required) (hv : ValueFits inner spec.type v)
    (hlen : (v.payload spec.type).write.length < 2 ^ 64) :
    readField? depth decode t r (n, v.payload spec.type) = some (r.put n v) := by
  unfold readField?
  simp only [hspec]
  cases htype : spec.type with
  | scalar s =>
    rw [htype] at hv
    exact Scalar.read?_put hshape hv n r
  | message u =>
    rw [htype] at hv hlen
    have hmessage := FieldSpec.shape_of_message (MessageType.field?_eq_some hspec).2.2 htype
    have hsingular : spec.shape = .singular := by
      rcases hshape with hs | hs <;> simp_all
    have hnone : r.record? n = none := by
      rw [Record.record?, hfresh.resolve_right (by simp [hsingular])]
      rfl
    cases v with
    | record fields =>
      have hread := hd u fields hv (length_lt_of_lengthPrefixed hlen)
      simp [Value.payload, hsingular, hnone, hread]
    | number | bits64 | text | bytes => exact False.elim hv

theorem readField?_add (hd : decode.Reads inner) (hspec : t.field? n = some spec)
    (hshape : spec.shape = .repeated) (hv : ValueFits inner spec.type v)
    (hlen : (v.payload spec.type).write.length < 2 ^ 64) :
    readField? depth decode t r (n, v.payload spec.type) = some (r.add n v) := by
  unfold readField?
  simp only [hspec]
  cases htype : spec.type with
  | scalar s =>
    rw [htype] at hv
    simp only [hshape]
    exact Scalar.read?_add hv n r
  | message u =>
    rw [htype] at hv hlen
    cases v with
    | record fields =>
      have hread := hd u fields hv (length_lt_of_lengthPrefixed hlen)
      simp [Value.payload, hshape, hread]
    | number | bits64 | text | bytes => exact False.elim hv

theorem exists_varints {vs : List Value} (hs : s.isVarint) (h : ∀ v ∈ vs, s.Holds v) :
    ∃ ns : List Nat, vs.flatMap Scalar.encode = ns.flatMap Wire.varint ∧ ns.map s.ofVarint = vs ∧
      ∀ n ∈ ns, n < 2 ^ 64 := by
  induction vs with
  | nil => exact ⟨[], rfl, rfl, by simp⟩
  | cons v vs ih =>
    rw [List.forall_mem_cons] at h
    obtain ⟨ns, hencode, hmap, hlt⟩ := ih h.2
    cases v with
    | number k =>
      have hk : (k % 2 ^ 64).toNat < 2 ^ 64 := by omega
      refine ⟨(k % 2 ^ 64).toNat :: ns, ?_, ?_, List.forall_mem_cons.2 ⟨hk, hlt⟩⟩
      · rw [List.flatMap_cons, List.flatMap_cons, hencode]
        rfl
      · rw [List.map_cons, hmap, Scalar.ofVarint_payload hs h.1]
    | bits64 | text | bytes | record => cases s <;> first | exact False.elim h.1 | cases hs

theorem readField?_packed (hspec : t.field? n = some spec) (hshape : spec.shape = .packed)
    {vs : List Value} (hvs : ∀ v ∈ vs, ValueFits inner spec.type v) :
    readField? depth decode t r (n, .bytes (vs.flatMap Scalar.encode)) = some (r.addAll n vs) := by
  have hregular := (MessageType.field?_eq_some hspec).2.2
  unfold readField?
  simp only [hspec]
  cases htype : spec.type with
  | scalar s =>
    rw [htype] at hvs
    have hs : s.isVarint := by
      rw [FieldSpec.regular, hshape, htype] at hregular
      simp_all
    obtain ⟨ns, hencode, hmap, hlt⟩ := exists_varints hs hvs
    simp [Scalar.read?, hshape, hs, hencode, Wire.varints?_varint hlt, hmap]
  | message u => simp [FieldSpec.regular, hshape, htype] at hregular

theorem foldlM_add (hd : decode.Reads inner) (hspec : t.field? n = some spec)
    (hshape : spec.shape = .repeated) {vs : List Value}
    (hvs : ∀ v ∈ vs, ValueFits inner spec.type v)
    (hlen : ∀ v ∈ vs, (v.payload spec.type).write.length < 2 ^ 64) :
    (vs.map fun v => (n, v.payload spec.type)).foldlM (readField? depth decode t) r =
      some (vs.foldl (fun r v => r.add n v) r) := by
  induction vs generalizing r with
  | nil => rfl
  | cons v vs ih =>
    rw [List.forall_mem_cons] at hvs hlen
    rw [List.map_cons, List.foldlM_cons, readField?_add depth hd hspec hshape hvs.1 hlen.1]
    exact ih hvs.2 hlen.2

theorem foldlM_fieldsOf (hd : decode.Reads inner) (hr : r.Sorted) (hspec : t.field? n = some spec)
    {vs : List Value} (hentry : EntryFits inner spec vs)
    (hfresh : r.values n = [] ∨ spec.shape = .required)
    (hlen : ∀ f ∈ fieldsOf t (n, vs), f.2.write.length < 2 ^ 64) :
    (fieldsOf t (n, vs)).foldlM (readField? depth decode t) r = some (r.alter (fun _ => vs) n) := by
  have hvs := hentry.shape
  have haddAll : spec.shape ≠ .required → vs ≠ [] → r.addAll n vs = r.alter (fun _ => vs) n := by
    intro hshape hne
    rw [Record.addAll, if_neg (by simpa using hne)]
    exact hr.alter_congr (by simp [hfresh.resolve_right hshape])
  simp only [fieldsOf, hspec] at hlen ⊢
  cases hshape : spec.shape with
  | singular | required =>
    rw [hshape] at hvs
    obtain ⟨v, rfl⟩ := hvs
    simp only [hshape, List.map_singleton, List.mem_singleton, forall_eq] at hlen
    have hread := readField?_put depth hd hspec (by simp [hshape]) hfresh
      (hentry.values v (.head _)) hlen
    simp only [List.map_singleton, List.foldlM_cons, hread]
    rfl
  | repeated =>
    rw [hshape] at hvs
    simp only [hshape, List.mem_map, forall_exists_index, and_imp, forall_apply_eq_imp_iff₂] at hlen
    rw [foldlM_add depth hd hspec hshape hentry.values hlen, hr.foldl_add,
      haddAll (by simp [hshape]) hvs]
  | packed =>
    rw [hshape] at hvs
    simp only [List.foldlM_cons, readField?_packed depth hspec hshape hentry.values,
      haddAll (by simp [hshape]) hvs]
    rfl

theorem exists_foldlM_fieldsOf (hd : decode.Reads inner) {start : Record} (hstart : start.Sorted)
    (hr : r.Sorted)
    (hentries : ∀ e ∈ r, ∃ spec, t.field? e.1 = some spec ∧ EntryFits inner spec e.2 ∧
      (start.values e.1 = [] ∨ spec.shape = .required))
    (hlen : ∀ f ∈ r.flatMap (fieldsOf t), f.2.write.length < 2 ^ 64) :
    ∃ r', (r.flatMap (fieldsOf t)).foldlM (readField? depth decode t) start = some r' ∧ r'.Sorted ∧
      ∀ m, r'.lookup m = (r.lookup m).or (start.lookup m) := by
  induction r generalizing start with
  | nil => exact ⟨start, rfl, hstart, fun m => rfl⟩
  | cons e r ih =>
    obtain ⟨n, vs⟩ := e
    obtain ⟨hn, hr⟩ := List.pairwise_cons.1 hr
    rw [List.forall_mem_cons] at hentries
    obtain ⟨⟨spec, hspec, hentry, hfresh⟩, hentries⟩ := hentries
    rw [List.flatMap_cons, List.forall_mem_append] at hlen
    have hstep := foldlM_fieldsOf depth hd hstart hspec hentry hfresh hlen.1
    obtain ⟨r', hr', hsorted, hlookup⟩ := ih (hstart.alter (fun _ => vs) n) hr (fun e he => by
      obtain ⟨spec, hspec, hentry, hfresh⟩ := hentries e he
      refine ⟨spec, hspec, hentry, ?_⟩
      rwa [hstart.values_alter, if_neg (Nat.ne_of_gt (hn e he))]) hlen.2
    refine ⟨r', ?_, hsorted, ?_⟩
    · rw [List.flatMap_cons, List.foldlM_append, hstep]
      exact hr'
    · intro m
      rw [hlookup, hstart.lookup_alter, List.lookup_cons]
      by_cases hm : m = n
      · subst hm
        simp [Record.Sorted.lookup_eq_none hn]
      · simp [hm, beq_false_of_ne hm]

end Read

theorem exists_required_of_lookup_initial {vs : List Value} (h : t.initial.lookup n = some vs) :
    ∃ f ∈ t.fields, f.shape = .required ∧ f.number = n := by
  rw [MessageType.initial_eq] at h
  split at h
  next ht =>
    subst ht
    rcases List.mem_pair.1 (Names.mem_of_lookup_eq_some h) with heq | heq
    · cases heq
      exact ⟨⟨1, .required, .scalar .text⟩, by decide, rfl, rfl⟩
    · cases heq
      exact ⟨⟨2, .required, .scalar .bool⟩, by decide, rfl, rfl⟩
  next => cases h

theorem writable_payload {p : Wire.Payload} (hp : p.Fits) (hw : p.wireType ≤ 2)
    (hlen : p.write.length < 2 ^ 64) : p.Writable := by
  cases p with
  | varint | fixed64 => exact hp
  | bytes b => exact length_lt_of_lengthPrefixed hlen
  | group | fixed32 => exact absurd hw (by simp [Wire.Payload.wireType])

theorem ValueFits.writable {ft : FieldType} {v : Value} (h : ValueFits inner ft v)
    (hlen : (v.payload ft).write.length < 2 ^ 64) : (v.payload ft).Writable := by
  have hw : ft.wireType ≤ 2 := by
    cases ft with
    | scalar s => cases s <;> decide
    | message u => exact Nat.le_refl _
  refine writable_payload ?_ (wireType_payload h ▸ hw) hlen
  cases ft with
  | scalar s => exact Scalar.fits_payload h
  | message u =>
    cases v with
    | record fields => trivial
    | number | bits64 | text | bytes => exact False.elim h

theorem writableField_of_mem_fieldsOf {e : Nat × List Value}
    (h : ∃ spec, t.field? e.1 = some spec ∧ EntryFits inner spec e.2) {f : Nat × Wire.Payload}
    (hf : f ∈ fieldsOf t e) (hlen : f.2.write.length < 2 ^ 64) : Wire.WritableField f := by
  obtain ⟨spec, hspec, hentry⟩ := h
  obtain ⟨-, hn, hregular⟩ := MessageType.field?_eq_some hspec
  have hnumber : 0 < e.1 ∧ e.1 < 2 ^ 29 := by
    rw [← hn]
    simp only [FieldSpec.regular, Bool.and_eq_true, decide_eq_true_eq] at hregular
    omega
  simp only [fieldsOf, hspec] at hf
  split at hf
  · cases List.mem_singleton.1 hf
    exact ⟨hnumber, length_lt_of_lengthPrefixed hlen⟩
  · obtain ⟨v, hv, rfl⟩ := List.mem_map.1 hf
    exact ⟨hnumber, (hentry.values v hv).writable hlen⟩

theorem FitsWith.decodeWith?_encode (hd : decode.Reads inner) {depth : Nat} (h : FitsWith inner t r)
    (hlen : (t.encode r).length < 2 ^ 64) :
    Protobuf.decodeWith? depth decode t t.initial (t.encode r) = some r := by
  have hentries : ∀ e ∈ r, ∃ spec, t.field? e.1 = some spec ∧ EntryFits inner spec e.2 := by
    intro e he
    exact h.entries e.1 e.2 (h.sorted.lookup_eq_some_iff.2 he)
  rw [MessageType.encode, encodeFields_eq hentries] at hlen ⊢
  have hpayloads : ∀ f ∈ r.flatMap (fieldsOf t), f.2.write.length < 2 ^ 64 := by
    intro f hf
    have hsublist : (Wire.writeField f).Sublist ((r.flatMap (fieldsOf t)).flatMap Wire.writeField) :=
      List.sublist_flatten_of_mem (List.mem_map_of_mem hf)
    have hle := hsublist.length_le
    rw [Wire.writeField, List.length_append] at hle
    omega
  have hwritable : ∀ f ∈ r.flatMap (fieldsOf t), Wire.WritableField f := by
    intro f hf
    obtain ⟨e, he, hfe⟩ := List.mem_flatMap.1 hf
    exact writableField_of_mem_fieldsOf (hentries e he) hfe (hpayloads f hf)
  have hinitial := fitsWith_initial inner t
  obtain ⟨r', hr', hsorted, hlookup⟩ := exists_foldlM_fieldsOf depth hd hinitial.sorted
    h.sorted (fun e he => by
      obtain ⟨spec, hspec, hentry⟩ := hentries e he
      refine ⟨spec, hspec, hentry, ?_⟩
      cases hdefault : t.initial.lookup e.1 with
      | none => exact .inl (Record.values_eq_nil hdefault)
      | some vs =>
        obtain ⟨f, hf, hshape, hnumber⟩ := exists_required_of_lookup_initial hdefault
        cases hspec.symm.trans (hnumber ▸ t.field?_of_required f hf hshape)
        exact .inr hshape) hpayloads
  rw [Protobuf.decodeWith?, Wire.fields?_writeField hwritable]
  refine hr'.trans (congrArg some (hsorted.ext h.sorted ?_))
  intro m
  -- every default is replaced
  rw [hlookup]
  cases hm : r.lookup m with
  | some vs => rfl
  | none =>
    cases hdefault : t.initial.lookup m with
    | none => rfl
    | some vs =>
      obtain ⟨f, hf, hshape, rfl⟩ := exists_required_of_lookup_initial hdefault
      have hrequired := h.required f hf hshape
      simp [hm] at hrequired

theorem decode?_reads (depth : Nat) : InnerDecoder.Reads (decode? depth) (Fits depth) := by
  induction depth with
  | zero =>
    intro u r hr hlen
    exact FitsWith.decodeWith?_encode (fun _ _ h => False.elim h) hr hlen
  | succ depth ih =>
    intro u r hr hlen
    exact FitsWith.decodeWith?_encode ih hr hlen

theorem decode?_encode (h : Fits maxDepth t r) (hlen : (t.encode r).length < 2 ^ 64) :
    t.decode? (t.encode r) = some r :=
  decode?_reads maxDepth t r h hlen

/-- Reading, writing and reading again gives what was read first. -/
theorem decode?_encode_of_decode? {bytes : List UInt8} (h : t.decode? bytes = some r)
    (hlen : (t.encode r).length < 2 ^ 64) : t.decode? (t.encode r) = some r :=
  decode?_encode (fits_of_decode? h) hlen

end SchemaEvolution.Protobuf
