namespace SchemaEvolution.ContentId

def rotateLeft (x : UInt32) (n : UInt32) : UInt32 := (x <<< n) ||| (x >>> (32 - n))

def wordOfBytes : List UInt8 → UInt32 := List.foldl (fun w b => (w <<< 8) ||| b.toUInt32) 0

def bytesOfWord (w : UInt32) : List UInt8 :=
  [(w >>> 24).toUInt8, (w >>> 16).toUInt8, (w >>> 8).toUInt8, w.toUInt8]

def padded (message : List UInt8) : List UInt8 :=
  let n := message.length
  let zeros := (119 - n % 64) % 64
  let bits := UInt64.ofNat (8 * n)
  message ++ [(0x80 : UInt8)] ++ List.replicate zeros (0 : UInt8) ++
    bytesOfWord (bits >>> 32).toUInt32 ++ bytesOfWord bits.toUInt32

def chunks (n : Nat) (xs : List UInt8) : List (List UInt8) :=
  (List.range (xs.length / n)).map fun i => (xs.drop (i * n)).take n

structure State where
  a : UInt32
  b : UInt32
  c : UInt32
  d : UInt32
  e : UInt32

def State.initial : State := ⟨0x67452301, 0xefcdab89, 0x98badcfe, 0x10325476, 0xc3d2e1f0⟩

def State.add (s t : State) : State :=
  ⟨s.a + t.a, s.b + t.b, s.c + t.c, s.d + t.d, s.e + t.e⟩

def schedule (block : List UInt8) : Array UInt32 :=
  let given := ((chunks 4 block).map wordOfBytes).toArray
  (List.range 64).foldl (fun w i =>
    let word (k : Nat) := w.getD (i + k) 0
    w.push (rotateLeft (word 13 ^^^ word 8 ^^^ word 2 ^^^ word 0) 1)) given

def round (s : State) (i : Nat) (w : UInt32) : State :=
  let (f, k) : UInt32 × UInt32 :=
    if i < 20 then ((s.b &&& s.c) ||| ((~~~s.b) &&& s.d), 0x5a827999)
    else if i < 40 then (s.b ^^^ s.c ^^^ s.d, 0x6ed9eba1)
    else if i < 60 then ((s.b &&& s.c) ||| (s.b &&& s.d) ||| (s.c &&& s.d), 0x8f1bbcdc)
    else (s.b ^^^ s.c ^^^ s.d, 0xca62c1d6)
  ⟨rotateLeft s.a 5 + f + s.e + k + w, s.a, rotateLeft s.b 30, s.c, s.d⟩

def block (s : State) (bytes : List UInt8) : State :=
  let words := schedule bytes
  s.add ((List.range 80).foldl (fun t i => round t i (words.getD i 0)) s)

def sha1 (message : List UInt8) : List UInt8 :=
  let s := (chunks 64 (padded message)).foldl block State.initial
  [s.a, s.b, s.c, s.d, s.e].flatMap bytesOfWord

def objectIdentifiers : List UInt8 :=
  [0x6b, 0xa7, 0xb8, 0x12, 0x9d, 0xad, 0x11, 0xd1, 0x80, 0xb4, 0x00, 0xc0, 0x4f, 0xd4, 0x30, 0xc8]

def mark (version : UInt8) (bytes : List UInt8) : List UInt8 :=
  (bytes.modify 6 fun b => (b &&& 0x0f) ||| 16 * version).modify 8 fun b =>
    (b &&& 0x3f) ||| 0x80

end SchemaEvolution.ContentId
