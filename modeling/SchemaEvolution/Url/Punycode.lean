namespace SchemaEvolution.Url

namespace Punycode

def digit (n : Nat) : Char :=
  if n < 26 then Char.ofNat ('a'.toNat + n) else Char.ofNat ('0'.toNat + (n - 26))

def threshold (bias place : Nat) : Nat := max 1 (min 26 (36 * (place + 1) - bias))

theorem threshold_pos (bias place : Nat) : 0 < threshold bias place := Nat.le_max_left 1 _

def number (bias place n : Nat) : List Char :=
  let t := threshold bias place
  if n < t then [digit n]
  else digit (t + (n - t) % (36 - t)) :: number bias (place + 1) ((n - t) / (36 - t))
termination_by n
decreasing_by
  have hpos := threshold_pos bias place
  have hdiv := Nat.div_le_self (n - threshold bias place) (36 - threshold bias place)
  omega

def scale (place delta : Nat) : Nat :=
  if 455 < delta then scale (place + 1) (delta / 35) else 36 * place + 36 * delta / (delta + 38)
termination_by delta

def adapt (delta count : Nat) (isFirst : Bool) : Nat :=
  let delta := if isFirst then delta / 700 else delta / 2
  scale 0 (delta + delta / count)

structure Encoder where
  next : Nat
  delta : Nat
  bias : Nat
  count : Nat
  digits : List Char

def Encoder.insert (isFirst : Bool) (e : Encoder) : Encoder where
  next := e.next
  delta := 0
  bias := adapt e.delta (e.count + 1) isFirst
  count := e.count + 1
  digits := e.digits ++ number e.bias 0 e.delta

def Encoder.insertAll (ascii : Nat) (label : List Char) (e : Encoder) (point : Nat) : Encoder :=
  let start := { e with next := point, delta := e.delta + (point - e.next) * (e.count + 1) }
  let after := label.foldl (fun e c =>
    if c.toNat < point then { e with delta := e.delta + 1 }
    else if c.toNat = point then e.insert (e.count = ascii) else e) start
  { after with next := point + 1, delta := after.delta + 1 }

def encode (label : List Char) : List Char :=
  let plain := label.filter fun c => c.toNat < 128
  let points := ((label.map Char.toNat).filter (128 ≤ ·)).eraseDups.mergeSort
  let prefixed := if plain.isEmpty then [] else plain ++ ['-']
  (points.foldl (Encoder.insertAll plain.length label) ⟨128, 0, 72, plain.length, prefixed⟩).digits

end Punycode

/-- Letters of the most common scripts in lower case, and the other forms of ASCII characters. -/
def foldCase (c : Char) : List Char :=
  let n := c.toNat
  let shifted (k : Nat) : List Char := [Char.ofNat (n + k)]
  if n == 0xad || n == 0x200b then []
  else if n == 0x3002 || n == 0xff61 then ['.']
  else if 0xff01 ≤ n && n ≤ 0xff5e then [(Char.ofNat (n - 0xfee0)).toLower]
  else if 0xc0 ≤ n && n ≤ 0xde && n != 0xd7 then shifted 0x20
  else if 0x391 ≤ n && n ≤ 0x3a9 then shifted 0x20
  else if 0x400 ≤ n && n ≤ 0x40f then shifted 0x50
  else if 0x410 ≤ n && n ≤ 0x42f then shifted 0x20
  else [c.toLower]

def asciiLabel (label : List Char) : List Char :=
  if label.all fun c => c.toNat < 128 then label else "xn--".toList ++ Punycode.encode label

end SchemaEvolution.Url
