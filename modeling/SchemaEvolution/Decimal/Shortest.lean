import SchemaEvolution.Decimal.Binary64

namespace SchemaEvolution.Decimal

structure Digits where
  digits : List Char
  point : Int
  deriving DecidableEq, Repr

namespace Magnitude

/-- Ends of the interval that rounds to the number, and the number itself, over a common
denominator. Below a power of two the neighbour is half as far. -/
def interval (x : Magnitude) : (Nat × Nat × Nat) × Nat :=
  let below := if x.mantissa = Nat.pow 2 52 ∧ leastExponent < x.exponent then 1 else 2
  let (v, d) := shifted (4 * x.mantissa) 4 x.exponent
  let (up, _) := shifted 2 4 x.exponent
  let (down, _) := shifted below 4 x.exponent
  ((v - down, v, v + up), d)

def lift (num den : Nat) : (fuel : Nat) → Nat
  | 0 => 0
  | fuel + 1 => if den ≤ num then 0 else lift (num * 10) den fuel + 1

def pointOf (num den : Nat) : Int :=
  if den ≤ num then (Nat.toDigits 10 (num / den)).length
  else 1 - (lift num den 400 : Int)

def onGrid (x : Magnitude) (k : Int) : Option Nat :=
  let ((lo, v, hi), d) := x.interval
  let scale := Nat.pow 10 k.natAbs
  let (lo, v, hi, d) := if 0 ≤ k then (lo * scale, v * scale, hi * scale, d)
    else (lo, v, hi, d * scale)
  let inside (n : Nat) : Bool :=
    if x.mantissa % 2 = 0 then lo ≤ n * d && n * d ≤ hi else lo < n * d && n * d < hi
  let floor := v / d
  let nearest := roundQuotient v d
  if inside nearest then some nearest
  else if inside floor then some floor
  else if inside (floor + 1) then some (floor + 1)
  else none

def trimZeros (ds : List Char) : List Char := (ds.reverse.dropWhile (· == '0')).reverse

def searchDigits (x : Magnitude) (point : Int) : (count fuel : Nat) → Digits
  | _, 0 => ⟨['0'], point⟩
  | count, fuel + 1 =>
    match onGrid x (count - point) with
    | some n =>
      let ds := Nat.toDigits 10 n
      ⟨trimZeros ds, point + ((ds.length : Int) - count)⟩
    | none => searchDigits x point (count + 1) fuel

def shortest (x : Magnitude) : Digits :=
  if x.isZero then ⟨['0'], 1⟩
  else
    let (n, d) := x.toQuotient
    searchDigits x (pointOf n d) 1 17

end Magnitude

/-- Which numbers are written with the point in its place: those whose point is in the given range.
Others get one digit before the point and a signed exponent. -/
structure Layout where
  least : Int
  greatest : Int

def Digits.positional (x : Digits) : List Char :=
  let n := x.digits.length
  if x.point ≤ 0 then '0' :: '.' :: List.replicate (-x.point).toNat '0' ++ x.digits
  else
    let p := x.point.toNat
    if n ≤ p then x.digits ++ List.replicate (p - n) '0' ++ ['.', '0']
    else x.digits.take p ++ '.' :: x.digits.drop p

def Digits.scientific (x : Digits) : List Char :=
  let e := x.point - 1
  let sign := if e < 0 then '-' else '+'
  let tail := 'e' :: sign :: Nat.toDigits 10 e.natAbs
  match x.digits with
  | [] => '0' :: tail
  | [d] => d :: tail
  | d :: ds => d :: '.' :: ds ++ tail

def Digits.render (L : Layout) (x : Digits) : List Char :=
  if L.least ≤ x.point ∧ x.point ≤ L.greatest then x.positional else x.scientific

def Binary64.render (L : Layout) (x : Binary64) : List Char :=
  let body := x.magnitude.shortest.render L
  if x.negative then '-' :: body else body

end SchemaEvolution.Decimal
