namespace SchemaEvolution.Decimal

/-- The number `mantissa * 2 ^ exponent`. Either the mantissa has 53 bits, or the exponent is the
least one. -/
structure Magnitude where
  mantissa : Nat
  exponent : Int
  deriving DecidableEq, Repr

namespace Magnitude

def leastExponent : Int := -1074

def greatestExponent : Int := 971

def zero : Magnitude := ⟨0, leastExponent⟩

def isZero (x : Magnitude) : Bool := x.mantissa == 0

def shifted (num den : Nat) (e : Int) : Nat × Nat :=
  if 0 ≤ e then (num * Nat.pow 2 e.toNat, den) else (num, den * Nat.pow 2 (-e).toNat)

def roundQuotient (num den : Nat) : Nat :=
  let q := num / den
  let r := num % den
  if den < 2 * r ∨ (2 * r = den ∧ q % 2 = 1) then q + 1 else q

def scaleOf (num den : Nat) : Int :=
  let guess : Int := (num.log2 : Int) - den.log2 - 53
  let (n, d) := shifted num den (-guess)
  max leastExponent (if n / d < Nat.pow 2 53 then guess else guess + 1)

def ofQuotient? (num den : Nat) : Option Magnitude :=
  if num = 0 then some zero
  else
    let e := scaleOf num den
    let (n, d) := shifted num den (-e)
    let m := roundQuotient n d
    let x : Magnitude := if m = Nat.pow 2 53 then ⟨Nat.pow 2 52, e + 1⟩ else ⟨m, e⟩
    if greatestExponent < x.exponent then none else some x

def toQuotient (x : Magnitude) : Nat × Nat := shifted x.mantissa 1 x.exponent

def mul? (x y : Magnitude) : Option Magnitude :=
  let (a, b) := x.toQuotient
  let (c, d) := y.toQuotient
  ofQuotient? (a * c) (b * d)

def div? (x y : Magnitude) : Option Magnitude :=
  let (a, b) := x.toQuotient
  let (c, d) := y.toQuotient
  ofQuotient? (a * d) (b * c)

def powerOfTen? (k : Nat) : Option Magnitude := ofQuotient? (Nat.pow 10 k) 1

/-- `x * 10 ^ e`, by one rounded multiplication or division with a power of ten up to `10 ^ 308`.
For smaller exponents `10 ^ 308` is divided out first, `steps` times at most. -/
def scaleByTen? (x : Magnitude) (e : Int) : (steps : Nat) → Option Magnitude
  | 0 => some zero
  | steps + 1 =>
    if e.natAbs ≤ 308 then do
      let p ← powerOfTen? e.natAbs
      if 0 ≤ e then x.mul? p else x.div? p
    else if x.isZero then some zero
    else if 0 ≤ e then none
    else do
      let p ← powerOfTen? 308
      (← x.div? p).scaleByTen? (e + 308) steps

/-- The number written as an integer below `2 ^ 64` and a power of ten. Three divisions by
`10 ^ 308` bring such an integer to zero. -/
def ofDecimal? (significand : Nat) (e : Int) : Option Magnitude := do
  let x ← ofQuotient? significand 1
  x.scaleByTen? e 4

end Magnitude

structure Binary64 where
  negative : Bool
  magnitude : Magnitude
  deriving DecidableEq, Repr

namespace Binary64

def equal (x y : Binary64) : Bool :=
  (x.magnitude.isZero && y.magnitude.isZero) || x == y

def isIntegral (x : Binary64) : Bool :=
  let (n, d) := x.magnitude.toQuotient
  n % d == 0

end Binary64

end SchemaEvolution.Decimal
