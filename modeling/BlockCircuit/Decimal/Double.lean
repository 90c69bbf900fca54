/-!
# Double-precision numbers

A finite double is a sign and a magnitude `mantissa * 2 ^ exponent`, with a mantissa below `2 ^ 53`
and an exponent from -1074 to 971. Magnitudes are computed exactly, as quotients of natural numbers,
and then rounded once: to the nearest one, and to an even mantissa when two are equally near.
-/

namespace BlockCircuit.Decimal

/-- The magnitude `mantissa * 2 ^ exponent`. -/
structure Magnitude where
  mantissa : Nat
  exponent : Int
deriving DecidableEq, Repr

/-- A quotient rounded to the nearest whole number, a half to the even one. -/
def roundQuotient (a b : Nat) : Nat :=
  let q := a / b
  let r := a % b
  if 2 * r < b then q
  else if b < 2 * r then q + 1
  else if q % 2 = 0 then q
  else q + 1

namespace Magnitude

/-- The least exponent. -/
def minExponent : Int := -1074

/-- The greatest exponent. -/
def maxExponent : Int := 971

/-- The least mantissa of 53 bits. Only magnitudes with the least exponent have smaller ones. -/
def hiddenBit : Nat := 4503599627370496

/-- Zero. -/
def zero : Magnitude := ⟨0, minExponent⟩

/-- A magnitude as a quotient. -/
def ratio (x : Magnitude) : Nat × Nat :=
  (x.mantissa * Nat.pow 2 x.exponent.toNat, Nat.pow 2 (-x.exponent).toNat)

/-- The quotient `num / den` divided by `2 ^ e`, again as a quotient. -/
def scaled (num den : Nat) (e : Int) : Nat × Nat :=
  (num * Nat.pow 2 (-e).toNat, den * Nat.pow 2 e.toNat)

/-- The exponent with which `num / den` has a mantissa of 53 bits, or else the least one. -/
def exponentFor (num den : Nat) : Int :=
  let e := max ((num.log2 : Int) - den.log2 - 52) minExponent
  let (a, b) := scaled num den e
  if minExponent < e ∧ a / b < hiddenBit then e - 1 else e

/-- The magnitude nearest to `num / den`, unless that is beyond the greatest one. -/
def ofRatio? (num den : Nat) : Option Magnitude :=
  if num = 0 then some zero
  else
    let e := exponentFor num den
    let (a, b) := scaled num den e
    let m := roundQuotient a b
    let x : Magnitude := if m = 2 * hiddenBit then ⟨hiddenBit, e + 1⟩ else ⟨m, e⟩
    if maxExponent < x.exponent then none else some x

/-- The magnitude nearest to a natural number of at most 1023 bits. -/
def ofNat (n : Nat) : Magnitude :=
  (ofRatio? n 1).getD zero

/-- The rounded product. -/
def mul? (x y : Magnitude) : Option Magnitude :=
  ofRatio? (x.ratio.1 * y.ratio.1) (x.ratio.2 * y.ratio.2)

/-- The rounded quotient, unless it is beyond the greatest magnitude. -/
def div? (x y : Magnitude) : Option Magnitude :=
  ofRatio? (x.ratio.1 * y.ratio.2) (x.ratio.2 * y.ratio.1)

/-- The magnitude nearest to a power of ten; `k` is at most 308. -/
def powerOfTen (k : Nat) : Magnitude :=
  ofNat (Nat.pow 10 k)

/-- A magnitude divided by `10 ^ k`; `k` is at most 308. -/
def divPowerOfTen (x : Magnitude) (k : Nat) : Magnitude :=
  (x.div? (powerOfTen k)).getD zero

/-- A magnitude times `10 ^ e`, with one rounding for each factor up to `10 ^ 308`, unless the
product is beyond the greatest magnitude. -/
def timesPowerOfTen? (x : Magnitude) (e : Int) : Option Magnitude :=
  if x.mantissa = 0 then some x
  else if 308 < e then none
  else if 0 ≤ e then x.mul? (powerOfTen e.toNat)
  else if -308 ≤ e then some (x.divPowerOfTen (-e).toNat)
  else timesPowerOfTen? (x.divPowerOfTen 308) (e + 308)
termination_by (-e).toNat

end Magnitude

/-- A finite double-precision number. Zero has a sign too. -/
structure Double where
  negative : Bool
  magnitude : Magnitude
deriving DecidableEq, Repr

end BlockCircuit.Decimal
