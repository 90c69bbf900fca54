import BlockCircuit.Decimal.Double

/-!
# The shortest decimal of a double

A magnitude stands for all numbers that round to it. Its shortest decimal is the one with the
fewest digits among those numbers; of two with equally many digits the nearer one is taken, and of
two equally near ones the even one.
-/

namespace BlockCircuit.Decimal

/-- The decimal `digits * 10 ^ exponent`. -/
structure Scientific where
  digits : Nat
  exponent : Int
deriving DecidableEq, Repr

namespace Magnitude

/-- The numbers that round to a magnitude, as `low / den` to `high / den` around `mid / den`. The
ends belong to them if the mantissa is even. -/
structure Interval where
  low : Nat
  mid : Nat
  high : Nat
  den : Nat
  closed : Bool

/-- The numbers that round to `x`. The next magnitude below is only half as far away where the
exponent changes. -/
def interval (x : Magnitude) : Interval :=
  let e := x.exponent - 2
  let unit := Nat.pow 2 e.toNat
  let gap := if x.mantissa = hiddenBit ∧ minExponent < x.exponent then 1 else 2
  { low := (4 * x.mantissa - gap) * unit
    mid := 4 * x.mantissa * unit
    high := (4 * x.mantissa + 2) * unit
    den := Nat.pow 2 (-e).toNat
    closed := x.mantissa % 2 = 0 }

end Magnitude

/-- The number of decimal digits of a natural number; zero has none. -/
def digitCount (n : Nat) : Nat :=
  if n = 0 then 0 else (Nat.toDigits 10 n).length

/-- The exponent of the first digit of `num / den`, that is, the greatest `k` with
`10 ^ k ≤ num / den`. -/
def leadingExponent (num den : Nat) : Int :=
  if den ≤ num then digitCount (num / den) - 1
  else -digitCount ((den + num - 1) / num - 1)

namespace Magnitude.Interval

/-- Whether `digits * 10 ^ exponent` is one of the numbers. -/
def contains (i : Interval) (s : Scientific) : Bool :=
  let up := Nat.pow 10 s.exponent.toNat
  let down := Nat.pow 10 (-s.exponent).toNat
  let value := s.digits * up * i.den
  if i.closed then decide (i.low * down ≤ value ∧ value ≤ i.high * down)
  else decide (i.low * down < value ∧ value < i.high * down)

/-- The decimal with the last digit at `10 ^ exponent` that is nearest to the middle, if one of the
two around the middle is among the numbers. -/
def nearest? (i : Interval) (exponent : Int) : Option Scientific :=
  let up := Nat.pow 10 exponent.toNat
  let down := Nat.pow 10 (-exponent).toNat
  let a := i.mid * down
  let b := up * i.den
  let below : Scientific := ⟨a / b, exponent⟩
  let above : Scientific := ⟨a / b + 1, exponent⟩
  match i.contains below, i.contains above with
  | true, true => some ⟨roundQuotient a b, exponent⟩
  | true, false => some below
  | false, true => some above
  | false, false => none

end Magnitude.Interval

/-- Takes zeros off the end of the digits. -/
def Scientific.trim (fuel : Nat) (s : Scientific) : Scientific :=
  match fuel with
  | 0 => s
  | fuel + 1 =>
      if s.digits ≠ 0 ∧ s.digits % 10 = 0 then Scientific.trim fuel ⟨s.digits / 10, s.exponent + 1⟩
      else s

/-- The shortest decimal that rounds to a magnitude other than zero. Seventeen digits are always
enough. -/
def Magnitude.shortest (x : Magnitude) : Scientific :=
  let i := x.interval
  let first := leadingExponent i.mid i.den
  let found := (List.range 17).findSome? fun (n : Nat) => i.nearest? (first - n)
  (found.getD ⟨0, 0⟩).trim 17

/-! ## Text -/

/-- Where decimals are written with a point among their digits: if the exponent of the first digit
is between these two. -/
structure Layout where
  leastPlain : Int
  mostPlain : Int

/-- From a hundred-thousandth to less than ten quadrillions decimals are plain. -/
def layout : Layout := ⟨-5, 15⟩

/-- Digits with a point and at least one digit on each side of it. `first` is the exponent of the
first digit. -/
def plainText (digits : List Char) (first : Int) : List Char :=
  if first < 0 then
    '0' :: '.' :: List.replicate (-first - 1).toNat '0' ++ digits
  else
    let whole := digits.take (first.toNat + 1)
    let fraction := digits.drop (first.toNat + 1)
    whole ++ List.replicate (first.toNat + 1 - digits.length) '0' ++ '.' ::
      (if fraction = [] then ['0'] else fraction)

/-- Digits with a point after the first one, and the exponent of the first one with its sign. -/
def exponentText (digits : List Char) (first : Int) : List Char :=
  let fraction := if digits.length ≤ 1 then [] else '.' :: digits.drop 1
  let sign := if first < 0 then '-' else '+'
  digits.take 1 ++ fraction ++ 'e' :: sign :: Nat.toDigits 10 first.natAbs

/-- The text of a magnitude. -/
def Magnitude.text (x : Magnitude) : List Char :=
  if x.mantissa = 0 then ['0', '.', '0']
  else
    let s := x.shortest
    let digits := Nat.toDigits 10 s.digits
    let first := s.exponent + digits.length - 1
    if layout.leastPlain ≤ first ∧ first ≤ layout.mostPlain then plainText digits first
    else exponentText digits first

/-- The text of a double: its sign if it is negative, and its shortest decimal. -/
def Double.text (x : Double) : String :=
  String.ofList (if x.negative then '-' :: x.magnitude.text else x.magnitude.text)

end BlockCircuit.Decimal
