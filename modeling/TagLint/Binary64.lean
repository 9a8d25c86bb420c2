/-!
# Decimal text of 64-bit floating-point numbers

Numbers of the binary64 format, read from a decimal and written with the fewest digits that read back
as the same number, always in positional notation. All arithmetic is exact.

* `Binary64.ofDecimal`: the nearest number, a tie going to the even significand.
* `Binary64.display`: the shortest decimal, and of two equally near ones the greater.
-/

namespace TagLint

/-- A number of the binary64 format. -/
inductive Binary64
  | nan
  | infinite (negative : Bool)
  /-- The number with this significand, times two to this exponent. -/
  | finite (negative : Bool) (significand : Nat) (exponent : Int)
deriving Repr, DecidableEq, Inhabited

namespace Binary64

/-- The least exponent of the format. -/
def minExponent : Int := -1074

/-- The greatest exponent of the format. -/
def maxExponent : Int := 971

/-- The number of significands below the normal ones: those have 53 bits. -/
def leastNormal : Nat := Nat.pow 2 52

/-- A fraction times a power of a base, as a numerator and a denominator. -/
def scale (base : Nat) (exponent : Int) (num den : Nat) : Nat × Nat :=
  if 0 ≤ exponent then (num * Nat.pow base exponent.toNat, den)
  else (num, den * Nat.pow base (-exponent).toNat)

/-- The integer nearest to a fraction, the even one if two are equally near. -/
def roundToEven (num den : Nat) : Nat :=
  let floor := num / den
  let twice := 2 * (num % den)
  if twice < den ∨ (twice = den ∧ floor % 2 = 0) then floor else floor + 1

/-- The exponent of the greatest power of two that is not above a positive fraction. -/
def log2Floor (num den : Nat) : Int :=
  let guess : Int := (Nat.log2 num : Int) - Nat.log2 den
  let power := scale 2 guess 1 1
  if power.1 * den ≤ num * power.2 then guess else guess - 1

/-- The number nearest to a positive fraction. -/
def ofFraction (negative : Bool) (num den : Nat) : Binary64 :=
  let exponent := max (log2Floor num den - 52) minExponent
  let scaled := scale 2 (-exponent) num den
  let rounded := roundToEven scaled.1 scaled.2
  let (significand, exponent) :=
    if rounded = 2 * leastNormal then (leastNormal, exponent + 1) else (rounded, exponent)
  if maxExponent < exponent then .infinite negative else .finite negative significand exponent

/-- The number nearest to a decimal, given by its digits and the power of ten that they count. -/
def ofDecimal (negative : Bool) (digits : Nat) (exponent : Int) : Binary64 :=
  let magnitude := ((Nat.toDigits 10 digits).length : Int) + exponent
  if digits = 0 ∨ magnitude < -330 then .finite negative 0 minExponent
  else if 310 < magnitude then .infinite negative
  else
    let fraction := scale 10 exponent digits 1
    ofFraction negative fraction.1 fraction.2

/-! ## Shortest digits -/

/-- Whether a fraction reads back as a number: it lies between the midpoints to the neighbours of the
number, and may be a midpoint itself if the significand is even. -/
def readsBack (significand : Nat) (exponent : Int) (num den : Nat) : Bool :=
  let nearBelow := significand = leastNormal ∧ minExponent < exponent
  let low := scale 2 (exponent - 2) (4 * significand - if nearBelow then 1 else 2) 1
  let high := scale 2 (exponent - 2) (4 * significand + 2) 1
  if significand % 2 = 0 then low.1 * den ≤ num * low.2 ∧ num * high.2 ≤ high.1 * den
  else low.1 * den < num * low.2 ∧ num * high.2 < high.1 * den

/-- The multiple of a power of ten that reads back as a number and is nearest to it. -/
def onGrid? (significand : Nat) (exponent power : Int) : Option Nat :=
  let value := scale 2 exponent significand 1
  let grid := scale 10 power 1 1
  let num := value.1 * grid.2
  let den := value.2 * grid.1
  let floor := num / den
  let accepts (n : Nat) : Bool :=
    let candidate := scale 10 power n 1
    readsBack significand exponent candidate.1 candidate.2
  let upIsNearer := den ≤ 2 * (num % den)
  match accepts floor, accepts (floor + 1) with
  | true, true => some (if upIsNearer then floor + 1 else floor)
  | true, false => some floor
  | false, true => some (floor + 1)
  | false, false => none

/-- The fewest digits that read back as a number, and the power of ten that they count. The powers
are tried from the greatest to the least. -/
def shortest (significand : Nat) (exponent : Int) : Nat × Int :=
  ((List.range 660).findSome? fun (i : Nat) =>
    let power : Int := 310 - (i : Int)
    (onGrid? significand exponent power).map (·, power)).getD (0, 0)

/-- Digits that count a power of ten, in positional notation. -/
def positional (digits : Nat) (power : Int) : List Char :=
  let ds := Nat.toDigits 10 digits
  if 0 ≤ power then ds ++ List.replicate power.toNat '0'
  else
    let places := (-power).toNat
    if places < ds.length then ds.take (ds.length - places) ++ '.' :: ds.drop (ds.length - places)
    else ['0', '.'] ++ List.replicate (places - ds.length) '0' ++ ds

/-- The text of a number. -/
def display : Binary64 → String
  | .nan => "NaN"
  | .infinite negative => if negative then "-inf" else "inf"
  | .finite negative significand exponent =>
    let digits :=
      if significand = 0 then ['0']
      else
        let (digits, power) := shortest significand exponent
        positional digits power
    String.ofList (if negative then '-' :: digits else digits)

end Binary64

end TagLint
