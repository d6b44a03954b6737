import FormLetter.Text.Basic

/-!
# Binary floating-point numbers

The numbers of the 64-bit binary format, held by their mathematical value: a finite number is a
sign, a whole significand and a power of two. Arithmetic on machine floats plays no part, so each
fact about them is a fact about natural numbers.

* **Rounding.** `ofRatio` gives the nearest representable number to a fraction; a tie goes to the
  even significand, and what exceeds the largest finite number by half a unit is infinite.
* **Reading.** `ofText?` reads decimal notation and rounds once, from the exact value.
-/

namespace FormLetter

/-- A number of the 64-bit binary format. -/
inductive Binary64
  /-- The value is `significand * 2 ^ exponent`, negated if `negative`. -/
  | finite (negative : Bool) (significand : Nat) (exponent : Int)
  | infinite (negative : Bool)
  | nan
deriving DecidableEq, Repr, Inhabited

/-- The nearest whole number to `num / den`; a tie goes to the even one. -/
def roundHalfEven (num den : Nat) : Nat :=
  let low := num / den
  let rest := 2 * (num % den)
  if rest < den then low
  else if den < rest then low + 1
  else if low % 2 = 0 then low else low + 1

namespace Binary64

/-- The least exponent of a finite number. -/
def minExponent : Int := -1074

/-- The greatest exponent of a finite number. -/
def maxExponent : Int := 971

/-- The number of bits of a full significand. -/
def precision : Nat := 53

/-- The zero of the given sign. -/
def zero (negative : Bool) : Binary64 := .finite negative 0 minExponent

/-- `num / den * 2 ^ (-shift)` as a numerator and a denominator. -/
def scaled (num den : Nat) (shift : Int) : Nat × Nat :=
  if shift ≤ 0 then (num * Nat.pow 2 shift.natAbs, den) else (num, den * Nat.pow 2 shift.natAbs)

/-- The nearest number to `num / den`, negated if `negative`. The first guess at the exponent comes
from the lengths of both numbers and is at most one too small; a significand that is too long then
moves it up. -/
def ofRatio (negative : Bool) (num den : Nat) : Binary64 :=
  if num = 0 then zero negative
  else
    let guess : Int := (num.log2 : Int) - (den.log2 : Int) - precision
    let exponent := max guess minExponent
    let (n, d) := scaled num den exponent
    let exponent := if Nat.pow 2 precision ≤ n / d then exponent + 1 else exponent
    let (n, d) := scaled num den exponent
    let significand := roundHalfEven n d
    let (significand, exponent) :=
      if significand = Nat.pow 2 precision then (Nat.pow 2 (precision - 1), exponent + 1)
      else (significand, exponent)
    if maxExponent < exponent then .infinite negative else .finite negative significand exponent

/-- A number with more digits than this before its point is beyond all finite ones. -/
def mostDigits : Int := 310

/-- A number with more zeros than this between its point and its first digit rounds to zero. -/
def mostZeros : Int := 330

/-- `digits * 10 ^ exponent`, rounded. The place of the first digit settles numbers that are far out
of range. -/
def ofScientific (negative : Bool) (digits : Nat) (exponent : Int) : Binary64 :=
  let leading : Int := (Text.ofNat digits).length + exponent
  if digits = 0 || leading < -mostZeros then zero negative
  else if mostDigits < leading then .infinite negative
  else if exponent < 0 then ofRatio negative digits (Nat.pow 10 exponent.natAbs)
  else ofRatio negative (digits * Nat.pow 10 exponent.natAbs) 1

end Binary64

end FormLetter
