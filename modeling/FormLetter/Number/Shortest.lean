import FormLetter.Number.Binary64

/-!
# The shortest decimal that reads back

A binary number stands for every real number that rounds to it: an interval around its value, whose
ends belong to it when the significand is even. `shortest` gives the decimal with the fewest digits
inside that interval, and the nearest such decimal to the value when there are several.

* **One grid after another.** The multiples of a power of ten form a grid. If the interval holds any
  point of a grid, it holds one of the two neighbours of the value there, so only those are tried,
  from coarse grids to fine ones. Seventeen digits are always enough.
* **Exact arithmetic.** Both sides of each comparison are brought to a common denominator, so no
  rounding happens on the way.
-/

namespace FormLetter

namespace Binary64

/-- `base ^ exponent` as a numerator and a denominator. -/
def ratioPow (base : Nat) (exponent : Int) : Nat × Nat :=
  if exponent < 0 then (1, Nat.pow base exponent.natAbs) else (Nat.pow base exponent.natAbs, 1)

/-- The ends of the interval that rounds to `significand * 2 ^ exponent`, in quarters of the unit
`2 ^ exponent`. Below a power of two the lower neighbour is only half a unit away. -/
def roundingEnds (significand : Nat) (exponent : Int) : Nat × Nat :=
  let atPower := significand = Nat.pow 2 (precision - 1) ∧ minExponent < exponent
  (4 * significand - (if atPower then 1 else 2), 4 * significand + 2)

/-- The multiple of `10 ^ place` nearest to `m * 2 ^ exponent` among its two neighbours on
that grid that round back to it, if one does; grids coarser than the number itself give nothing. An
exact tie goes to the even multiple. -/
def onGrid? (m : Nat) (exponent place : Int) : Option Nat :=
  let (quarterNum, quarterDen) := ratioPow 2 (exponent - 2)
  let (gridNum, gridDen) := ratioPow 10 place
  let quarter := quarterNum * gridDen
  let grid := gridNum * quarterDen
  let (lowEnd, highEnd) := roundingEnds m exponent
  let value := 4 * m * quarter
  let low := value / grid
  let high := low + 1
  let inside := fun d : Nat =>
    if m % 2 = 0 then lowEnd * quarter ≤ d * grid ∧ d * grid ≤ highEnd * quarter
    else lowEnd * quarter < d * grid ∧ d * grid < highEnd * quarter
  let toLow := value - low * grid
  let toHigh := high * grid - value
  if low = 0 then none
  else if inside low then
    if inside high && (toHigh < toLow || toHigh == toLow && high % 2 == 0) then some high
    else some low
  else if inside high then some high
  else none

/-- A place that is not below that of the first digit of `significand * 2 ^ exponent`. -/
def firstPlace (significand : Nat) (exponent : Int) : Int :=
  (significand.log2 + exponent + 1) * 30103 / 100000 + 1

/-- The shortest decimal `digits * 10 ^ place` that rounds to `significand * 2 ^ exponent`. -/
def shortest (significand : Nat) (exponent : Int) : Nat × Int :=
  let first := firstPlace significand exponent
  let hit := (List.range 20).findSome? fun step : Nat =>
    let place := first - step
    (onGrid? significand exponent place).map (·, place)
  hit.getD (0, 0)

end Binary64

end FormLetter
