import FormLetter.Number.Numeral
import FormLetter.Number.Shortest

/-!
# How numbers are shown

* **Binary numbers** show the shortest digits that read back. They stand in positional notation,
  with at least one digit after the point, from `0.0001` up to but excluding `10 ^ 16`, and in
  scientific notation, with an exponent of at least two digits, everywhere else.
* **Decimal numbers** keep the digits that they were given, trailing zeros included. They stand in
  positional notation unless the exponent is positive or more than six digits follow the point
  before the first one that counts.
-/

namespace FormLetter

/-- A minus in front of a negative number. -/
def signText (negative : Bool) : Text := if negative then ['-'] else []

/-- An exponent with its sign, filled with zeros to `width` digits. -/
def exponentText (width : Nat) (exponent : Int) : Text :=
  let digits := Text.ofNat exponent.natAbs
  (if exponent < 0 then '-' else '+') :: List.replicate (width - digits.length) '0' ++ digits

/-- Digits with a point after the first `point` of them; zeros fill the gap to a point that lies
outside the digits. Without digits after the point there is no point. -/
def pointed (digits : Text) (point : Int) : Text :=
  if point ≤ 0 then '0' :: '.' :: List.replicate point.natAbs '0' ++ digits
  else if digits.length ≤ point.natAbs then
    digits ++ List.replicate (point.natAbs - digits.length) '0'
  else digits.take point.natAbs ++ '.' :: digits.drop point.natAbs

/-- The text without the zeros at its end. -/
def withoutTrailingZeros (t : Text) : Text := (t.reverse.dropWhile (· == '0')).reverse

namespace Binary64

/-- The text of a number that is shown in full. -/
def text : Binary64 → Text
  | .nan => Text.ofString "nan"
  | .infinite negative => signText negative ++ Text.ofString "inf"
  | .finite negative 0 _ => signText negative ++ Text.ofString "0.0"
  | .finite negative significand exponent =>
    let (value, place) := shortest significand exponent
    let all := Text.ofNat value
    let digits := withoutTrailingZeros all
    let point : Int := all.length + place
    signText negative ++
      if -4 < point && point ≤ 16 then
        let shown := pointed digits point
        if shown.contains '.' then shown else shown ++ Text.ofString ".0"
      else pointed digits 1 ++ 'e' :: exponentText 2 (point - 1)

end Binary64

/-- The text of a decimal number. -/
def Numeral.text : Numeral → Text
  | .infinite negative => signText negative ++ Text.ofString "Infinity"
  | .nan negative signalling payload =>
    signText negative ++ Text.ofString (if signalling then "sNaN" else "NaN")
      ++ if payload = 0 then [] else Text.ofNat payload
  | .finite negative value exponent =>
    let digits := Text.ofNat value
    let leading : Int := digits.length + exponent
    signText negative ++
      if exponent ≤ 0 && -6 < leading then pointed digits leading
      else pointed digits 1 ++ 'E' :: exponentText 1 (leading - 1)

end FormLetter
