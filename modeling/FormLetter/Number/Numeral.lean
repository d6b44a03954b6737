import FormLetter.Number.Binary64
import FormLetter.Text.Blank
import FormLetter.Text.Digit

/-!
# Decimal notation

What numerals of both number formats have in common: an optional sign, digits with an optional
point, an optional exponent, or a word for what is not a finite number. `Numeral.ofText?` reads it;
each format then gives the numeral its own meaning.

A group of digits may be divided by single underscores, letters count in either case, the digits of
all scripts mean the same, and blanks around the whole numeral are ignored.
-/

namespace FormLetter

/-- A number as it is written in decimal notation. -/
inductive Numeral
  /-- The value is `digits * 10 ^ exponent`, negated if `negative`. -/
  | finite (negative : Bool) (digits : Nat) (exponent : Int)
  | infinite (negative : Bool)
  /-- Not a number, quiet or signalling, with the digits that may follow the word. -/
  | nan (negative signalling : Bool) (payload : Nat)
deriving DecidableEq, Repr, Inhabited

/-- The value of a text of decimal digits. -/
def digitsValue (t : Text) : Nat := t.foldl (fun value c => 10 * value + (c.toNat - '0'.toNat)) 0

namespace Numeral

/-- Splits off a leading sign; the flag says whether it is a minus. -/
def sign : Text → Bool × Text
  | '-' :: rest => (true, rest)
  | '+' :: rest => (false, rest)
  | t => (false, t)

/-- A text of at least one digit and nothing else. -/
def digits? (t : Text) : Option Nat :=
  if !t.isEmpty && t.all Char.isDigit then some (digitsValue t) else none

/-- The exponent after its mark: an optional sign and digits. -/
def exponent? (t : Text) : Option Int :=
  let (negative, digits) := sign t
  (digits? digits).map fun n => if negative then -(n : Int) else n

/-- Digits with at most one point among them: the digits as one number, and how many of them follow
the point. -/
def fixed? (t : Text) : Option (Nat × Nat) :=
  match Text.splitOn '.' t with
  | [whole] => (digits? whole).map (·, 0)
  | [whole, fraction] => (digits? (whole ++ fraction)).map (·, fraction.length)
  | _ => none

/-- An unsigned finite numeral: digits, perhaps with a point, perhaps with an exponent. -/
def unsigned? (t : Text) : Option (Nat × Int) :=
  match Text.splitOn 'e' t with
  | [fixed] => (fixed? fixed).map fun (digits, places) => (digits, -(places : Int))
  | [fixed, exponent] => do
    let (digits, places) ← fixed? fixed
    let e ← exponent? exponent
    pure (digits, e - places)
  | _ => none

/-- The text without blanks around it. -/
def trimmed (t : Text) : Text :=
  ((t.dropWhile isBlankChar).reverse.dropWhile isBlankChar).reverse

/-- The text without the underscores that divide groups of digits. -/
def ungrouped (t : Text) : Text := t.filter (· != '_')

/-- The number that a text writes, if it writes one. -/
def ofText? (t : Text) : Option Numeral :=
  let (negative, rest) := sign (Text.lower (ungrouped ((trimmed t).map commonDigit)))
  if rest = Text.ofString "inf" || rest = Text.ofString "infinity" then some (.infinite negative)
  else if rest.take 3 = Text.ofString "nan" then
    if rest.length = 3 then some (.nan negative false 0)
    else (digits? (rest.drop 3)).map (.nan negative false)
  else if rest.take 4 = Text.ofString "snan" then
    if rest.length = 4 then some (.nan negative true 0)
    else (digits? (rest.drop 4)).map (.nan negative true)
  else (unsigned? rest).map fun (digits, exponent) => .finite negative digits exponent

end Numeral

/-- The nearest number of the binary format to a numeral. -/
def Binary64.ofNumeral : Numeral → Binary64
  | .finite negative digits exponent => .ofScientific negative digits exponent
  | .infinite negative => .infinite negative
  | .nan .. => .nan

end FormLetter
