/-!
# Text as a list of characters

Every position and length that a template reports counts characters, so text is a plain list of
characters: a position is an index, a length is `List.length`, and cutting is `take` and `drop`.

* **Splitting.** `splitOn` cuts at every occurrence of one separator and keeps empty pieces, and
  `joinWith` undoes it, so a dotted path and its segments carry the same information.
* **Order.** `ordered` lists texts by character code, shorter first among equal beginnings. Error
  reports that name several keys use it, which makes them independent of the order of the data.
-/

namespace FormLetter

/-- Template text: characters in reading order. -/
abbrev Text := List Char

namespace Text

/-- The text of a string literal or of any other string. -/
def ofString (s : String) : Text := s.toList

/-- The pieces between the separators, empty ones included; there is always at least one. -/
def splitOn (separator : Char) : Text → List Text
  | [] => [[]]
  | c :: rest =>
    if c = separator then [] :: splitOn separator rest
    else
      match splitOn separator rest with
      | [] => [[c]]
      | piece :: pieces => (c :: piece) :: pieces

/-- The pieces in order with `separator` between neighbours. -/
def joinWith (separator : Text) : List Text → Text
  | [] => []
  | [piece] => piece
  | piece :: pieces => piece ++ separator ++ joinWith separator pieces

/-- Whether the first text may stand before the second in an order by character codes. -/
def inOrder (a b : Text) : Bool := !List.lex b a fun c d => decide (c < d)

/-- The texts in ascending order of character codes. -/
def ordered (texts : List Text) : List Text := texts.mergeSort inOrder

/-- ASCII letters in lower case, all else unchanged. -/
def lower (t : Text) : Text := t.map Char.toLower

/-- The decimal numeral of a natural number. -/
def ofNat (n : Nat) : Text := Nat.toDigits 10 n

/-- The decimal numeral of an integer, with a sign only when it is negative. -/
def ofInt : Int → Text
  | .ofNat n => ofNat n
  | .negSucc n => '-' :: ofNat (n + 1)

end Text

end FormLetter
