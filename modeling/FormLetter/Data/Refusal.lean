import FormLetter.Data.Access

/-!
# Conversions that are refused

Between an integer and its digits the interpreter converts up to a number of digits and refuses all
that is longer. `Data.Access` looks into data as if nothing were refused; this module says where a
conversion is refused on the way. A refusal ends everything at once, so whoever looks into data
asks first whether one is met, and what `Data.Access` says counts only if there is none.

* **Keys.** Looking a segment up shows all keys of the mapping, whether they match or not. One key
  that cannot be shown is enough to refuse every lookup in its mapping.
* **List positions** are read from the digits of a segment; leading zeros count.
* **Values** are refused when they are shown, not when a condition looks at them.

What the interpreter refuses besides is left out: nesting that is too deep for its stack, and texts
with halves of surrogate pairs, which are no sequences of characters.
-/

namespace FormLetter

/-- The most digits with which an integer is read or shown. -/
def digitLimit : Nat := 4300

/-- A conversion that the interpreter refuses. -/
inductive Refusal
  /-- A numeral with this many digits was to be read. -/
  | reading (digits : Nat)
  /-- An integer with too many digits was to be shown. -/
  | showing
deriving DecidableEq, Repr

/-- The refusal in words. -/
def Refusal.message : Refusal → String
  | .reading digits =>
    "Exceeds the limit (" ++ toString digitLimit
      ++ " digits) for integer string conversion: value has " ++ toString digits
      ++ " digits; use sys.set_int_max_str_digits() to increase the limit"
  | .showing =>
    "Exceeds the limit (" ++ toString digitLimit
      ++ " digits) for integer string conversion; use sys.set_int_max_str_digits() to increase "
      ++ "the limit"

/-- Whether an integer has few enough digits to be shown. -/
def isShowable (i : Int) : Bool := decide (i.natAbs < Nat.pow 10 digitLimit)

mutual

/-- Whether the text of a key can be had. -/
def Key.isShowable : Key → Bool
  | .int i => FormLetter.isShowable i
  | .tuple items => Key.areShowable items
  | _ => true

/-- Whether the texts of several keys can be had. -/
def Key.areShowable : List Key → Bool
  | [] => true
  | item :: rest => Key.isShowable item && Key.areShowable rest

end

/-- The refusal on looking anything up among entries. -/
def lookupRefusal? (entries : List (Key × Value)) : Option Refusal :=
  if entries.all (·.1.isShowable) then none else some .showing

/-- The refusal on reading a list position. -/
def positionRefusal? (segment : Text) : Option Refusal :=
  if isNumeral segment && digitLimit < segment.length then some (.reading segment.length) else none

/-- The refusal on one step along a path. -/
def descentRefusal? (segment : Text) : Value → Option Refusal
  | .mapping entries => lookupRefusal? entries
  | .list _ => positionRefusal? segment
  | .tuple _ => positionRefusal? segment
  | _ => none

/-- The first refusal on following the remaining segments of `path` from a value. -/
def traversalRefusal? (path : Path) : List Text → Value → Option Refusal
  | [], _ => none
  | segment :: rest, value =>
    (descentRefusal? segment value).or <|
      match descend path segment value with
      | .ok part => traversalRefusal? path rest part
      | .error _ => none

/-- The first refusal on the way to the value that a path names. -/
def pathRefusal? (data : Value) (path : Path) : Option Refusal := traversalRefusal? path path data

/-- The refusal on showing a scalar. -/
def Value.refusal? : Value → Option Refusal
  | .int i => if isShowable i then none else some .showing
  | _ => none

/-- The first refusal on the way to the text to show for a path. -/
def textRefusal? (data : Value) (path : Path) : Option Refusal :=
  (pathRefusal? data path).or <|
    match path, traverse data path with
    | _ :: _, .ok value => value.refusal?
    | _, _ => none

end FormLetter
