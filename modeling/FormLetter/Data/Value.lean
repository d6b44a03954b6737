import FormLetter.Number.Numeral
import FormLetter.Number.Shortest

/-!
# The data that fills a template

Data is a tree of scalars, lists and mappings.

* **Two flavours of keys.** A mapping is keyed by text, by symbols, or by other plain values, which
  count as textual through the way they are shown. Templates only ever spell a key; `Data.Access`
  finds the one that is meant.
* **One entry per key.** Numbers of different kinds are the same key when they have the same value,
  and the truth values count as the numbers one and zero. `Value.ofEntries` keeps the first
  spelling of a repeated key in its place, with the last value given for it.
* **Lists and tuples** are interchangeable wherever a list is expected; reports tell them apart.
-/

namespace FormLetter

/-- What a mapping can be keyed by. -/
inductive Key
  | text (t : Text)
  | symbol (name : Text)
  | null
  | truth (b : Bool)
  | int (i : Int)
  | binary (x : Binary64)
  | decimal (n : Numeral)
  | bytes (bs : List UInt8)
  | tuple (items : List Key)
deriving Repr, Inhabited

/-- A piece of data. -/
inductive Value
  | null
  | truth (b : Bool)
  | int (i : Int)
  | binary (x : Binary64)
  | decimal (n : Numeral)
  | text (t : Text)
  | symbol (name : Text)
  | bytes (bs : List UInt8)
  | list (items : List Value)
  | tuple (items : List Value)
  | mapping (entries : List (Key × Value))
deriving Repr, Inhabited

/-! ## Kinds -/

/-- The kinds of data. -/
inductive Kind
  | null | truth | int | binary | decimal | text | symbol | bytes | list | tuple | mapping
deriving DecidableEq, Repr

/-- The kind of a piece of data. -/
def Value.kind : Value → Kind
  | .null => .null
  | .truth _ => .truth
  | .int _ => .int
  | .binary _ => .binary
  | .decimal _ => .decimal
  | .text _ => .text
  | .symbol _ => .symbol
  | .bytes _ => .bytes
  | .list _ => .list
  | .tuple _ => .tuple
  | .mapping _ => .mapping

/-- The word for a kind in reports. -/
def Kind.name : Kind → String
  | .null => "NoneType"
  | .truth => "bool"
  | .int => "int"
  | .binary => "float"
  | .decimal => "Decimal"
  | .text => "str"
  | .symbol => "Symbol"
  | .bytes => "bytes"
  | .list => "list"
  | .tuple => "tuple"
  | .mapping => "dict"

/-- The members of a list or tuple. -/
def Value.items? : Value → Option (List Value)
  | .list items => some items
  | .tuple items => some items
  | _ => none

/-! ## Keys of equal value -/

/-- The numeric value of a key, whatever its kind. Every finite number of either format is a decimal
fraction. -/
inductive Magnitude
  /-- The value is `digits * 10 ^ exponent`, negated if `negative`. The last digit is not zero, and
  zero itself has no sign and no exponent. -/
  | finite (negative : Bool) (digits : Nat) (exponent : Int)
  | infinite (negative : Bool)
  /-- Not a number; it equals nothing. -/
  | undefined
deriving DecidableEq, Repr

namespace Magnitude

/-- The same decimal fraction without zeros at the end of its digits. -/
def stripped (digits : Nat) (exponent : Int) : Nat × Int :=
  if digits = 0 then (0, 0)
  else if digits % 10 = 0 then stripped (digits / 10) (exponent + 1)
  else (digits, exponent)
termination_by digits

/-- The magnitude `digits * 10 ^ exponent`, negated if `negative`. -/
def ofDecimal (negative : Bool) (digits : Nat) (exponent : Int) : Magnitude :=
  let (digits, exponent) := stripped digits exponent
  .finite (negative && digits != 0) digits exponent

/-- The magnitude `significand * 2 ^ exponent`, negated if `negative`. Half a unit is five tenths of
it, so a negative power of two is a power of five with as many decimal places. -/
def ofBinary (negative : Bool) (significand : Nat) (exponent : Int) : Magnitude :=
  if exponent < 0 then ofDecimal negative (significand * Nat.pow 5 exponent.natAbs) exponent
  else ofDecimal negative (significand * Nat.pow 2 exponent.natAbs) 0

/-- Whether two magnitudes are the same number. -/
def same (a b : Magnitude) : Bool := a == b && a != .undefined

end Magnitude

/-- The number that a key is, if it is one. -/
def Key.magnitude? : Key → Option Magnitude
  | .truth b => some (.ofDecimal false (if b then 1 else 0) 0)
  | .int i => some (.ofDecimal (i < 0) i.natAbs 0)
  | .binary (.finite negative significand exponent) =>
    some (.ofBinary negative significand exponent)
  | .binary (.infinite negative) => some (.infinite negative)
  | .binary .nan => some .undefined
  | .decimal (.finite negative digits exponent) => some (.ofDecimal negative digits exponent)
  | .decimal (.infinite negative) => some (.infinite negative)
  | .decimal (.nan ..) => some .undefined
  | _ => none

mutual

/-- Whether two keys name the same entry of a mapping. -/
def Key.same : Key → Key → Bool
  | .text a, .text b => a == b
  | .symbol a, .symbol b => a == b
  | .null, .null => true
  | .bytes a, .bytes b => a == b
  | .tuple a, .tuple b => Key.sameAll a b
  | a, b =>
    match a.magnitude?, b.magnitude? with
    | some x, some y => x.same y
    | _, _ => false

/-- Whether two sequences of keys agree member by member. -/
def Key.sameAll : List Key → List Key → Bool
  | [], [] => true
  | a :: as, b :: bs => Key.same a b && Key.sameAll as bs
  | _, _ => false

end

/-- The entries with `value` stored under `key`; an entry of the same key keeps its place and its
spelling of the key. -/
def insertEntry (key : Key) (value : Value) : List (Key × Value) → List (Key × Value)
  | [] => [(key, value)]
  | (k, v) :: rest =>
    if k.same key then (k, value) :: rest else (k, v) :: insertEntry key value rest

/-- The mapping that results from storing the entries one after another. -/
def Value.ofEntries (entries : List (Key × Value)) : Value :=
  .mapping (entries.foldl (fun stored (key, value) => insertEntry key value stored) [])

end FormLetter
