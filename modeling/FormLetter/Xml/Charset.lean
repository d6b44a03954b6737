import FormLetter.Xml.Chars

/-!
# Character sets

What the bytes of a document mean, by the name of its encoding. Only sets that need no table are
known here; whoever reads documents may supply tables of further ones. All of them agree with ASCII
in their lower half; a code that means nothing cannot be read.
-/

namespace FormLetter

namespace Xml

/-- How bytes stand for characters. -/
inductive Charset
  | utf8
  /-- ASCII, and above it the characters of a table from 0x80 on. -/
  | octets (upper : List Char)

namespace Charset

/-- The characters whose codes are those of a range. -/
def codePoints (first count : Nat) : List Char := (List.range' first count).map Char.ofNat

/-- Further sets of one byte a character, by their names in lower case. -/
abbrev Tables := List (List String × List Char)

/-- The sets by their names, in lower case. -/
def namedSets : List (List String × Charset) :=
  [(["utf-8", "utf8"], .utf8),
   (["ascii", "us-ascii"], .octets []),
   (["iso-8859-1", "iso_8859-1", "latin1"], .octets (codePoints 0x80 0x80))]

/-- The set with a name, in any letter case. -/
def ofName? (tables : Tables) (name : Text) : Option Charset :=
  let lower := String.ofList (Text.lower name)
  let sets := namedSets ++ tables.map fun (names, upper) => (names, Charset.octets upper)
  sets.findSome? fun (names, charset) => if names.contains lower then some charset else none

/-- The character of a byte in a set of one byte a character. -/
def octet? (upper : List Char) (byte : UInt8) : Option Char :=
  if byte < 0x80 then some (Char.ofNat byte.toNat)
  else (upper[byte.toNat - 0x80]?).filter (· != '\ufffd')

/-- The characters of bytes, if all of them mean something. -/
def decode? (charset : Charset) (bytes : ByteArray) : Option Text :=
  match charset with
  | .utf8 => (String.fromUTF8? bytes).map String.toList
  | .octets upper => bytes.toList.mapM (octet? upper)

end Charset

end Xml

end FormLetter
