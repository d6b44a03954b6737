import FormLetter.Data.Refusal
import FormLetter.Document.EntityNames

/-!
# Resolving references

A reference stands for a character that cannot be written as itself: by its code, in decimal or
hexadecimal notation, or by a name. Templates and data bring text of any kind, so `unescape` resolves
what can be a reference and leaves everything else alone.

* **Codes.** A reference by code may lack its semicolon. Codes of the second control block mean what
  the Western code page has there, codes that no character may have vanish, and codes out of range
  become the replacement character.
* **Names.** A run of characters that ends in a semicolon is looked up as a whole. Else the longest
  open name with which it begins is resolved, in front of whatever follows.
* **Long numerals.** A decimal code is read as an integer, so the interpreter refuses one that has
  too many digits (`referenceRefusal?`), and `unescape` counts only if none is refused.
-/

namespace FormLetter

/-! ## Codes -/

/-- A hexadecimal digit. -/
def isHexDigit (c : Char) : Bool :=
  c.isDigit || ('a' ≤ c && c ≤ 'f') || ('A' ≤ c && c ≤ 'F')

/-- The value of a hexadecimal digit. -/
def hexDigitValue (c : Char) : Nat :=
  if c.isDigit then c.toNat - '0'.toNat else c.toLower.toNat - 'a'.toNat + 10

/-- The value of digits in a base up to sixteen. -/
def numeralValue (base : Nat) (digits : Text) : Nat :=
  digits.foldl (fun value c => base * value + hexDigitValue c) 0

/-- The code points of the codes from 0x80 to 0x9f on the Western code page; an unassigned code
stands for itself. -/
def westernCodes : List Nat :=
  [0x20ac, 0x0081, 0x201a, 0x0192, 0x201e, 0x2026, 0x2020, 0x2021,
   0x02c6, 0x2030, 0x0160, 0x2039, 0x0152, 0x008d, 0x017d, 0x008f,
   0x0090, 0x2018, 0x2019, 0x201c, 0x201d, 0x2022, 0x2013, 0x2014,
   0x02dc, 0x2122, 0x0161, 0x203a, 0x0153, 0x009d, 0x017e, 0x0178]

/-- The codes that no character may have, as closed ranges; the last two of every plane join
them. -/
def voidRanges : List (Nat × Nat) :=
  [(0x01, 0x08), (0x0b, 0x0b), (0x0e, 0x1f), (0x7f, 0x7f), (0xfdd0, 0xfdef)]

/-- Whether no character may have this code. -/
def isVoidCode (code : Nat) : Bool :=
  (voidRanges.any fun (first, last) => first ≤ code && code ≤ last) || 0xfffe ≤ code % 0x10000

/-- What a code stands for. -/
def codeText (code : Nat) : Text :=
  if code = 0 || (0xd800 ≤ code && code ≤ 0xdfff) || 0x10ffff < code then [Char.ofNat 0xfffd]
  else if 0x80 ≤ code && code < 0xa0 then [Char.ofNat (westernCodes.getD (code - 0x80) code)]
  else if isVoidCode code then []
  else [Char.ofNat code]

/-- The text without a semicolon at its beginning. -/
def dropSemicolon : Text → Text
  | ';' :: rest => rest
  | t => t

/-- A reference by code without its ampersand, resolved, and what follows it. -/
def codeReference? : Text → Option (Text × Text)
  | '#' :: rest =>
    let hexadecimal := match rest with
      | 'x' :: digits => some digits
      | 'X' :: digits => some digits
      | _ => none
    let (base, isDigit, digits) := match hexadecimal with
      | some digits => (16, isHexDigit, digits)
      | none => (10, Char.isDigit, rest)
    let number := digits.takeWhile isDigit
    if number.isEmpty then none
    else some (codeText (numeralValue base number), dropSemicolon (digits.dropWhile isDigit))
  | _ => none

/-! ## Names -/

/-- The characters of markup and their names. -/
def namedChars : List (Text × Char) :=
  [(Text.ofString "amp", '&'), (Text.ofString "lt", '<'), (Text.ofString "gt", '>'),
   (Text.ofString "quot", '\x22'), (Text.ofString "apos", '\x27')]

/-- The words of several lines. -/
def wordsOf (lines : List String) : List Text :=
  lines.flatMap fun line => Text.splitOn ' ' (Text.ofString line)

/-- A name in front of its codes. -/
def entityOfWord (word : Text) : Text × Text :=
  let name := word.takeWhile (· != ':')
  let codes := Text.splitOn '+' (word.drop (name.length + 1))
  (name, codes.map fun code => Char.ofNat (numeralValue 16 code))

/-- The names of all characters but those of markup. -/
def entities : List (Text × Text) := (wordsOf entityLines).map entityOfWord

/-- The names that count without their semicolon. -/
def openNames : List Text := wordsOf openNameLines

/-- What a name stands for. -/
def entityText? (name : Text) : Option Text :=
  ((namedChars.lookup name).map ([·])).or (entities.lookup name)

/-- A character at which a name ends. -/
def endsName (c : Char) : Bool := ['\t', '\n', '\x0c', ' ', '<', '&', '#', ';'].contains c

/-- The most characters that are looked at for a name. -/
def maxNameLength : Nat := 32

/-- The longest open name with which a run of characters begins. -/
def openName? (run : Text) : Option Text :=
  ((List.range (run.length + 1)).reverse.map run.take).find? openNames.contains

/-- A reference by name without its ampersand, resolved, and what follows it. -/
def nameReference? (t : Text) : Option (Text × Text) :=
  let run := (t.take maxNameLength).takeWhile (!endsName ·)
  let complete := match t.drop run.length with
    | ';' :: following => (entityText? run).map (·, following)
    | _ => none
  complete.or <| (openName? run).bind fun name =>
    (entityText? name).map (·, t.drop name.length)

/-! ## Texts -/

/-- The text with its references resolved. -/
def unescape (t : Text) : Text :=
  match t with
  | [] => []
  | '&' :: rest =>
    match (codeReference? rest).or (nameReference? rest) with
    | some (resolved, following) =>
      if following.length ≤ rest.length then resolved ++ unescape following
      else '&' :: unescape rest
    | none => '&' :: unescape rest
  | c :: rest => c :: unescape rest
termination_by t.length

/-- The refusal on reading the decimal code that follows an ampersand. -/
def codeRefusal? : Text → Option Refusal
  | '#' :: rest =>
    let digits := (rest.takeWhile Char.isDigit).length
    if digitLimit < digits then some (.reading digits) else none
  | _ => none

/-- The first refusal on resolving the references of a text. -/
def referenceRefusal? (t : Text) : Option Refusal :=
  ((Text.splitOn '&' t).drop 1).findSome? codeRefusal?

end FormLetter
