import FormLetter.Text.Basic

/-!
# Characters and names of XML

The character classes of XML 1.0, fifth edition, and the few ways in which a reader takes a text
apart.

* **Names** hold no colon: the colon stands between a prefix and a local name.
* **Labels** are names as the grammar of documents knows them, before prefixes are told apart: a
  colon counts as a letter.
* **Words** consist of the characters of labels in any order.
-/

namespace FormLetter

namespace Xml

/-- A character that a document may hold. -/
def isChar (c : Char) : Bool :=
  c == '\t' || c == '\n' || c == '\r' || (0x20 ≤ c.toNat && c.toNat != 0xfffe && c.toNat != 0xffff)

/-- White space between the parts of a tag. -/
def isSpace (c : Char) : Bool := c == ' ' || c == '\t' || c == '\n' || c == '\r'

/-- The codes of characters that may start a name, as closed ranges. -/
def nameStartRanges : List (Nat × Nat) :=
  [(0x41, 0x5a), (0x5f, 0x5f), (0x61, 0x7a), (0xc0, 0xd6), (0xd8, 0xf6), (0xf8, 0x2ff),
   (0x370, 0x37d), (0x37f, 0x1fff), (0x200c, 0x200d), (0x2070, 0x218f), (0x2c00, 0x2fef),
   (0x3001, 0xd7ff), (0xf900, 0xfdcf), (0xfdf0, 0xfffd), (0x10000, 0xeffff)]

/-- The codes of characters that may follow in a name, but not start it. -/
def nameRestRanges : List (Nat × Nat) :=
  [(0x2d, 0x2e), (0x30, 0x39), (0xb7, 0xb7), (0x300, 0x36f), (0x203f, 0x2040)]

/-- Whether a code lies in one of the ranges. -/
def inRanges (ranges : List (Nat × Nat)) (code : Nat) : Bool :=
  ranges.any fun (first, last) => first ≤ code && code ≤ last

/-- A character that may start a name. -/
def isNameStart (c : Char) : Bool := inRanges nameStartRanges c.toNat

/-- A character of a name. -/
def isNameChar (c : Char) : Bool := isNameStart c || inRanges nameRestRanges c.toNat

/-- A name without a prefix. -/
def isName : Text → Bool
  | [] => false
  | c :: rest => isNameStart c && rest.all isNameChar

/-- A character of a label or a word. -/
def isLabelChar (c : Char) : Bool := isNameChar c || c == ':'

/-- A name that may hold colons. -/
def isLabel : Text → Bool
  | [] => false
  | c :: rest => (isNameStart c || c == ':') && rest.all isLabelChar

/-- Characters of labels in any order. -/
def isWord (t : Text) : Bool := !t.isEmpty && t.all isLabelChar

/-- The text with all line ends in one form. -/
def normalizeLineEnds : Text → Text
  | '\r' :: '\n' :: rest => '\n' :: normalizeLineEnds rest
  | '\r' :: rest => '\n' :: normalizeLineEnds rest
  | c :: rest => c :: normalizeLineEnds rest
  | [] => []

/-! ## Taking text apart -/

/-- What follows `beginning`, if the text begins with it. -/
def after? : Text → Text → Option Text
  | [], t => some t
  | _ :: _, [] => none
  | b :: beginning, c :: t => if b = c then after? beginning t else none

/-- What stands before the first occurrence of `stop`, and what follows it. -/
def breakAt? (stop : Text) : Text → Option (Text × Text)
  | [] => none
  | c :: rest =>
    match after? stop (c :: rest) with
    | some following => some ([], following)
    | none => (breakAt? stop rest).map fun (before, following) => (c :: before, following)

/-- What follows the white space at the beginning. -/
def skipSpace (t : Text) : Text := t.dropWhile isSpace

/-- The text without the white space around it. -/
def trimSpace (t : Text) : Text := (skipSpace (skipSpace t).reverse).reverse

/-- What follows the white space at the beginning, if there is any. -/
def afterSpace? (t : Text) : Option Text :=
  match t with
  | c :: rest => if isSpace c then some (skipSpace rest) else none
  | [] => none

/-- The label at the beginning, and what follows it. -/
def label? (t : Text) : Option (Text × Text) :=
  let label := t.takeWhile isLabelChar
  if isLabel label then some (label, t.dropWhile isLabelChar) else none

/-- A text in quotes of either kind at the beginning, and what follows it. -/
def quoted? : Text → Option (Text × Text)
  | '\x22' :: rest => breakAt? ['\x22'] rest
  | '\x27' :: rest => breakAt? ['\x27'] rest
  | _ => none

/-- The equals sign, perhaps between white space, and what follows. -/
def equals? (t : Text) : Option Text :=
  match skipSpace t with
  | '=' :: rest => some (skipSpace rest)
  | _ => none

end Xml

end FormLetter
