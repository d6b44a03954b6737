import FormLetter.Text.Basic

/-!
# Blank characters

A character is blank if it has the white-space property, or is one of the four information
separators that end a file, group, record or unit. A text is blank if all its characters are; the
empty text is blank.
-/

namespace FormLetter

/-- The codes of all blank characters. -/
def blankCodes : List Nat :=
  [0x0009, 0x000a, 0x000b, 0x000c, 0x000d, 0x001c, 0x001d, 0x001e, 0x001f, 0x0020, 0x0085, 0x00a0,
   0x1680, 0x2000, 0x2001, 0x2002, 0x2003, 0x2004, 0x2005, 0x2006, 0x2007, 0x2008, 0x2009, 0x200a,
   0x2028, 0x2029, 0x202f, 0x205f, 0x3000]

/-- Whether a character leaves only space on the page. -/
def isBlankChar (c : Char) : Bool := blankCodes.contains c.toNat

namespace Text

/-- Whether a text shows nothing. -/
def isBlank (t : Text) : Bool := t.all isBlankChar

end Text

end FormLetter
