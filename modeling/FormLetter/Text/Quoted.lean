import FormLetter.Text.Printable

/-!
# Quoted text in reports

A report that names a key or a path puts it in quotes, so that blanks and stray characters at its
ends can be seen.

* **Which quote.** Apostrophes enclose the text, unless it holds an apostrophe and no double quote;
  then double quotes do.
* **What is escaped.** A backslash, the enclosing quote, line ends and tabs have short escapes.
  Other characters that do not print are written by their code, with two, four or eight hexadecimal
  digits.
-/

namespace FormLetter

/-- The apostrophe. -/
def apostrophe : Char := '\x27'

/-- The double quote. -/
def doubleQuote : Char := '\x22'

/-- The number in hexadecimal notation, filled with zeros to `width` digits. -/
def hexText (width n : Nat) : Text :=
  let digits := Nat.toDigits 16 n
  List.replicate (width - digits.length) '0' ++ digits

namespace Text

/-- The quote that encloses a text in a report. -/
def enclosingQuote (t : Text) : Char :=
  if t.contains apostrophe && !t.contains doubleQuote then doubleQuote else apostrophe

/-- A character by its code. -/
def escapedCode (code : Nat) : Text :=
  if code < 0x100 then '\\' :: 'x' :: hexText 2 code
  else if code < 0x10000 then '\\' :: 'u' :: hexText 4 code
  else '\\' :: 'U' :: hexText 8 code

/-- A character inside the given quotes. -/
def quotedChar (quote c : Char) : Text :=
  if c = quote || c = '\\' then ['\\', c]
  else if c = '\n' then ['\\', 'n']
  else if c = '\r' then ['\\', 'r']
  else if c = '\t' then ['\\', 't']
  else if isPrintable c then [c]
  else escapedCode c.toNat

/-- The text in quotes. -/
def quoted (t : Text) : Text :=
  let quote := enclosingQuote t
  quote :: t.flatMap (quotedChar quote) ++ [quote]

/-- A sequence of bytes in quotes, marked as such: what is not a visible ASCII character or a blank
is escaped. -/
def quotedBytes (bytes : List UInt8) : Text :=
  let chars := bytes.map fun b => Char.ofNat b.toNat
  let quote := enclosingQuote chars
  let shown := fun c : Char =>
    if c.toNat < 0x7f then quotedChar quote c else escapedCode c.toNat
  'b' :: quote :: chars.flatMap shown ++ [quote]

end Text

end FormLetter
