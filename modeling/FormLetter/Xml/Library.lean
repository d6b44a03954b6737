import FormLetter.Xml.Encoding
import FormLetter.Xml.Layout
import FormLetter.Xml.Reading
import FormLetter.Xml.Writing

/-!
# A library to run merges with

Statements about merging hold for every library for markup. To run merges, one is needed:
`Xml.libraryWith` reads documents and writes them in the manner of the common ones, as far as
templates ask for it. It knows the common character sets and those that it is given tables of, and
document types without entities of their own.
-/

namespace FormLetter

namespace Xml

/-- The tree of a document. Whatever else has been read, no slot may hold a character that no
document may hold. -/
def readTree (tables : Charset.Tables) (bytes : ByteArray) : Except ReadFault Etree :=
  match (markup? tables false bytes).bind Markup.etree? with
  | some e => if e.texts.all (·.all isChar) then .ok e else .error (.malformed "")
  | none => .error (.malformed "")

/-- A library for markup. -/
def libraryWith (tables : Charset.Tables) : XmlLibrary where
  read := readTree tables
  elementFault? name declarations := faultOf? (checkElement name declarations)
  attributeFault? name value := faultOf? (checkAttribute name value)
  textFault? t := faultOf? (checkText t)
  write e := (String.ofList (write e)).toUTF8

/-- The library without further character sets. -/
def library : XmlLibrary := libraryWith []

end Xml

end FormLetter
