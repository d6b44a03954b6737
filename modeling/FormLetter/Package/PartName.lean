/-!
# Names of document parts

A package names its parts by paths. The name decides how a part takes part in a merge: the body,
headers, footers and notes are merged in full, the two property parts know placeholders only, and
all other parts are carried over as they are.
-/

namespace FormLetter

namespace PartName

/-- The part that holds the body of a document. -/
def document : String := "word/document.xml"

/-- The parts that hold the properties of a document. -/
def propertyParts : List String := ["docProps/core.xml", "docProps/app.xml"]

/-- Parts that are merged in full, by their name. -/
def mergedNames : List String := [document, "word/footnotes.xml", "word/endnotes.xml"]

/-- Parts that are merged in full, by the beginning of their name. -/
def mergedFamilies : List String := ["word/header", "word/footer"]

/-- The ending of a part in markup. -/
def extension : String := ".xml"

/-- Whether a name consists of a beginning, anything at all, and an ending. -/
def isBetween (beginning ending name : String) : Bool :=
  let t := name.toList
  beginning.toList.isPrefixOf t && ending.toList.isSuffixOf (t.drop beginning.length)

/-- Whether a part holds properties. -/
def isProperty (name : String) : Bool := propertyParts.contains name

/-- Whether a part is merged in full. -/
def isMerged (name : String) : Bool :=
  mergedNames.contains name ||
    mergedFamilies.any fun beginning => isBetween beginning extension name

/-- Whether a part takes part in a merge at all. -/
def isTemplated (name : String) : Bool := isProperty name || isMerged name

/-- The text before the last occurrence of a character, or all of it if there is none. -/
def beforeLast (c : Char) (t : List Char) : List Char :=
  if t.contains c then ((t.reverse.dropWhile (· != c)).drop 1).reverse else t

/-- The text after the last occurrence of a character, or all of it if there is none. -/
def afterLast (c : Char) (t : List Char) : List Char := (t.reverse.takeWhile (· != c)).reverse

/-- The short name of a part in reports about what a template asks for. -/
def location (name : String) : String :=
  if name = document then "document"
  else if "docProps/".toList.isPrefixOf name.toList then "properties"
  else String.ofList (beforeLast '.' (afterLast '/' name.toList))

end PartName

end FormLetter
