import FormLetter.Document.Node

/-!
# The vocabulary of word processing documents

The elements that merging has to know: paragraphs, runs of equally formatted text, tables and their
rows, and the few other elements that decide whether a paragraph shows anything.
-/

namespace FormLetter

namespace Word

/-- The namespace of word processing elements. -/
def namespaceUri : String := "http://schemas.openxmlformats.org/wordprocessingml/2006/main"

/-- The namespace of attributes with a meaning in every document. -/
def xmlNamespaceUri : String := "http://www.w3.org/XML/1998/namespace"

/-- The expanded name of a word processing element. -/
def named (localPart : String) : String := "\x7b" ++ namespaceUri ++ "\x7d" ++ localPart

/-- A paragraph. -/
def paragraph : String := named "p"

/-- A run of text in one format. -/
def run : String := named "r"

/-- The format of a run. -/
def runProperties : String := named "rPr"

/-- The text of a run. -/
def runText : String := named "t"

/-- A table. -/
def table : String := named "tbl"

/-- A row of a table. -/
def row : String := named "tr"

/-- A proofing remark, which shows nothing. -/
def proofingMark : String := named "proofErr"

/-- The attribute that says whether blanks at the ends of text count. -/
def spaceAttribute : String := "\x7b" ++ xmlNamespaceUri ++ "\x7dspace"

/-- Elements that make a paragraph worth keeping even without text. -/
def contentNames : List String :=
  ["drawing", "pict", "object", "sym", "fldSimple", "fldChar", "br", "sectPr"].map named

/-- A run that shows `text`, which is escaped already, in the given format. -/
def makeRun (text : Text) (properties : Option Node) : Node :=
  let shown := Node.element ⟨runText, [(spaceAttribute, "preserve")], []⟩ [.text text]
  .element ⟨run, [], []⟩ (properties.toList ++ [shown])

end Word

end FormLetter
