import FormLetter.Xml.Doctype

/-!
# What a document type means

The declarations of a document type are taken in one after another. What they amount to decides how
the rest of the document is read.

* **The first declaration counts.** Whatever declares an element, an attribute or a format again is
  noticed and changes nothing.
* **Values by default** must be of the declared type. They are not added to elements, except that
  they can declare prefixes.
* **Open or closed.** As long as all declarations are known, a reference to a name that is not among
  them is an error. It is allowed once declarations may stand elsewhere, unless the document says
  that it stands alone.
-/

namespace FormLetter

namespace Xml

/-- What is known about an attribute of an element, both by their labels. -/
structure AttributeRule where
  element : Text
  name : Text
  type : AttributeType
  preset : Option Text
deriving DecidableEq, Repr

/-- What is declared for a document. -/
structure Vocabulary where
  /-- Whether something may be declared elsewhere. -/
  isOpen : Bool
  contents : List (Text × ContentModel)
  rules : List AttributeRule
  formats : List Text
deriving Repr

/-! ## Values -/

/-- The text of an attribute outside its references: all white space counts as blanks. -/
def blanked (t : Text) : Text :=
  (normalizeLineEnds t).map fun c => if isSpace c then ' ' else c

/-- The text with one blank between its parts and none around them. -/
def collapsed (t : Text) : Text :=
  Text.joinWith [' '] ((Text.splitOn ' ' t).filter (!·.isEmpty))

namespace AttributeType

/-- A value of this type, in the form in which it counts. -/
def normal (type : AttributeType) (value : Text) : Text :=
  if type = .text then value else collapsed value

/-- Whether a value in this form is of the type. -/
def accepts (type : AttributeType) (value : Text) : Bool :=
  match type with
  | .text => true
  | .identity | .name | .format _ => isLabel value
  | .names => (Text.splitOn ' ' value).all isLabel
  | .word => isWord value
  | .words | .choice _ => (Text.splitOn ' ' value).all isWord

/-- The members of the groups that a type lists. -/
def members : AttributeType → List Text
  | .choice given => given
  | .format given => given
  | _ => []

end AttributeType

namespace Vocabulary

/-- What is known without a document type. -/
def empty : Vocabulary := ⟨false, [], [], []⟩

/-- What is known about an attribute. -/
def rule? (vocabulary : Vocabulary) (element name : Text) : Option AttributeRule :=
  vocabulary.rules.find? fun rule => rule.element == element && rule.name == name

/-- The values that the attributes of an element have by default. -/
def presets (vocabulary : Vocabulary) (element : Text) : List (Text × Text) :=
  vocabulary.rules.filterMap fun rule =>
    if rule.element = element then rule.preset.map (rule.name, ·) else none

/-- The type of an attribute; all that is not declared is text. -/
def typeOf (vocabulary : Vocabulary) (element name : Text) : AttributeType :=
  ((vocabulary.rule? element name).map (·.type)).getD .text

/-- Whether an element may hold text, if that is declared. -/
def holdsText? (vocabulary : Vocabulary) (element : Text) : Option Bool :=
  (vocabulary.contents.lookup element).map (· != .elements)

/-- The value of an attribute that stands in the document in pieces. -/
def value (vocabulary : Vocabulary) (element name : Text) (pieces : List Piece) :
    Judged Text := do
  let value ← resolve vocabulary.isOpen blanked pieces
  return (vocabulary.typeOf element name).normal value

/-! ## Taking in declarations -/

/-- The attribute that identifies elements in all documents. -/
def identityName : Text := Text.ofString "xml:id"

/-- The default value of an attribute, in the form in which it counts. -/
def presetValue (vocabulary : Vocabulary) (declaration : AttributeDeclaration) :
    Judged (Option Text) :=
  match declaration.preset with
  | none => pure none
  | some pieces => do
    let value ← resolve vocabulary.isOpen blanked pieces
    return some (declaration.type.normal value)

/-- Takes in the declaration of an attribute. An element has at most one attribute that identifies
it. -/
def addAttribute (vocabulary : Vocabulary) (element : Text) (declaration : AttributeDeclaration) :
    Judged Vocabulary := do
  let type := declaration.type
  blameIf (type.members.eraseDups.length < type.members.length)
  let preset ← vocabulary.presetValue declaration
  blameIf (declaration.name = identityName && type != .identity)
  blameIf (preset.any (!type.accepts ·))
  if (vocabulary.rule? element declaration.name).isSome then
    warn
    return vocabulary
  else
    let isIdentified := vocabulary.rules.any fun rule =>
      rule.element == element && rule.type == .identity
    blameIf (type = .identity && isIdentified)
    let rule : AttributeRule := ⟨element, declaration.name, type, preset⟩
    return { vocabulary with rules := vocabulary.rules ++ [rule] }

/-- Takes in a declaration. -/
def add (isStandalone : Bool) (vocabulary : Vocabulary) : TypeDeclaration → Judged Vocabulary
  | .element name content => do
    if (vocabulary.contents.lookup name).isSome then
      blame
      return vocabulary
    else return { vocabulary with contents := vocabulary.contents ++ [(name, content)] }
  | .attributes element attributes =>
    attributes.foldlM (fun vocabulary declaration => vocabulary.addAttribute element declaration)
      vocabulary
  | .format name => do
    blameIf (name.contains ':')
    if vocabulary.formats.contains name then
      blame
      return vocabulary
    else return { vocabulary with formats := vocabulary.formats ++ [name] }
  | .inclusion _ => do
    if isStandalone then refuse
    warn
    return { vocabulary with isOpen := true }
  | .remark remark => do
    remark.judge
    return vocabulary

/-- What a document type declaration declares. -/
def ofDoctype (isStandalone : Bool) (doctype : DoctypeDeclaration) : Judged Vocabulary :=
  doctype.declarations.foldlM (add isStandalone)
    { empty with isOpen := doctype.isExternal && !isStandalone }

end Vocabulary

end Xml

end FormLetter
