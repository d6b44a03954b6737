import FormLetter.Document.Etree
import FormLetter.Xml.Remark

/-!
# Trees as they are written

Between the text of a document and the trees that a library hands out stands a tree of written
markup. Names have their prefixes, declarations stand where they were made, and remarks and
unresolved references keep their place. Character data is plain: nothing in it is escaped.

* **Reading** produces such a tree from text, and `Markup.etree?` gives each element its slots.
* **Writing** finds prefixes for the names of a tree, and `Markup.written` puts the result into text.
-/

namespace FormLetter

namespace Xml

/-- A name as it stands in a tag, perhaps with a prefix. -/
structure QName where
  qualifier : Option Text
  localPart : Text
deriving DecidableEq, Repr

namespace QName

/-- The name with its prefix. -/
def text (name : QName) : Text :=
  match name.qualifier with
  | none => name.localPart
  | some qualifier => qualifier ++ ':' :: name.localPart

/-- The parts of a label, if both are names and there are no others. -/
def ofLabel? (label : Text) : Option QName :=
  match Text.splitOn ':' label with
  | [localPart] => if isName localPart then some ⟨none, localPart⟩ else none
  | [qualifier, localPart] =>
    if isName qualifier && isName localPart then some ⟨some qualifier, localPart⟩ else none
  | _ => none

end QName

/-- What prefixes mean, nearest declaration first. The default namespace has no prefix, and an empty
meaning takes it away. -/
abbrev Scope := List (Option Text × Text)

/-- A start tag as it is written. -/
structure WrittenTag where
  name : QName
  declarations : Scope
  attributes : List (QName × Text)
deriving DecidableEq, Repr

/-- Written markup. -/
inductive Markup
  /-- Characters that stand for themselves. -/
  | text (t : Text)
  | element (tag : WrittenTag) (children : List Markup)
  | remark (remark : Remark)
  /-- A reference to something that is declared elsewhere, if anywhere. -/
  | reference (name : Text)

namespace Markup

mutual

/-- Whether two pieces of markup are equal. -/
def decEq : (a b : Markup) → Decidable (a = b)
  | .text a, .text b => decidable_of_iff (a = b) (by simp)
  | .element s as, .element t bs =>
    if h : s = t then
      match decEqAll as bs with
      | .isTrue h' => .isTrue (by rw [h, h'])
      | .isFalse h' => .isFalse (by simp [h'])
    else .isFalse (by simp [h])
  | .remark a, .remark b => decidable_of_iff (a = b) (by simp)
  | .reference a, .reference b => decidable_of_iff (a = b) (by simp)
  | .text _, .element .. | .text _, .remark _ | .text _, .reference _ => .isFalse (by simp)
  | .element .., .text _ | .element .., .remark _ | .element .., .reference _ => .isFalse (by simp)
  | .remark _, .text _ | .remark _, .element .. | .remark _, .reference _ => .isFalse (by simp)
  | .reference _, .text _ | .reference _, .element .. | .reference _, .remark _ =>
    .isFalse (by simp)

/-- Whether two sequences of markup are equal. -/
def decEqAll : (as bs : List Markup) → Decidable (as = bs)
  | [], [] => .isTrue rfl
  | a :: as, b :: bs =>
    match decEq a b, decEqAll as bs with
    | .isTrue h, .isTrue h' => .isTrue (by rw [h, h'])
    | .isFalse h, _ => .isFalse (by simp [h])
    | _, .isFalse h => .isFalse (by simp [h])
  | [], _ :: _ => .isFalse (by simp)
  | _ :: _, [] => .isFalse (by simp)

end

instance : DecidableEq Markup := decEq

/-- Whether a piece of markup is character data. -/
def isText : Markup → Bool
  | .text _ => true
  | _ => false

end Markup

/-! ## From markup to content -/

/-- The namespace that is bound to the reserved prefix. -/
def reservedUri : Text := Word.xmlNamespaceUri.toList

/-- The reserved prefix. -/
def reservedQualifier : Text := Text.ofString "xml"

/-- A name in a namespace; the empty namespace is none. -/
def expanded (uri localPart : Text) : String :=
  if uri.isEmpty then String.ofList localPart
  else String.ofList ('\x7b' :: uri ++ '\x7d' :: localPart)

namespace Scope

/-- The scope outside all elements. -/
def initial : Scope := [(some reservedQualifier, reservedUri)]

/-- What a prefix means, if anything. -/
def meaning? (scope : Scope) (qualifier : Option Text) : Option Text :=
  (scope.lookup qualifier).filter (!·.isEmpty)

/-- Whether a name has a prefix without a meaning. -/
def isUnbound (scope : Scope) (name : QName) : Bool :=
  name.qualifier.isSome && (scope.meaning? name.qualifier).isNone

/-- The expanded name of an element. A prefix without a meaning is part of the name. -/
def elementName (scope : Scope) (name : QName) : String :=
  match scope.meaning? name.qualifier with
  | some uri => expanded uri name.localPart
  | none => String.ofList name.text

/-- The expanded name of an attribute, which never takes the default namespace. -/
def attributeName (scope : Scope) (name : QName) : String :=
  if name.qualifier.isNone then String.ofList name.localPart else scope.elementName name

/-- The prefixes that mean something, each with its nearest declaration. The reserved prefix is not
among them. -/
def declarations (scope : Scope) : List Declaration :=
  let qualifiers := (scope.map (·.1)).eraseDups.filter (· != some reservedQualifier)
  qualifiers.filterMap fun qualifier => (scope.lookup qualifier).map fun uri =>
    ⟨qualifier.map String.ofList, String.ofList uri⟩

/-- A start tag with expanded names, in the scope around it. Attributes of one name have one value,
the first. -/
def expand (outer : Scope) (tag : WrittenTag) : StartTag :=
  let inner := tag.declarations ++ outer
  let attributes := tag.attributes.map fun (name, value) =>
    (inner.attributeName name, String.ofList value)
  ⟨inner.elementName tag.name,
    attributes.map fun (name, value) => (name, (attributes.lookup name).getD value),
    inner.declarations⟩

end Scope

namespace Markup

mutual

/-- The slots inside an element, in the scope around it. -/
def inside (scope : Scope) : Markup → Option Text × List Branch
  | .element tag children => slots (tag.declarations ++ scope) none children
  | _ => (none, [])

/-- What the slot that is open holds in the end, if it holds `slot` so far, and the branches after
it. -/
def slots (scope : Scope) (slot : Option Text) : List Markup → Option Text × List Branch
  | [] => (slot, [])
  | first :: rest =>
    match first with
    | .text t => slots scope (some (slot.getD [] ++ t)) rest
    | .element tag _ =>
      let (front, children) := inside scope first
      let (tail, others) := slots scope none rest
      (slot, .element (scope.expand tag) front children tail :: others)
    | _ =>
      let (tail, others) := slots scope none rest
      (slot, .remark tail :: others)

end

/-- The tree of a whole document, if its root is an element. -/
def etree? (root : Markup) : Option Etree :=
  match root with
  | .element tag _ =>
    let (front, children) := root.inside Scope.initial
    some ⟨Scope.initial.expand tag, front, children⟩
  | _ => none

end Markup

/-! ## From markup to text -/

/-- Text between tags. -/
def writtenText (t : Text) : Text :=
  t.flatMap fun c =>
    if c = '\r' then Text.ofString "&#13;" else escapeMarkup [c]

/-- Text between the quotes of an attribute. -/
def writtenAttribute (t : Text) : Text :=
  t.flatMap fun c =>
    if c = '\x22' then Text.ofString "&quot;"
    else if c = '\n' then Text.ofString "&#10;"
    else if c = '\t' then Text.ofString "&#9;"
    else if c = '\r' then Text.ofString "&#13;"
    else escapeMarkup [c]

/-- The word that introduces declarations. -/
def declarationWord : Text := Text.ofString "xmlns"

/-- The name under which a prefix is declared. -/
def declarationName : Option Text → QName
  | none => ⟨none, declarationWord⟩
  | some qualifier => ⟨some declarationWord, qualifier⟩

/-- An attribute, with the blank in front of it. -/
def attributeText (name : QName) (value : Text) : Text :=
  ' ' :: name.text ++ '=' :: '\x22' :: writtenAttribute value ++ ['\x22']

/-- A start tag without its brackets: declarations come before attributes. -/
def WrittenTag.text (tag : WrittenTag) : Text :=
  let declarations := tag.declarations.flatMap fun (qualifier, uri) =>
    attributeText (declarationName qualifier) uri
  let attributes := tag.attributes.flatMap fun (name, value) => attributeText name value
  tag.name.text ++ declarations ++ attributes

/-- A remark between its brackets. -/
def Remark.text : Remark → Text
  | .comment content => Text.ofString "<!--" ++ content ++ Text.ofString "-->"
  | .instruction target content =>
    let content := if content.isEmpty then [] else ' ' :: content
    Text.ofString "<?" ++ target ++ content ++ Text.ofString "?>"

namespace Markup

mutual

/-- The text of markup. -/
def written : Markup → Text
  | .text t => writtenText t
  | .element tag children =>
    if children.isEmpty then '<' :: tag.text ++ ['/', '>']
    else '<' :: tag.text ++ '>' :: writtenOf children ++ '<' :: '/' :: tag.name.text ++ ['>']
  | .remark r => r.text
  | .reference name => '&' :: name ++ [';']

/-- The text of neighbouring markup. -/
def writtenOf : List Markup → Text
  | [] => []
  | first :: rest => written first ++ writtenOf rest

end

/-- The declaration at the beginning of a document that is written. -/
def documentStart : Text :=
  Text.ofString "<?xml version='1.0' encoding='UTF-8' standalone='yes'?>\n"

/-- The document with this root element. -/
def document (root : Markup) : Text := documentStart ++ root.written

end Markup

end Xml

end FormLetter
