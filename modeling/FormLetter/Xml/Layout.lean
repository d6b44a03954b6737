import FormLetter.Xml.Scope

/-!
# Layout and text

Blanks between tags often only lay out markup. Whether they do is decided while a document is read,
from what has been read of the element so far.

* **Chunks.** Character data is taken in chunks, and a chunk of blanks is left out or stays as a
  whole. A chunk ends at a line end of two characters. From the first character that is not plain
  on, all the rest is one chunk. References are no part of chunks: what they stand for always stays.
* **Markup decides.** An attribute can demand that blanks stay. The document type can tell elements
  that hold text from those that do not.
* **Else the place decides.** Blanks that all of an element consists of are text. So are blanks in
  an element that has had text of its own, or that begins with text, and blanks beside other text.
-/

namespace FormLetter

namespace Xml

/-- How blanks count inside an element. -/
inductive Space
  /-- Nothing has decided it yet. -/
  | undecided
  /-- The element has had text, so they are text. -/
  | textual
  /-- They may lay out markup, whatever comes before them. -/
  | layout
  /-- They are text by demand. -/
  | preserved
deriving DecidableEq, Repr

/-- How blanks count in an element with this tag, in front of all its children, from how they count
around it. -/
def Space.inside (around : Space) (tag : WrittenTag) : Space :=
  let inherited := if around = .textual then .undecided else around
  match tag.attributes.lookup spaceName with
  | some value =>
    if value = Text.ofString "preserve" then .preserved
    else if value = Text.ofString "default" then .layout
    else inherited
  | none => inherited

/-- An element whose end tag has not been met. -/
structure OpenElement where
  /-- The name as the tag spells it. -/
  label : Text
  tag : WrittenTag
  scope : Scope
  space : Space
  /-- What has been read of its inside, last one first. -/
  before : List Markup

namespace OpenElement

/-- The element after one more child. -/
def push (element : OpenElement) (child : Markup) : OpenElement :=
  { element with before := child :: element.before }

/-- The element after more text, which continues a text right before it. -/
def addText (element : OpenElement) (t : Text) : OpenElement :=
  match element.before with
  | .text s :: rest => { element with before := .text (s ++ t) :: rest }
  | before => { element with before := .text t :: before }

/-- The finished element. -/
def close (element : OpenElement) : Markup := .element element.tag element.before.reverse

/-- The name by which the document type knows the element. -/
def typeName (element : OpenElement) : Text :=
  let name := element.tag.name
  if element.scope.isUnbound name then name.text else name.localPart

/-- Whether blanks at this place are text, by what has been read of the element and by what follows
them. -/
def holdsBlanks (element : OpenElement) (following : Text) : Bool :=
  match following, element.before with
  | '<' :: '/' :: _, [] => true
  | _, [] => false
  | _, last :: _ => last.isText || element.before.getLast?.any (·.isText)

/-- Whether a chunk of character data in front of `following` stays. -/
def keeps (element : OpenElement) (vocabulary : Vocabulary) (chunk following : Text) : Bool :=
  let isMarked := element.space == .textual || element.space == .preserved
  let isBeforeMarkup := following.head? == some '<' || following.head? == some '\r'
  if isMarked || !chunk.all isSpace then true
  else
    match vocabulary.holdsText? element.typeName with
    | some holdsText => holdsText
    | none => !isBeforeMarkup || element.holdsBlanks following

/-- The element after a chunk of character data in front of `following`. -/
def addChunk (vocabulary : Vocabulary) (element : OpenElement) (chunk following : Text) :
    OpenElement :=
  if chunk.isEmpty || !element.keeps vocabulary chunk following then element
  else
    let space := if element.space = .undecided then .textual else element.space
    { element.addText (normalizeLineEnds chunk) with space }

/-- A character that a chunk can hold without taking in all the rest. -/
def isPlainChar (c : Char) : Bool := c != '\r' && c.toNat < 0x80

/-- The element after character data in front of `following`, chunk by chunk. -/
def addChunks (element : OpenElement) (vocabulary : Vocabulary) (t following : Text) :
    OpenElement :=
  let chunk := t.takeWhile isPlainChar
  let rest := t.dropWhile isPlainChar
  let next := element.addChunk vocabulary chunk (rest ++ following)
  match rest with
  | [] => next
  | '\r' :: '\n' :: more =>
    if !more.head?.all isPlainChar then next.addChunk vocabulary ('\n' :: more) following
    else if more.length + 1 < t.length then next.addChunks vocabulary ('\n' :: more) following
    else next
  | _ => next.addChunk vocabulary rest following
termination_by t.length

end OpenElement

end Xml

end FormLetter
