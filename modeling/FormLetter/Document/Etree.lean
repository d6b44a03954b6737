import FormLetter.Document.Unescape
import FormLetter.Document.Word
import FormLetter.Merge.Error

/-!
# Trees of the markup library

Documents are read and written by a library for markup, whose own trees differ from document trees:
text has no nodes there. This module converts between the two and says what is asked of the library.

* **Slots.** An element of the library has a slot for the text in front of its first child, and each
  child has one for the text behind it. A slot may hold nothing, or a text, be it an empty one.
  Remarks and unresolved references are children as well. `Etree.toNode` leaves them out and turns
  every slot with some text into a text node, so two of these can be neighbours where a remark stood
  between them. `XmlLibrary.build` fills slots: all texts up to the next element run into one.
* **Plain and escaped.** What a slot holds is plain; the texts of a tree are escaped.
* **The library** is a parameter, `XmlLibrary`. It reads and writes documents, and it may refuse a
  name, a value or a text while an element is built. `Reads` and `Keeps` say what is relied on where
  a statement needs it.
-/

namespace FormLetter

/-- An error that some other code raises: its type and its text. -/
structure ForeignError where
  type : String
  message : String
deriving DecidableEq, Repr

/-- A refused conversion as the error that it raises. -/
def Refusal.error (refusal : Refusal) : ForeignError := ⟨"ValueError", refusal.message⟩

/-- What ends an operation that does not succeed: an error of this library or of other code. -/
inductive Raised
  | own (error : RenderError)
  | foreign (error : ForeignError)
deriving DecidableEq, Repr

/-! ## Trees with slots -/

/-- A child of an element, with the text behind it. -/
inductive Branch
  /-- An element. Its declarations are the prefixes that mean something inside it, if it has been
  read, and those that it was given, if it has been built. -/
  | element (tag : StartTag) (text : Option Text) (children : List Branch) (tail : Option Text)
  /-- A comment, an instruction or an unresolved reference. -/
  | remark (tail : Option Text)
deriving Repr

/-- A root element. -/
structure Etree where
  tag : StartTag
  text : Option Text
  children : List Branch
deriving Repr

namespace Branch

mutual

/-- Whether two branches are equal. -/
def decEq : (a b : Branch) → Decidable (a = b)
  | .element s t as u, .element s' t' bs u' =>
    if h : s = s' ∧ t = t' ∧ u = u' then
      match decEqAll as bs with
      | .isTrue h' => .isTrue (by rw [h.1, h.2.1, h.2.2, h'])
      | .isFalse h' => .isFalse (by simp [h'])
    else .isFalse (by simp only [element.injEq]; exact fun ⟨hs, ht, _, hu⟩ => h ⟨hs, ht, hu⟩)
  | .remark t, .remark u => decidable_of_iff (t = u) (by simp)
  | .element .., .remark _ => .isFalse (by simp)
  | .remark _, .element .. => .isFalse (by simp)

/-- Whether two sequences of branches are equal. -/
def decEqAll : (as bs : List Branch) → Decidable (as = bs)
  | [], [] => .isTrue rfl
  | a :: as, b :: bs =>
    match decEq a b, decEqAll as bs with
    | .isTrue h, .isTrue h' => .isTrue (by rw [h, h'])
    | .isFalse h, _ => .isFalse (by simp [h])
    | _, .isFalse h => .isFalse (by simp [h])
  | [], _ :: _ => .isFalse (by simp)
  | _ :: _, [] => .isFalse (by simp)

end

instance : DecidableEq Branch := decEq

mutual

/-- What the slots of a branch hold. -/
def texts : Branch → List Text
  | .element _ text children tail => text.toList ++ textsOf children ++ tail.toList
  | .remark tail => tail.toList

/-- What the slots of several branches hold. -/
def textsOf : List Branch → List Text
  | [] => []
  | branch :: rest => texts branch ++ textsOf rest

end

mutual

/-- What is seen of a branch if only `g` is seen of its tags, and if an empty slot looks like one that
holds nothing. -/
def seen (g : StartTag → StartTag) : Branch → Branch
  | .element tag text children tail =>
    .element (g tag) (some (text.getD [])) (seenAll g children) (some (tail.getD []))
  | .remark tail => .remark (some (tail.getD []))

/-- What is seen of several branches. -/
def seenAll (g : StartTag → StartTag) : List Branch → List Branch
  | [] => []
  | branch :: rest => seen g branch :: seenAll g rest

end

end Branch

namespace Etree

deriving instance DecidableEq for Etree

/-- What the slots of a tree hold. -/
def texts (e : Etree) : List Text := e.text.toList ++ Branch.textsOf e.children

/-- What is seen of a tree if only `g` is seen of its tags. -/
def seen (g : StartTag → StartTag) (e : Etree) : Etree :=
  ⟨g e.tag, some (e.text.getD []), Branch.seenAll g e.children⟩

end Etree

/-! ## From slots to texts -/

/-- The text of a slot, if it holds any. -/
def slotNodes (slot : Option Text) : List Node :=
  match slot.getD [] with
  | [] => []
  | t => [.text (escapeMarkup t)]

/-- The prefix of a declaration as a text; the default namespace has the empty one. -/
def Declaration.order (d : Declaration) : Text := (d.qualifier.getD "").toList

/-- What a prefix means, if anything. -/
def meaningIn? (declarations : List Declaration) (qualifier : Option String) : Option String :=
  (declarations.find? (·.qualifier == qualifier)).map (·.uri)

/-- The declarations that mean something else than around the element, ordered by prefix. -/
def newDeclarations (around inside : List Declaration) : List Declaration :=
  (inside.filter fun d => meaningIn? around d.qualifier != some d.uri).mergeSort fun a b =>
    Text.inOrder a.order b.order

/-- The tag of an element in a document tree. -/
def StartTag.inside (around : List Declaration) (tag : StartTag) : StartTag :=
  { tag with declarations := newDeclarations around tag.declarations }

namespace Branch

mutual

/-- A branch in a document tree, inside an element where these prefixes mean something. -/
def nodes (around : List Declaration) : Branch → List Node
  | .element tag text children tail =>
    .element (tag.inside around) (slotNodes text ++ nodesOf tag.declarations children)
      :: slotNodes tail
  | .remark tail => slotNodes tail

/-- Several branches in a document tree. -/
def nodesOf (around : List Declaration) : List Branch → List Node
  | [] => []
  | branch :: rest => nodes around branch ++ nodesOf around rest

end

end Branch

/-- The document tree of a tree with slots. -/
def Etree.toNode (e : Etree) : Node :=
  .element (e.tag.inside []) (slotNodes e.text ++ Branch.nodesOf e.tag.declarations e.children)

/-! ## Tags of elements that are built -/

/-- The entries with a value for a key: in the place of the old one, or else at the end. -/
def putEntry {α β : Type} [BEq α] (key : α) (value : β) : List (α × β) → List (α × β)
  | [] => [(key, value)]
  | (k, v) :: rest => if k == key then (k, value) :: rest else (k, v) :: putEntry key value rest

/-- The entries that are left when some are put one after the other. -/
def putEntries {α β : Type} [BEq α] (entries : List (α × β)) : List (α × β) :=
  entries.foldl (fun done (key, value) => putEntry key value done) []

/-- The tag of an element that is built: each prefix and each attribute is there once. -/
def StartTag.built (tag : StartTag) : StartTag :=
  let declarations := putEntries (tag.declarations.map fun d => (d.qualifier, d.uri))
  ⟨tag.name, putEntries tag.attributes, declarations.map fun (qualifier, uri) => ⟨qualifier, uri⟩⟩

/-! ## The library -/

/-- Why a document cannot be read. -/
inductive ReadFault
  /-- It is not well-formed, and the library says where. -/
  | malformed (detail : String)
  | other (error : ForeignError)
deriving DecidableEq, Repr

/-- A library that reads and writes documents. -/
structure XmlLibrary where
  /-- Reads a document. -/
  read : ByteArray → Except ReadFault Etree
  /-- Why no element can have this name and these declarations, if none can. -/
  elementFault? : String → List Declaration → Option ForeignError
  /-- Why no attribute can have this name and this value, if none can. -/
  attributeFault? : String → String → Option ForeignError
  /-- Why no slot can hold a text, if none can. -/
  textFault? : Text → Option ForeignError
  /-- Writes a document. -/
  write : Etree → ByteArray

namespace XmlLibrary

/-- What is relied on about characters. A text is refused over a character that is in it, none is
refused over a printable ASCII character, and none that has been read is refused. -/
structure Reads (lib : XmlLibrary) : Prop where
  refuses : ∀ t, lib.textFault? t = none ↔ ∀ c ∈ t, lib.textFault? [c] = none
  accepts : ∀ c : Char, ' ' ≤ c → c ≤ '~' → lib.textFault? [c] = none
  fair : ∀ bytes e, lib.read bytes = .ok e → ∀ t ∈ e.texts, lib.textFault? t = none

/-- Writing a tree that has been built and reading it again keeps its texts, its children, and what
`g` shows of its tags. -/
def Keeps (lib : XmlLibrary) (g : StartTag → StartTag) (e : Etree) : Prop :=
  ∃ again, lib.read (lib.write e) = .ok again ∧ again.seen g = e.seen g

/-- The names and declarations that are read of a tree that has been written can be used again. -/
def Remakes (lib : XmlLibrary) (e : Etree) : Prop :=
  ∀ again, lib.read (lib.write e) = .ok again →
    ∀ tag ∈ again.toNode.tags, lib.elementFault? tag.name tag.built.declarations = none

end XmlLibrary

/-! ## From texts to slots -/

namespace XmlLibrary

variable (lib : XmlLibrary)

/-- Why an element with this tag cannot be built: for its name and its declarations, or for the first
attribute that is refused. -/
def tagFault? (tag : StartTag) : Option ForeignError :=
  (lib.elementFault? tag.name tag.built.declarations).or <|
    tag.attributes.findSome? fun (name, value) => lib.attributeFault? name value

/-- The text of a slot after one more text, whose references are resolved. -/
def fill (slot : Option Text) (value : Text) : Except ForeignError Text :=
  match referenceRefusal? value with
  | some refusal => .error refusal.error
  | none =>
    let text := slot.getD [] ++ unescape value
    match lib.textFault? text with
    | some error => .error error
    | none => .ok text

mutual

/-- Builds an element. Only elements can be built. -/
def build : Node → Except ForeignError Etree
  | .text _ => .error ⟨"AttributeError", "'Text' object has no attribute 'nsmap'"⟩
  | .element tag children =>
    match lib.tagFault? tag with
    | some error => .error error
    | none => do
      let (text, branches) ← buildAll none children
      return ⟨tag.built, text, branches⟩

/-- Fills the slot that is open and builds the elements behind it; `slot` is what it holds already. -/
def buildAll (slot : Option Text) :
    List Node → Except ForeignError (Option Text × List Branch)
  | [] => .ok (slot, [])
  | node :: rest =>
    match node with
    | .text value => do
      let text ← lib.fill slot value
      buildAll (some text) rest
    | .element .. => do
      let ⟨tag, text, children⟩ ← build node
      let (tail, others) ← buildAll none rest
      return (slot, .element tag text children tail :: others)

end

/-! ## Documents -/

/-- The document that a tree becomes. -/
def serialize (tree : Node) : Except ForeignError ByteArray := (lib.build tree).map lib.write

/-- The tree of a document, which may be a part of a package. -/
def parse (document : ByteArray) (part : Option String) : Except Raised Node :=
  match lib.read document with
  | .ok e => .ok e.toNode
  | .error (.malformed detail) => .error (.own ((Cause.malformed detail).inPart part))
  | .error (.other error) => .error (.foreign error)

end XmlLibrary

end FormLetter
