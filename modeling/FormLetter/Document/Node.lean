import FormLetter.Text.Basic

/-!
# Document trees

A document part is a tree of elements and character data.

* **Character data is escaped.** A text node holds what stands between the tags, with markup
  characters written as references. Text that is put in must be escaped first.
* **Names are expanded.** An element or attribute in a namespace is named by the namespace in
  braces followed by its local name.
* **Declarations are not content.** An element remembers which namespace prefixes were declared on
  it, which matters for writing it out again. `Node.same` compares trees without them.
-/

namespace FormLetter

/-- A namespace declared on an element, with its prefix; the default namespace has none. -/
structure Declaration where
  qualifier : Option String
  uri : String
deriving DecidableEq, Repr, Inhabited

/-- What a start tag says. -/
structure StartTag where
  name : String
  attributes : List (String × String)
  declarations : List Declaration
deriving DecidableEq, Repr, Inhabited

/-- A part of a document: character data or an element with its children. -/
inductive Node
  | text (value : Text)
  | element (tag : StartTag) (children : List Node)
deriving Repr, Inhabited

namespace Node

/-! ## Reading a tree -/

/-- Whether a node is an element of this name. -/
def isNamed (name : String) : Node → Bool
  | .text _ => false
  | .element tag _ => tag.name == name

/-- Whether a node is an element. -/
def isElement : Node → Bool
  | .text _ => false
  | .element .. => true

/-- The children of an element; character data has none. -/
def children : Node → List Node
  | .text _ => []
  | .element _ children => children

/-- The value of an attribute. -/
def attribute? (node : Node) (name : String) : Option String :=
  match node with
  | .text _ => none
  | .element tag _ => tag.attributes.lookup name

/-- The children that are elements of this name. -/
def childrenNamed (node : Node) (name : String) : List Node :=
  node.children.filter (isNamed name)

/-- The first child that is an element of this name. -/
def firstNamed? (node : Node) (name : String) : Option Node :=
  node.children.find? (isNamed name)

/-- The element with other children; character data is left alone. -/
def withChildren (node : Node) (children : List Node) : Node :=
  match node with
  | .text value => .text value
  | .element tag _ => .element tag children

mutual

/-- The values of all text nodes, in document order. -/
def texts : Node → List Text
  | .text value => [value]
  | .element _ children => textsOf children

/-- The values of all text nodes of several trees. -/
def textsOf : List Node → List Text
  | [] => []
  | node :: rest => texts node ++ textsOf rest

end

/-- All the text of a tree. -/
def content (node : Node) : Text := node.texts.flatten

/-- All the text of several trees. -/
def contentOf (nodes : List Node) : Text := (textsOf nodes).flatten

mutual

/-- The tags of all elements, each before those inside it. -/
def tags : Node → List StartTag
  | .text _ => []
  | .element tag children => tag :: tagsOf children

/-- The tags of all elements of several trees. -/
def tagsOf : List Node → List StartTag
  | [] => []
  | node :: rest => tags node ++ tagsOf rest

end

/-! ## Changing text -/

mutual

/-- The tree with every text value changed by `f`. -/
def mapText (f : Text → Text) : Node → Node
  | .text value => .text (f value)
  | .element tag children => .element tag (mapTextOf f children)

/-- Several trees with every text value changed by `f`. -/
def mapTextOf (f : Text → Text) : List Node → List Node
  | [] => []
  | node :: rest => mapText f node :: mapTextOf f rest

end

/-! ## Comparing trees -/

mutual

/-- Whether two trees are equal, declarations included. -/
def decEq : (a b : Node) → Decidable (a = b)
  | .text a, .text b => decidable_of_iff (a = b) (by simp)
  | .element s as, .element t bs =>
    if h : s = t then
      match decEqAll as bs with
      | .isTrue h' => .isTrue (by rw [h, h'])
      | .isFalse h' => .isFalse (by simp [h'])
    else .isFalse (by simp [h])
  | .text _, .element .. => .isFalse (by simp)
  | .element .., .text _ => .isFalse (by simp)

/-- Whether two sequences of trees are equal. -/
def decEqAll : (as bs : List Node) → Decidable (as = bs)
  | [], [] => .isTrue rfl
  | a :: as, b :: bs =>
    match decEq a b, decEqAll as bs with
    | .isTrue h, .isTrue h' => .isTrue (by rw [h, h'])
    | .isFalse h, _ => .isFalse (by simp [h])
    | _, .isFalse h => .isFalse (by simp [h])
  | [], _ :: _ => .isFalse (by simp)
  | _ :: _, [] => .isFalse (by simp)

end

instance : DecidableEq Node := decEq

mutual

/-- Whether two trees have the same elements, attributes and text. -/
def same : Node → Node → Bool
  | .text a, .text b => a == b
  | .element s as, .element t bs =>
    s.name == t.name && s.attributes == t.attributes && sameAll as bs
  | _, _ => false

/-- Whether two sequences of trees agree one by one. -/
def sameAll : List Node → List Node → Bool
  | [], [] => true
  | a :: as, b :: bs => same a b && sameAll as bs
  | _, _ => false

end

end Node

/-- The part of a name after its namespace. -/
def localName (name : String) : String :=
  let reversed := name.toList.reverse
  String.ofList (reversed.takeWhile (· != '\x7d')).reverse

/-- Character data that stands for the given text: the characters of markup become references. -/
def escapeMarkup (t : Text) : Text :=
  t.flatMap fun c =>
    if c = '&' then Text.ofString "&amp;"
    else if c = '<' then Text.ofString "&lt;"
    else if c = '>' then Text.ofString "&gt;"
    else [c]

end FormLetter
