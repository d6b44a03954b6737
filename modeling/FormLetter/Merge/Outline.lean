import FormLetter.Document.Word

/-!
# The flat text of a tree

Sections may run over many paragraphs, so their markers are looked for in the text of the whole
tree.

* **Segments.** The outermost paragraphs, each with all the text inside it, and the text nodes
  outside all paragraphs, empty ones excepted, in document order.
* **Separators.** Neighbouring segments are separated by a line end, which no token can hold. So a
  token of the flat text lies inside one segment.
-/

namespace FormLetter

/-- Where a node stands in a tree: the positions to take among the children, from the root on. -/
abbrev Place := List Nat

/-- A segment of the flat text: the place of its paragraph, or none for loose text, and its
text. -/
structure OutlineEntry where
  place : Option Place
  text : Text
deriving DecidableEq, Repr

mutual

/-- The segments of a tree that stands at the given place. -/
def outlineAt (place : Place) : Node → List OutlineEntry
  | .text value => if value.isEmpty then [] else [⟨none, value⟩]
  | .element tag children =>
    if tag.name == Word.paragraph then [⟨some place, (Node.element tag children).content⟩]
    else outlineFrom place 0 children

/-- The segments of the children from position `index` on of the node at the given place. -/
def outlineFrom (place : Place) (index : Nat) : List Node → List OutlineEntry
  | [] => []
  | node :: rest => outlineAt (place ++ [index]) node ++ outlineFrom place (index + 1) rest

end

/-- The segments of a tree. -/
def outline (tree : Node) : List OutlineEntry := outlineAt [] tree

/-- The texts of the segments with a line end between neighbours. -/
def flatText (tree : Node) : Text := Text.joinWith ['\n'] ((outline tree).map (·.text))

/-- A segment with its position in the flat text. -/
structure Segment where
  place : Option Place
  start : Nat
  stop : Nat
deriving DecidableEq, Repr

/-- The number of characters of a segment. -/
def Segment.length (segment : Segment) : Nat := segment.stop - segment.start

/-- The segments in order, when the first of them starts at `start`. -/
def segmentsFrom (start : Nat) : List OutlineEntry → List Segment
  | [] => []
  | entry :: rest =>
    let stop := start + entry.text.length
    ⟨entry.place, start, stop⟩ :: segmentsFrom (stop + 1) rest

/-- The segments of a tree with their positions in its flat text. -/
def segments (tree : Node) : List Segment := segmentsFrom 0 (outline tree)

end FormLetter
