import FormLetter.Merge.Outline
import FormLetter.Text.Blank

/-!
# Editing a tree in place

A pass over the sections of a tree first collects all its edits and then applies them together, so
each edit is stated in terms of the unmodified tree.

* **Two kinds of edits.** A node is removed as a whole, or a range of characters is cut from the
  text inside a paragraph. Positions count from the first character of the paragraph.
* **Cutting is one sweep.** `Node.sweep` walks through a tree with the position of the next
  character in hand and takes the characters of some ranges out of the texts that it comes by. It
  keeps every element and every text node, those left empty included.
* **Blank paragraphs go.** A paragraph that lost text and shows nothing any more is dropped, unless
  it is the root of the tree.
-/

namespace FormLetter

/-- The positions from `low` up to but excluding `high`. -/
structure Range where
  low : Nat
  high : Nat
deriving DecidableEq, Repr

namespace Range

/-- Whether the first range may stand before the second in an order by low ends, and by high ends
among equal low ends. -/
def inOrder (a b : Range) : Bool := a.low < b.low || a.low == b.low && a.high ≤ b.high

/-- Puts a range in front of the first one that may stand behind it. -/
def insertInOrder (range : Range) : List Range → List Range
  | [] => [range]
  | next :: rest =>
    if range.inOrder next then range :: next :: rest else next :: insertInOrder range rest

/-- The ranges in order. -/
def ordered (ranges : List Range) : List Range := ranges.foldr insertInOrder []

end Range

/-! ## Sweeping over text -/

/-- How far a sweep over a text has come: what it keeps of the text up to the cursor. -/
structure Sweep where
  kept : Text
  cursor : Nat
deriving DecidableEq, Repr

/-- Goes on to the end of a range, when the first character of the text stands at `start`. The
characters from the cursor up to the range are kept; what lies outside the text does not count. -/
def Sweep.past (start : Nat) (t : Text) (sweep : Sweep) (range : Range) : Sweep :=
  let low := max range.low start
  let high := min range.high (start + t.length)
  if high ≤ low then sweep
  else
    let between :=
      if sweep.cursor < low then (t.drop (sweep.cursor - start)).take (low - sweep.cursor) else []
    ⟨sweep.kept ++ between, max sweep.cursor high⟩

/-- The text without the characters in the ranges, which come in order; its first character stands
at `start`. -/
def sweepText (ranges : List Range) (start : Nat) (t : Text) : Text :=
  let sweep := ranges.foldl (Sweep.past start t) ⟨[], start⟩
  if sweep.cursor = start then t else sweep.kept ++ t.drop (sweep.cursor - start)

mutual

/-- The tree without the characters in the ranges, which come in order, when its first character
stands at `offset`; and the position behind its last character. -/
def Node.sweep (ranges : List Range) (offset : Nat) : Node → Node × Nat
  | .text value => (.text (sweepText ranges offset value), offset + value.length)
  | .element tag children =>
    let (swept, stop) := Node.sweepAll ranges offset children
    (.element tag swept, stop)

/-- Neighbouring trees without the characters in the ranges, and the position behind them. -/
def Node.sweepAll (ranges : List Range) (offset : Nat) : List Node → List Node × Nat
  | [] => ([], offset)
  | node :: rest =>
    let (first, next) := Node.sweep ranges offset node
    let (others, stop) := Node.sweepAll ranges next rest
    (first :: others, stop)

end

/-! ## Edits -/

/-- Whether a paragraph shows nothing: its text is blank and it holds no content element. -/
def showsNothing (paragraph : Node) : Bool :=
  paragraph.content.isBlank && !paragraph.tags.any fun tag => Word.contentNames.contains tag.name

/-- A change to a tree. -/
inductive Edit
  /-- Cuts a range from the text of the paragraph at this place. -/
  | cut (place : Place) (range : Range)
  /-- Removes the node at this place. -/
  | remove (place : Place)
deriving DecidableEq, Repr

namespace Edit

/-- The edit as seen from child `index` of the node, if it lies there. -/
def under? (index : Nat) : Edit → Option Edit
  | .cut (i :: place) range => if i = index then some (.cut place range) else none
  | .remove (i :: place) => if i = index then some (.remove place) else none
  | _ => none

/-- The range that the edit cuts from the node itself. -/
def cutHere? : Edit → Option Range
  | .cut [] range => some range
  | _ => none

end Edit

/-- The ranges to cut from the node itself. -/
def cutsHere (edits : List Edit) : List Range := edits.filterMap Edit.cutHere?

/-- Whether the node itself is to be removed. -/
def removesHere (edits : List Edit) : Bool := edits.contains (.remove [])

/-- The edits that lie in child `index`. -/
def editsUnder (index : Nat) (edits : List Edit) : List Edit := edits.filterMap (·.under? index)

mutual

/-- The tree with edits applied. -/
def Node.edit (edits : List Edit) : Node → Node
  | .text value => .text value
  | .element tag children =>
    if (cutsHere edits).isEmpty then .element tag (Node.editFrom edits 0 children)
    else ((Node.element tag children).sweep (Range.ordered (cutsHere edits)) 0).1

/-- The children from position `index` on with edits applied: removed ones and paragraphs that are
left with nothing to show are missing. -/
def Node.editFrom (edits : List Edit) (index : Nat) : List Node → List Node
  | [] => []
  | node :: rest =>
    let here := editsUnder index edits
    let others := Node.editFrom edits (index + 1) rest
    if removesHere here then others
    else
      let edited := Node.edit here node
      if !(cutsHere here).isEmpty && showsNothing edited then others else edited :: others

end

end FormLetter
