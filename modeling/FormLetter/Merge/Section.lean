import FormLetter.Data.Access
import FormLetter.Merge.Edits
import FormLetter.Merge.Error

/-!
# Resolving conditional sections

A section keeps one of its branches, by the value at the path of its condition, and loses the other.

* **Bounds.** The markers of a section must stand in paragraphs with one parent, or all in one
  paragraph. Whatever lies between those paragraphs belongs to the section.
* **What is lost.** From the first to the last marker around the losing branch, everything goes. A
  paragraph that holds one of these two markers goes as a whole, unless a marker of the kept branch
  shares it; then only its text on the losing side goes. When both markers stand in one paragraph,
  only text is cut.
* **What is kept** loses the remaining markers and nothing else.
* **Passes.** One pass resolves all outermost sections against the unmodified tree; sections inside
  kept branches are outermost in the next pass. A pass that resolves a section always shortens the
  flat text, since it removes at least a marker.
-/

namespace FormLetter

/-- Where a marker stands: its paragraph, the positions it takes up there, and the length of the
paragraph's text. -/
structure Site where
  place : Place
  range : Range
  length : Nat
deriving DecidableEq, Repr

/-- How many of the numbers, which ascend, are at most `bound`. At least `low` of them are and at
most `high`; the stretch between is halved until the answer is left. -/
def countUpTo (numbers : List Nat) (bound low high : Nat) : Nat :=
  if low < high then
    let middle := (low + high) / 2
    if bound < numbers.getD middle 0 then countUpTo numbers bound low middle
    else countUpTo numbers bound (middle + 1) high
  else low
termination_by high - low

/-- The segment that holds a position of the flat text: the last one that starts no later. -/
def segmentAt? (segments : List Segment) (position : Nat) : Option Segment :=
  match countUpTo (segments.map (·.start)) position 0 segments.length with
  | 0 => none
  | index + 1 => segments[index]?

/-- The site of a marker, unless it stands in loose text. -/
def site? (segments : List Segment) (marker : Occurrence) : Option Site := do
  let segment ← segmentAt? segments marker.start
  let place ← segment.place
  if marker.stop ≤ segment.stop then
    some ⟨place, ⟨marker.start - segment.start, marker.stop - segment.start⟩, segment.length⟩
  else none

/-- A section whose markers have been located. -/
structure SitedBlock where
  opening : Site
  alternative : Option Site
  closing : Site
deriving DecidableEq, Repr

/-- The sites of all markers. -/
def SitedBlock.sites (block : SitedBlock) : List Site :=
  block.opening :: block.alternative.toList ++ [block.closing]

/-- Whether the markers all stand in one paragraph, or in paragraphs with one parent. -/
def SitedBlock.isAligned (block : SitedBlock) : Bool :=
  let place := block.opening.place
  block.sites.all (·.place == place) ||
    block.sites.all fun site => !site.place.isEmpty && site.place.dropLast == place.dropLast

/-- Locates the markers of a section. Markers in loose text are reported in the order opening,
closing, alternative. -/
def Block.locate (segments : List Segment) (block : Block) : Except BoundaryError SitedBlock := do
  let some opening := site? segments block.opening
    | .error (.openingLoose block.condition block.opening.text)
  let some closing := site? segments block.closing
    | .error (.closingLoose block.condition)
  let alternative ← match block.alternative with
    | none => pure none
    | some marker =>
      match site? segments marker with
      | some site => pure (some site)
      | none => .error (.alternativeLoose block.condition)
  let sited : SitedBlock := ⟨opening, alternative, closing⟩
  if sited.isAligned then .ok sited else .error (.notSiblings block.condition)

/-- What a decision means for a section: the markers around the losing branch, if there is one, and
the markers that are taken out of the rest. -/
structure Selection where
  discarded : Option (Site × Site)
  stripped : List Site
deriving DecidableEq, Repr

/-- The selection for a condition that holds or does not. -/
def SitedBlock.select (block : SitedBlock) (holds : Bool) : Selection :=
  match holds, block.alternative with
  | true, none => ⟨none, [block.opening, block.closing]⟩
  | true, some alternative => ⟨some (alternative, block.closing), [block.opening]⟩
  | false, none => ⟨some (block.opening, block.closing), []⟩
  | false, some alternative => ⟨some (block.opening, alternative), [block.closing]⟩

/-- The edit of a boundary paragraph of a discarded span: `lost` is cut from it if a kept marker
shares the paragraph, and otherwise the paragraph is removed. -/
def boundaryEdit (stripped : List Site) (site : Site) (lost : Range) : Edit :=
  if stripped.any (·.place == site.place) then .cut site.place lost else .remove site.place

/-- The siblings strictly between two places under one parent. -/
def placesBetween (first last : Place) : List Place :=
  let low := first.getLastD 0 + 1
  let high := last.getLastD 0
  (List.range' low (high - low)).map fun index => first.dropLast ++ [index]

/-- The edits that carry out a selection. -/
def Selection.edits (selection : Selection) : List Edit :=
  let cuts := selection.stripped.map fun site => Edit.cut site.place site.range
  match selection.discarded with
  | none => cuts
  | some (first, last) =>
    cuts ++
      if first.place = last.place then [.cut first.place ⟨first.range.low, last.range.high⟩]
      else
        boundaryEdit selection.stripped first ⟨first.range.low, first.length⟩
          :: boundaryEdit selection.stripped last ⟨0, last.range.high⟩
          :: (placesBetween first.place last.place).map .remove

/-- The edits for one section: it is located first, and only then is its condition looked at. -/
def Block.edits (segments : List Segment) (data : Value) (block : Block) :
    Except Cause (List Edit) := do
  let sited ← (block.locate segments).mapError .boundary
  let holds ← (isTruthy data block.condition.path).mapError (.ofReason block.condition)
  return (sited.select holds).edits

/-- The edits for several sections, in order; the first failure decides. -/
def editsOfBlocks (segments : List Segment) (data : Value) :
    List Block → Except Cause (List Edit)
  | [] => .ok []
  | block :: rest => do
    let edits ← block.edits segments data
    let others ← editsOfBlocks segments data rest
    return edits ++ others

/-- Resolves the outermost sections of a tree; the number says how many there were. -/
def resolvePass (tree : Node) (data : Value) : Except Cause (Node × Nat) := do
  let found := markers (flatText tree)
  if found.isEmpty then return (tree, 0)
  let blocks ← (pair found).mapError .pairing
  let edits ← editsOfBlocks (segments tree) data blocks
  return (tree.edit edits, blocks.length)

/-- Resolves all sections of a tree, pass by pass, until none is left. The comparison of lengths
always succeeds after a pass that resolved a section; it is what shows that the passes end. -/
def resolveSections (tree : Node) (data : Value) : Except Cause Node :=
  match resolvePass tree data with
  | .error cause => .error cause
  | .ok (next, resolved) =>
    if resolved = 0 then .ok next
    else if (flatText next).length < (flatText tree).length then resolveSections next data
    else .ok next
termination_by (flatText tree).length

end FormLetter
