import FormLetter.Xml.Encoding
import FormLetter.Xml.Layout

/-!
# From text to trees

Reading a document takes its text apart into items and builds the markup that they describe, one
item at a time. The elements that are open form a stack.

* **One root.** Around the root element only remarks, white space and, before it, one document type
  declaration may stand.
* **Character data** is collected into one text up to the next tag or remark.
* **Two manners.** A document is read in full, or without the blanks that only lay out its markup
  (`Xml.Layout`).
* **Acceptance.** What is noticed on the way decides in the end whether the document counts.
-/

namespace FormLetter

namespace Xml

/-- How deep elements may be nested. -/
def maxDepth : Nat := 257

/-- How far a document has been read. -/
inductive Progress
  /-- The root element is still to come; the flag says whether a document type was declared. -/
  | before (declared : Bool)
  /-- The innermost open element, and those around it from the inside out. -/
  | inside (element : OpenElement) (outer : List OpenElement)
  /-- The root element is finished. -/
  | after (root : Markup)

namespace Progress

/-- The elements that are open. -/
def opened : Progress → List OpenElement
  | .inside element outer => element :: outer
  | _ => []

/-- The progress after an element has been finished inside the given ones. -/
def finish (child : Markup) : List OpenElement → Progress
  | [] => .after child
  | element :: outer => .inside (element.push child) outer

/-- The root element of a document that has been read to its end. -/
def root? : Progress → Option Markup
  | .after root => some root
  | _ => none

end Progress

/-- What is known while a document is read. -/
structure Reading where
  isStandalone : Bool
  /-- Whether blanks that lay out markup are left out. -/
  dropsLayout : Bool
  vocabulary : Vocabulary
  /-- The values that identify elements. -/
  identities : List Text
  progress : Progress

namespace Reading

/-- A document of which nothing has been read. -/
def start (isStandalone dropsLayout : Bool) : Reading :=
  ⟨isStandalone, dropsLayout, Vocabulary.empty, [], .before false⟩

/-- The reading with the innermost open element changed; there must be one. -/
def mapInnermost (reading : Reading) (f : OpenElement → OpenElement) : Judged Reading :=
  match reading.progress with
  | .inside element outer => return { reading with progress := .inside (f element) outer }
  | _ => refuse

/-- Reads a start tag. -/
def enter (reading : Reading) (raw : RawTag) (isEmpty : Bool) : Judged Reading := do
  let opened := reading.progress.opened
  if reading.progress.root?.isSome || maxDepth ≤ opened.length then refuse
  let outer := (opened.head?.map (·.scope)).getD Scope.initial
  let tag ← reading.vocabulary.tag outer raw
  let identities ← reading.vocabulary.identities raw.label tag reading.identities
  let around := (opened.head?.map (·.space)).getD .undecided
  let element : OpenElement :=
    ⟨raw.label, tag, tag.declarations ++ outer, Space.inside around tag, []⟩
  let progress := if isEmpty then .finish element.close opened else .inside element opened
  return { reading with identities, progress }

/-- Reads an end tag, which must repeat the label of the start tag. -/
def leave (reading : Reading) (label : Text) : Judged Reading :=
  match reading.progress with
  | .inside element outer =>
    if element.label = label then
      return { reading with progress := .finish element.close outer }
    else refuse
  | _ => refuse

/-- Reads one more item. -/
def step (reading : Reading) : Item → Judged Reading
  | .opening raw isEmpty => reading.enter raw isEmpty
  | .closing label => reading.leave label
  | .chars t following =>
    match reading.progress with
    | .inside element outer =>
      let element :=
        if reading.dropsLayout then element.addChunks reading.vocabulary t following
        else element.addText (normalizeLineEnds t)
      return { reading with progress := .inside element outer }
    | _ => if t.all isSpace then return reading else refuse
  | .character c => reading.mapInnermost (·.addText [c])
  | .verbatim t => reading.mapInnermost (·.addText t)
  | .entity name => do
    if !reading.vocabulary.isOpen then refuse
    warn
    reading.mapInnermost (·.push (.reference name))
  | .remark remark => do
    remark.judge
    match reading.progress with
    | .inside .. => reading.mapInnermost (·.push (.remark remark))
    | _ => return reading
  | .doctype declaration =>
    match reading.progress with
    | .before false => do
      let vocabulary ← Vocabulary.ofDoctype reading.isStandalone declaration
      return { reading with vocabulary, progress := .before true }
    | _ => refuse

end Reading

/-- The markup of a document given as characters. -/
def judgedMarkup (dropsLayout : Bool) (t : Text) : Judged Markup := do
  let (prologue, body) ← require (prologue? t)
  warnIf (prologue.version != firstVersion)
  if !t.all isChar then refuse
  let items ← require (items? body)
  let reading ← items.foldlM Reading.step (Reading.start prologue.isStandalone dropsLayout)
  require reading.progress.root?

/-- The markup of a document given as bytes, if it counts. -/
def markup? (tables : Charset.Tables) (dropsLayout : Bool) (bytes : ByteArray) : Option Markup := do
  (judgedMarkup dropsLayout (← decode? tables bytes)).accepted?

end Xml

end FormLetter
