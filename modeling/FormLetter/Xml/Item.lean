import FormLetter.Xml.Doctype
import FormLetter.Xml.Markup

/-!
# The items of a document

A document is a sequence of tags, character data, references and remarks. This module takes the text
apart into such items; whether they fit together is left to `Xml.Reading`.

Each item takes at least one character off the text, which is why the reading ends.
-/

namespace FormLetter

namespace Xml

/-- A start tag as it stands in the text, its names unexamined and its values in pieces. -/
structure RawTag where
  label : Text
  attributes : List (Text × List Piece)
deriving Repr

/-- A part of a document. -/
inductive Item
  /-- A start tag; an empty element has no end tag of its own. -/
  | opening (tag : RawTag) (isEmpty : Bool)
  | closing (label : Text)
  /-- Characters between tags and references, and what follows them in the text. -/
  | chars (t following : Text)
  /-- A character that is written as a reference. -/
  | character (c : Char)
  /-- A reference to something that is declared elsewhere, if anywhere. -/
  | entity (name : Text)
  /-- Characters that stand for themselves whatever they are. -/
  | verbatim (t : Text)
  | remark (remark : Remark)
  | doctype (declaration : DoctypeDeclaration)

/-- The rest of a start tag after its name: the attributes, each after white space, whether the
element is empty, and what follows the tag. -/
def attributes? (t : Text) : Option (List (Text × List Piece) × Bool × Text) :=
  match skipSpace t with
  | '>' :: rest => some ([], false, rest)
  | '/' :: '>' :: rest => some ([], true, rest)
  | body =>
    if body.length = t.length then none
    else do
      let (name, rest) ← label? body
      let (value, rest) ← attributeValue? (← equals? rest)
      if rest.length < t.length then
        let (others, isEmpty, following) ← attributes? rest
        return ((name, value) :: others, isEmpty, following)
      else none
termination_by t.length

/-- A start tag after its first character. -/
def startTag? (t : Text) : Option (Item × Text) := do
  let (label, rest) ← label? t
  let (attributes, isEmpty, rest) ← attributes? rest
  return (.opening ⟨label, attributes⟩ isEmpty, rest)

/-- An end tag after its first two characters. -/
def endTag? (t : Text) : Option (Item × Text) := do
  let (label, rest) ← label? t
  return (.closing label, ← after? ['>'] (skipSpace rest))

/-- Characters that stand for themselves, after the beginning of their section. -/
def verbatim? (t : Text) : Option (Item × Text) :=
  (breakAt? [']', ']', '>'] t).map fun (inside, rest) =>
    (.verbatim (normalizeLineEnds inside), rest)

/-- Characters up to the next tag or reference. They may not look like the end of a section. -/
def chars? (t : Text) : Option (Item × Text) :=
  let isPlain := fun c : Char => c != '<' && c != '&'
  let inside := t.takeWhile isPlain
  if (breakAt? [']', ']', '>'] inside).isSome then none
  else
    let rest := t.dropWhile isPlain
    some (.chars inside rest, rest)

/-- A reference as an item. -/
def Item.ofPiece : Piece → Item
  | .plain t => .verbatim t
  | .character c => .character c
  | .entity name => .entity name

/-- The item at the beginning of a text, and what follows it. -/
def item? (t : Text) : Option (Item × Text) :=
  match t with
  | '&' :: rest => (reference? rest).map fun (piece, rest) => (.ofPiece piece, rest)
  | '<' :: '/' :: rest => endTag? rest
  | '<' :: '?' :: rest => (instruction? rest).map fun (r, rest) => (.remark r, rest)
  | '<' :: '!' :: '-' :: '-' :: rest => (comment? rest).map fun (r, rest) => (.remark r, rest)
  | '<' :: '!' :: rest =>
    match after? (Text.ofString "[CDATA[") rest with
    | some body => verbatim? body
    | none => do
      let (declaration, rest) ← doctype? (← after? (Text.ofString "DOCTYPE") rest)
      return (.doctype declaration, rest)
  | '<' :: rest => startTag? rest
  | t => chars? t

/-- The items of a text, if all of it can be read. -/
def items? (t : Text) : Option (List Item) :=
  if t.isEmpty then some []
  else
    match item? t with
    | none => none
    | some (item, rest) =>
      if rest.length < t.length then (items? rest).map (item :: ·) else none
termination_by t.length

end Xml

end FormLetter
