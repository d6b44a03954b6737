import FormLetter.Xml.Reference
import FormLetter.Xml.Remark

/-!
# Document types

A document type declaration says what elements may hold and what their attributes are like. Its
text is read here; `Xml.Vocabulary` says what follows from it.

* **Where declarations stand.** Some may stand outside the document. Those are never looked up, but
  it matters that they exist: names that nobody explains here may be explained there.
* **What elements hold.** A content model is read for its form only, apart from the question
  whether text may occur in it.
-/

namespace FormLetter

namespace Xml

/-- What an element may hold. -/
inductive ContentModel
  | empty
  | any
  /-- Text, perhaps with elements between. -/
  | mixed
  /-- Elements only. -/
  | elements
deriving DecidableEq, Repr

/-- What the values of an attribute are. -/
inductive AttributeType
  | text
  /-- A name that no other element has. -/
  | identity
  | name
  | names
  | word
  | words
  /-- One of the given words. -/
  | choice (words : List Text)
  /-- One of the given formats. -/
  | format (names : List Text)
deriving DecidableEq, Repr

/-- What is declared about an attribute, with the value that it has by default. -/
structure AttributeDeclaration where
  name : Text
  type : AttributeType
  preset : Option (List Piece)
deriving DecidableEq, Repr

/-- A declaration inside a document type declaration. -/
inductive TypeDeclaration
  | element (name : Text) (content : ContentModel)
  | attributes (element : Text) (attributes : List AttributeDeclaration)
  /-- A format of data that is not in markup. -/
  | format (name : Text)
  /-- Further declarations under this name. -/
  | inclusion (name : Text)
  | remark (remark : Remark)
deriving DecidableEq, Repr

/-- A document type declaration; the flag says whether a part of it stands outside the document. -/
structure DoctypeDeclaration where
  isExternal : Bool
  declarations : List TypeDeclaration
deriving DecidableEq, Repr

/-! ## Identifiers -/

/-- A character of a public identifier. -/
def isPublicChar (c : Char) : Bool :=
  c.isAlphanum || c == '\n' || c == '\r' || " -\x27()+,./:=?;!*#@$_%".toList.contains c

/-- What follows a public identifier in quotes. -/
def afterPublicId? (t : Text) : Option Text := do
  let (identifier, rest) ← quoted? t
  if identifier.all isPublicChar then some rest else none

/-- What follows a system identifier in quotes. -/
def afterSystemId? (t : Text) : Option Text := (quoted? t).map (·.2)

/-- What follows the external identifier at the beginning of a text, if there is one. A public
identifier alone is enough only where the flag says so. -/
def afterExternalId? (publicIsEnough : Bool) (t : Text) : Option (Bool × Text) :=
  match after? (Text.ofString "SYSTEM") t with
  | some rest => do return (true, ← afterSystemId? (← afterSpace? rest))
  | none =>
    match after? (Text.ofString "PUBLIC") t with
    | none => some (false, t)
    | some rest => do
      let rest ← afterPublicId? (← afterSpace? rest)
      let following := skipSpace rest
      let hasSystemId := (afterSpace? rest).isSome && (quoted? following).isSome
      if publicIsEnough && !hasSystemId then return (true, following)
      else return (true, ← afterSystemId? (← afterSpace? rest))

/-! ## Content models -/

/-- What follows the mark of repetition at the beginning of a text, if there is one. -/
def skipRepetition : Text → Text
  | '?' :: rest => rest
  | '*' :: rest => rest
  | '+' :: rest => rest
  | t => t

/-- How deep groups may be nested. -/
def maxGroupDepth : Nat := 256

/-- One step through nested groups of elements. For each open group, from the inside out, there is
the separator that has been used in it. The flag says whether a member of the innermost group comes
next, and else a separator or the end of the group. -/
def groupStep? (separators : List (Option Char)) (isMember : Bool) (t : Text) :
    Option (List (Option Char) × Bool × Text) :=
  match isMember, t, separators with
  | true, '(' :: rest, groups =>
    if groups.length < maxGroupDepth then some (none :: groups, true, rest) else none
  | true, t, groups => (label? t).map fun (_, rest) => (groups, false, skipRepetition rest)
  | false, ')' :: rest, _ :: outer => some (outer, false, skipRepetition rest)
  | false, c :: rest, used :: outer =>
    if (c == ',' || c == '|') && used.all (· == c) then some (some c :: outer, true, rest)
    else none
  | false, _, _ => none

/-- What follows nested groups of elements, when some are open already. -/
def afterGroups? (separators : List (Option Char)) (isMember : Bool) (t : Text) : Option Text :=
  match groupStep? separators isMember (skipSpace t) with
  | none => none
  | some ([], _, rest) => some rest
  | some (separators, isMember, rest) =>
    if rest.length < t.length then afterGroups? separators isMember rest else none
termination_by t.length

/-- What follows the elements that may stand between text, each after a bar, and whether there are
any. -/
def afterAlternatives? (hasAny : Bool) (t : Text) : Option (Bool × Text) :=
  match skipSpace t with
  | '|' :: rest =>
    match label? (skipSpace rest) with
    | some (_, following) =>
      if following.length < t.length then afterAlternatives? true following else none
    | none => none
  | following => some (hasAny, following)
termination_by t.length

/-- What follows a content model with text, after its first word. A group with elements must be
repeatable. -/
def afterMixed? (t : Text) : Option Text := do
  let (hasAny, rest) ← afterAlternatives? false t
  let rest ← after? [')'] rest
  match rest with
  | '*' :: following => return following
  | _ => if hasAny then none else return rest

/-- The content model at the beginning of a text, and what follows it. -/
def contentModel? (t : Text) : Option (ContentModel × Text) :=
  match after? (Text.ofString "EMPTY") t, after? (Text.ofString "ANY") t with
  | some rest, _ => some (.empty, rest)
  | none, some rest => some (.any, rest)
  | none, none => do
    let rest ← after? ['('] t
    match after? (Text.ofString "#PCDATA") (skipSpace rest) with
    | some rest => return (.mixed, ← afterMixed? rest)
    | none => return (.elements, ← afterGroups? [none] true rest)

/-! ## Attributes -/

/-- The members of a group between brackets, separated by bars, and what follows it. -/
def choices? (isMember : Text → Bool) (t : Text) : Option (List Text × Text) := do
  let (inside, rest) ← breakAt? [')'] (← after? ['('] t)
  let members := (Text.splitOn '|' inside).map trimSpace
  if members.all isMember then some (members, rest) else none

/-- The keywords for types of attributes. -/
def typeKeywords : List (Text × AttributeType) :=
  [(Text.ofString "CDATA", .text), (Text.ofString "IDREFS", .names),
   (Text.ofString "IDREF", .name), (Text.ofString "ID", .identity),
   (Text.ofString "ENTITY", .name), (Text.ofString "ENTITIES", .names),
   (Text.ofString "NMTOKENS", .words), (Text.ofString "NMTOKEN", .word)]

/-- The type at the beginning of a text, and what follows it. -/
def attributeType? (t : Text) : Option (AttributeType × Text) :=
  let keyword := typeKeywords.findSome? fun (keyword, type) =>
    (after? keyword t).map fun rest => (type, rest)
  match keyword, after? (Text.ofString "NOTATION") t with
  | some found, _ => some found
  | none, some rest => do
    let (names, rest) ← choices? isLabel (← afterSpace? rest)
    return (.format names, rest)
  | none, none => (choices? isWord t).map fun (words, rest) => (.choice words, rest)

/-- The value of an attribute in quotes, in pieces, and what follows it. -/
def attributeValue? (t : Text) : Option (List Piece × Text) := do
  let (value, rest) ← quoted? t
  if value.contains '<' then none else return (← pieces? value, rest)

/-- What is said about the value by default at the beginning of a text, and what follows it. -/
def preset? (t : Text) : Option (Option (List Piece) × Text) :=
  match after? (Text.ofString "#REQUIRED") t, after? (Text.ofString "#IMPLIED") t,
    after? (Text.ofString "#FIXED") t with
  | some rest, _, _ => some (none, rest)
  | _, some rest, _ => some (none, rest)
  | _, _, some rest => do
    let (value, rest) ← attributeValue? (← afterSpace? rest)
    return (some value, rest)
  | _, _, _ => (attributeValue? t).map fun (value, rest) => (some value, rest)

/-- The declaration of an attribute at the beginning of a text, and what follows it. -/
def attributeDeclaration? (t : Text) : Option (AttributeDeclaration × Text) := do
  let (name, rest) ← label? t
  let (type, rest) ← attributeType? (← afterSpace? rest)
  let (preset, rest) ← preset? (← afterSpace? rest)
  return (⟨name, type, preset⟩, rest)

/-- The declarations of attributes up to the end of their list, and what follows it. White space
stands between one and the next. -/
def attributeDeclarations? (t : Text) : Option (List AttributeDeclaration × Text) :=
  match skipSpace t with
  | '>' :: rest => some ([], rest)
  | body =>
    if body.length = t.length then none
    else
      match attributeDeclaration? body with
      | none => none
      | some (first, rest) =>
        if rest.length < t.length then
          (attributeDeclarations? rest).map fun (others, following) => (first :: others, following)
        else none
termination_by t.length

/-! ## Declarations -/

/-- A declaration after its keyword, if that is one, and what follows it. -/
def keywordDeclaration? (t : Text) : Option (Option (TypeDeclaration × Text)) :=
  match after? (Text.ofString "ELEMENT") t, after? (Text.ofString "ATTLIST") t,
    after? (Text.ofString "NOTATION") t with
  | some rest, _, _ => some do
    let (name, rest) ← label? (← afterSpace? rest)
    let (content, rest) ← contentModel? (← afterSpace? rest)
    return (.element name content, ← after? ['>'] (skipSpace rest))
  | _, some rest, _ => some do
    let (element, rest) ← label? (← afterSpace? rest)
    let (attributes, rest) ← attributeDeclarations? rest
    return (.attributes element attributes, rest)
  | _, _, some rest => some do
    let (name, rest) ← label? (← afterSpace? rest)
    let (isExternal, rest) ← afterExternalId? true (← afterSpace? rest)
    let rest ← after? ['>'] (skipSpace rest)
    if isExternal then return (.format name, rest) else none
  | none, none, none => none

/-- The declaration at the beginning of a text, if there is one, and what follows it. The beginning
of a declaration without anything after it is passed over. -/
def typeDeclaration? (t : Text) : Option (Option TypeDeclaration × Text) :=
  match t with
  | '%' :: rest => do
    let (name, rest) ← label? rest
    return (some (.inclusion name), ← after? [';'] rest)
  | '<' :: '?' :: rest => (instruction? rest).map fun (r, rest) => (some (.remark r), rest)
  | '<' :: '!' :: '-' :: '-' :: rest =>
    (comment? rest).map fun (r, rest) => (some (.remark r), rest)
  | '<' :: '!' :: rest =>
    match keywordDeclaration? rest with
    | some declaration => declaration.map fun (declaration, rest) => (some declaration, rest)
    | none => some (none, rest)
  | _ => none

/-- The declarations up to the closing bracket, and what follows it. -/
def typeDeclarations? (t : Text) : Option (List TypeDeclaration × Text) :=
  match skipSpace t with
  | ']' :: rest => some ([], rest)
  | body =>
    match typeDeclaration? body with
    | none => none
    | some (first, rest) =>
      if rest.length < t.length then
        (typeDeclarations? rest).map fun (others, following) =>
          (first.toList ++ others, following)
      else none
termination_by t.length

/-- A document type declaration after its keyword, and what follows it. -/
def doctype? (t : Text) : Option (DoctypeDeclaration × Text) := do
  let (_, rest) ← label? (← afterSpace? t)
  let (isExternal, rest) ← afterExternalId? false (skipSpace rest)
  let (declarations, rest) ← match skipSpace rest with
    | '[' :: inside => typeDeclarations? inside
    | rest => some ([], rest)
  return (⟨isExternal, declarations⟩, ← after? ['>'] (skipSpace rest))

end Xml

end FormLetter
