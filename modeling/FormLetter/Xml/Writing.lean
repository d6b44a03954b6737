import FormLetter.Text.Quoted
import FormLetter.Xml.Markup
import FormLetter.Xml.Uri

/-!
# From trees to text

Writing turns expanded names back into prefixes and puts the markup around the text.

* **Declarations.** An element declares what it was given, in order, except where the scope around
  it says the same already. A name takes the first declaration on its element that fits, else the
  nearest one in scope, where the prefixes of enclosing elements count like declarations of theirs;
  an attribute never takes the default namespace.
* **Made-up prefixes.** A namespace that nothing declares gets a prefix of its own, the customary
  one for a well-known namespace and a numbered one for all others. Numbers are used up in document
  order.
* **Faults.** Characters that no document may hold, and names that are none, are refused while a tree
  is built, so what is built can be written.
-/

namespace FormLetter

namespace Xml

/-- Why an element cannot be built. -/
inductive BuildError
  /-- A text holds a character that no document may hold. -/
  | unwritableText
  /-- A namespace is not closed. -/
  | openNamespace
  | emptyName
  | badElementName (localPart : Text)
  | badAttributeName (localPart : Text)
  | badNamespace (uri : Text)
  | badPrefix (qualifier : Text)
deriving DecidableEq, Repr

/-- The error in words. -/
def BuildError.message : BuildError → String
  | .unwritableText =>
    "All strings must be XML compatible: Unicode or ASCII, no NULL bytes or control characters"
  | .openNamespace => "Invalid tag name"
  | .emptyName => "Empty tag name"
  | .badElementName localPart => "Invalid tag name " ++ String.ofList localPart.quoted
  | .badAttributeName localPart => "Invalid attribute name " ++ String.ofList localPart.quoted
  | .badNamespace uri => "Invalid namespace URI " ++ String.ofList uri.quoted
  | .badPrefix qualifier => "Invalid namespace prefix " ++ String.ofList qualifier.quoted

/-- The namespace of an expanded name, empty if it has none, and its local part. -/
def splitName (name : String) : Except BuildError (Text × Text) :=
  let t := name.toList
  if !t.all isChar then .error .unwritableText
  else
    match t with
    | [] => .error .emptyName
    | '\x7b' :: rest =>
      match breakAt? ['\x7d'] rest with
      | none => .error .openNamespace
      | some (_, []) => .error .emptyName
      | some (uri, localPart) => .ok (uri, localPart)
    | _ => .ok ([], t)

/-! ## Prefixes -/

/-- The beginning of the names of namespaces for the common vocabularies. -/
def consortiumUri (path : String) : Text := Text.ofString ("http://www.w3.org/" ++ path)

/-- The customary prefixes of well-known namespaces. -/
def customaryPrefixes : List (Text × Text) :=
  [(consortiumUri "1999/xhtml", Text.ofString "html"),
   (consortiumUri "1999/XSL/Transform", Text.ofString "xsl"),
   (consortiumUri "1999/02/22-rdf-syntax-ns#", Text.ofString "rdf"),
   (Text.ofString ("http://schemas." ++ "xmlsoap.org/wsdl/"), Text.ofString "wsdl"),
   (consortiumUri "2001/XMLSchema", Text.ofString "xs"),
   (consortiumUri "2001/XMLSchema-instance", Text.ofString "xsi"),
   (Text.ofString "http://purl.org/dc/elements/1.1/", Text.ofString "dc")]

/-- What an enclosing element offers to the names inside it. -/
structure NamingFrame where
  declarations : Scope
  /-- Its own prefix with the namespace for which it stands. -/
  own : Option Text × Text
deriving Repr

/-- The prefixes that can be used at some point of the output. -/
structure Naming where
  /-- The declarations of the element that is being written, in order. -/
  here : Scope
  /-- The elements around it, from the inside out. -/
  outer : List NamingFrame
  /-- How many numbered prefixes have been used up. -/
  used : Nat
deriving Repr

namespace Naming

/-- All declarations, those of nearer elements first. -/
def scope (naming : Naming) : Scope := naming.here ++ naming.outer.flatMap (·.declarations)

/-- What a prefix means. -/
def meaning? (naming : Naming) (qualifier : Option Text) : Option Text :=
  if qualifier = some reservedQualifier then some reservedUri else naming.scope.lookup qualifier

/-- The first prefix among the candidates that stands for a namespace. Prefixes that nearer elements
declare for themselves are hidden. -/
def fitting? (uri : Text) (isAttribute : Bool) (hidden : List (Option Text)) (candidates : Scope) :
    Option (Option Text) :=
  let fits := fun (qualifier, meaning) =>
    meaning == uri && !hidden.contains qualifier && !(isAttribute && qualifier.isNone)
  (candidates.find? fits).map (·.1)

/-- The nearest prefix for a namespace among enclosing elements. -/
def nearest? (uri : Text) (isAttribute : Bool) (hidden : List (Option Text)) :
    List NamingFrame → Option (Option Text)
  | [] => none
  | frame :: rest =>
    (fitting? uri isAttribute hidden (frame.declarations ++ [frame.own])).or
      (nearest? uri isAttribute (hidden ++ frame.declarations.map (·.1)) rest)

/-- The numbered prefix of a number. -/
def numbered (n : Nat) : Text := 'n' :: 's' :: Text.ofNat n

/-- The next number whose prefix means nothing yet. There are fewer prefixes in use than candidates,
so one of them is free. -/
def nextFree (naming : Naming) : Nat :=
  let candidates := List.range' naming.used (naming.scope.length + 1)
  (candidates.find? fun n => (naming.meaning? (some (numbered n))).isNone).getD naming.used

/-- A prefix for a namespace that nothing in scope declares; it is declared on the element that is
being written. -/
def makeUp (naming : Naming) (uri : Text) : Text × Naming :=
  let customary := (customaryPrefixes.lookup uri).filter fun q =>
    (naming.meaning? (some q)).isNone
  match customary with
  | some q => (q, { naming with here := naming.here ++ [(some q, uri)] })
  | none =>
    let n := naming.nextFree
    (numbered n, { naming with here := naming.here ++ [(some (numbered n), uri)], used := n + 1 })

/-- The prefix for a name in this namespace, declared if need be. -/
def qualifierFor (naming : Naming) (uri : Text) (isAttribute : Bool) : Option Text × Naming :=
  if uri.isEmpty then (none, naming)
  else if uri = reservedUri then (some reservedQualifier, naming)
  else
    let inScope := (fitting? uri isAttribute [] naming.here).or
      (nearest? uri isAttribute (naming.here.map (·.1)) naming.outer)
    match inScope with
    | some qualifier => (qualifier, naming)
    | none =>
      let (q, next) := naming.makeUp uri
      (some q, next)

/-- The naming with one more declaration, unless the prefix has that meaning already. The reserved
prefix is never declared. -/
def declare (naming : Naming) (qualifier : Option Text) (uri : Text) : Naming :=
  if qualifier = some reservedQualifier || naming.meaning? qualifier = some uri then naming
  else { naming with here := naming.here ++ [(qualifier, uri)] }

/-- The prefix of an element with the given declarations: that of the first one for its namespace. A
wrong one for the reserved prefix leaves the element without any. -/
def elementQualifier (naming : Naming) (declarations : Scope) (uri : Text) :
    Option Text × Naming :=
  match declarations.find? fun (_, meaning) => !uri.isEmpty && meaning == uri with
  | some (qualifier, _) =>
    let isWrong := qualifier = some reservedQualifier && uri != reservedUri
    (if isWrong then none else qualifier, naming)
  | none => naming.qualifierFor uri false

end Naming

/-! ## Faults -/

/-- Refuses the name of a namespace that has not the form of one. -/
def checkUri (uri : Text) : Except BuildError Unit :=
  if !uri.all isChar then .error .unwritableText
  else if !isUriReference uri then .error (.badNamespace uri)
  else .ok ()

/-- Refuses a prefix that is no name. -/
def checkQualifier : Option Text → Except BuildError Unit
  | none => .ok ()
  | some q =>
    if !q.all isChar then .error .unwritableText
    else if !isName q then .error (.badPrefix q)
    else .ok ()

/-- Refuses declarations that cannot be made; the first of them decides. -/
def checkDeclarations : List Declaration → Except BuildError Unit
  | [] => .ok ()
  | d :: rest => do
    checkUri d.uri.toList
    checkQualifier (d.qualifier.map String.toList)
    checkDeclarations rest

/-- Refuses what cannot be an element. -/
def checkElement (name : String) (declarations : List Declaration) : Except BuildError Unit := do
  let (uri, localPart) ← splitName name
  if !isName localPart then throw (.badElementName localPart)
  checkDeclarations declarations
  checkUri uri

/-- Refuses what cannot be an attribute. -/
def checkAttribute (name value : String) : Except BuildError Unit := do
  let (_, localPart) ← splitName name
  if !isName localPart then throw (.badAttributeName localPart)
  if !value.toList.all isChar then throw .unwritableText

/-- Refuses a text that no document can hold. -/
def checkText (t : Text) : Except BuildError Unit :=
  if t.all isChar then .ok () else .error .unwritableText

/-- What a check refuses, as the error that is raised. -/
def faultOf? (check : Except BuildError Unit) : Option ForeignError :=
  match check with
  | .ok _ => none
  | .error error => some ⟨"ValueError", error.message⟩

/-! ## Elements -/

/-- The namespace and the local part of a name that has been checked. -/
def nameParts (name : String) : Text × Text :=
  match splitName name with
  | .ok parts => parts
  | .error _ => ([], name.toList)

/-- Gives attributes their prefixes, in order. -/
def nameAttributes (naming : Naming) : List (String × String) → List (QName × Text) × Naming
  | [] => ([], naming)
  | (name, value) :: rest =>
    let (uri, localPart) := nameParts name
    let (qualifier, next) := naming.qualifierFor uri true
    let (others, last) := nameAttributes next rest
    ((⟨qualifier, localPart⟩, value.toList) :: others, last)

/-- A start tag as it is written inside the given elements, what it offers to the names inside it,
and how many numbered prefixes are used up then. -/
def nameTag (outer : List NamingFrame) (used : Nat) (tag : StartTag) :
    WrittenTag × NamingFrame × Nat :=
  let (uri, localPart) := nameParts tag.name
  let declarations := tag.declarations.map fun d => (d.qualifier.map String.toList, d.uri.toList)
  let declared := declarations.foldl (fun naming (qualifier, uri) => naming.declare qualifier uri)
    (⟨[], outer, used⟩ : Naming)
  let (qualifier, named) := declared.elementQualifier declarations uri
  let (attributes, complete) := nameAttributes named tag.attributes
  (⟨⟨qualifier, localPart⟩, complete.here, attributes⟩, ⟨complete.here, qualifier, uri⟩,
    complete.used)

/-- The text of a slot as markup. -/
def slotMarkup (slot : Option Text) : List Markup := (slot.map Markup.text).toList

mutual

/-- The markup of a branch inside the given elements, when some numbered prefixes have been used up;
the number is how many there are afterwards. -/
def toMarkup (outer : List NamingFrame) (used : Nat) : Branch → List Markup × Nat
  | .element tag text children tail =>
    let (written, frame, used) := nameTag outer used tag
    let (inside, used) := toMarkups (frame :: outer) used children
    (.element written (slotMarkup text ++ inside) :: slotMarkup tail, used)
  | .remark tail => (slotMarkup tail, used)

/-- The markup of several branches. -/
def toMarkups (outer : List NamingFrame) (used : Nat) : List Branch → List Markup × Nat
  | [] => ([], used)
  | branch :: rest =>
    let (first, used) := toMarkup outer used branch
    let (others, used) := toMarkups outer used rest
    (first ++ others, used)

end

/-- The document with this root element. -/
def write (root : Etree) : Text :=
  let (written, frame, used) := nameTag [] 0 root.tag
  let (inside, _) := toMarkups [frame] used root.children
  (Markup.element written (slotMarkup root.text ++ inside)).document

end Xml

end FormLetter
