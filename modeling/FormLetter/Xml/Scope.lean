import FormLetter.Xml.Item
import FormLetter.Xml.Uri
import FormLetter.Xml.Vocabulary

/-!
# Namespaces in scope

A prefix means what the nearest enclosing element declares for it. A start tag first declares its
prefixes and is then read in the scope that results, so its own name may use them.

* **Elements and attributes differ.** A name without a prefix is in the default namespace if it
  names an element, and in none if it names an attribute.
* **Reserved names.** One prefix is bound from the start and cannot mean anything else; the word
  that introduces declarations is no prefix at all. What declares them otherwise is a fault and
  declares nothing.
* **Faulty names stay.** A label that is no name with a prefix, or whose prefix means nothing, is
  noticed and kept as it is.
-/

namespace FormLetter

namespace Xml

/-- The namespace of declarations themselves. -/
def declarationUri : Text := "http://www.w3.org/2000/xmlns/".toList

/-- The name in a label; a label without the form of one counts as a whole. -/
def QName.ofLabel (label : Text) : Judged QName :=
  match QName.ofLabel? label with
  | some name => pure name
  | none => do
    blame
    return ⟨none, label⟩

/-- The parts of the label of an attribute with a value by default, which are not examined. -/
def QName.ofPresetLabel (label : Text) : QName :=
  match breakAt? [':'] label with
  | some (c :: qualifier, d :: localPart) => ⟨some (c :: qualifier), d :: localPart⟩
  | _ => ⟨none, label⟩

/-- The prefix that an attribute declares: none for the default namespace. -/
def QName.declaredQualifier? (name : QName) : Option (Option Text) :=
  match name.qualifier with
  | none => if name.localPart = declarationWord then some none else none
  | some qualifier => if qualifier = declarationWord then some (some name.localPart) else none

/-- The attribute that says whether blanks count. -/
def spaceName : QName := ⟨some reservedQualifier, Text.ofString "space"⟩

/-- The attribute that identifies an element. -/
def identityQName : QName := ⟨some reservedQualifier, Text.ofString "id"⟩

/-- The meanings of the attribute for blanks. -/
def spaceValues : List Text := ["default", "preserve"].map Text.ofString

/-- Notices about the meaning that a prefix is declared to have, and whether it gets it. -/
def judgeDeclaration (qualifier : Option Text) (uri : Text) : Judged Bool :=
  match qualifier with
  | none =>
    if uri.isEmpty then pure true
    else do
      warnIf (isUriReference uri && !isAbsoluteUri uri)
      let isTaken := uri == reservedUri || uri == declarationUri
      blameIf (isTaken || !isUriReference uri)
      return !isTaken
  | some q =>
    if q = reservedQualifier then do
      blameIf (uri != reservedUri)
      return false
    else do
      let isTaken := q == declarationWord || uri == reservedUri || uri == declarationUri
      let isUseless := isTaken || uri.isEmpty
      blameIf (isUseless || !isUriReference uri)
      return !isUseless

/-- Takes an attribute into a start tag that is being read. It may be a declaration; a prefix can be
declared only once. -/
def WrittenTag.add (tag : WrittenTag) (name : QName) (value : Text) : Judged WrittenTag := do
  warnIf (name = spaceName && !spaceValues.contains value)
  match name.declaredQualifier? with
  | none => return { tag with attributes := tag.attributes ++ [(name, value)] }
  | some qualifier =>
    if ← judgeDeclaration qualifier value then
      if tag.declarations.any (·.1 == qualifier) then refuse
      return { tag with declarations := tag.declarations ++ [(qualifier, value)] }
    else return tag

/-- The start tag with one more declaration, unless it declares the prefix already. -/
def WrittenTag.preset (tag : WrittenTag) (qualifier : Option Text) (uri : Text) : WrittenTag :=
  if tag.declarations.any (·.1 == qualifier) then tag
  else { tag with declarations := tag.declarations ++ [(qualifier, uri)] }

/-- What tells attributes of one element apart: the namespace and the local part. -/
def Scope.identity (scope : Scope) (name : QName) : Text × Text :=
  let uri := if name.qualifier.isNone then none else scope.meaning? name.qualifier
  (uri.getD [], name.localPart)

/-- Whether some member of a list occurs in it twice. -/
def hasRepetition {α : Type} [BEq α] (members : List α) : Bool :=
  members.eraseDups.length < members.length

/-- Notices about the names of a start tag in the scope inside it. `presets` are the names of the
attributes that have values by default, whether the tag has them or not. An attribute that is
written twice is an error; two attributes that only turn out to be the same are a fault. -/
def Scope.judge (inner : Scope) (tag : WrittenTag) (presets : List QName) : Judged Unit := do
  let names := tag.attributes.map (·.1)
  if hasRepetition names then refuse
  let all := names ++ presets.filter (!names.contains ·)
  blameIf (all.any inner.isUnbound)
  blameIf (hasRepetition (all.map inner.identity))
  blameIf (inner.isUnbound tag.name)

/-- A start tag read in the scope around it. -/
def Vocabulary.tag (vocabulary : Vocabulary) (outer : Scope) (raw : RawTag) :
    Judged WrittenTag := do
  let name ← QName.ofLabel raw.label
  let read ← raw.attributes.foldlM
    (fun (tag : WrittenTag) (label, pieces) => do
      let name ← QName.ofLabel label
      tag.add name (← vocabulary.value raw.label label pieces))
    ⟨name, [], []⟩
  let presets := (vocabulary.presets raw.label).map fun (label, value) =>
    (QName.ofPresetLabel label, value)
  let tag := presets.foldl
    (fun (tag : WrittenTag) (name, value) =>
      match name.declaredQualifier? with
      | some qualifier => tag.preset qualifier value
      | none => tag)
    read
  let others := (presets.map (·.1)).filter (·.declaredQualifier?.isNone)
  (tag.declarations ++ outer).judge tag others
  return tag

/-- The values that identify elements, with those of one more element. They must be names, and no
two elements may have the same; an empty value identifies nothing. -/
def Vocabulary.identities (vocabulary : Vocabulary) (label : Text) (tag : WrittenTag)
    (known : List Text) : Judged (List Text) :=
  tag.attributes.foldlM
    (fun known (name, value) => do
      let isReserved := name = identityQName
      let isDeclared := vocabulary.typeOf label name.text = .identity
      if (isReserved || isDeclared) && !value.isEmpty then
        blameIf (isReserved && !isName (trimSpace value))
        blameIf (known.contains value)
        return value :: known
      else return known)
    known

end Xml

end FormLetter
