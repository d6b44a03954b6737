import FormLetter.Package.Basic
import FormLetter.Xml.Library

/-!
# Packages to run merges with

Statements about merging hold for every library for packages. To run merges, one is needed, and a
package need be no more for that than a list of its parts: `Listing.library` opens and saves such
lists in the manner of the common library.

* **Roles.** The relation through which a part is reached decides whether it is read on opening. The
  body is visited first, then the parts that it refers to, as listed, then the properties.
* **Layout.** Parts that are read on opening lose blanks that only lay out their markup and all that
  stands outside their root element.
-/

namespace FormLetter

namespace Listing

open Xml (Markup)

/-- How a part belongs to its package. -/
inductive Role
  /-- The body of a document. -/
  | main
  /-- A part in the place of the body that is none. -/
  | foreignMain
  | header | footer | footnotes | endnotes | other | core | app
deriving DecidableEq, Repr

/-- Whether parts of this role are read when the package is opened. -/
def Role.isRead : Role → Bool
  | .main | .header | .footer | .core => true
  | _ => false

/-- Whether parts of this role are reached through the body. -/
def Role.isInner : Role → Bool
  | .header | .footer | .footnotes | .endnotes | .other => true
  | _ => false

/-- A part as it is listed. -/
structure Entry where
  name : String
  role : Role
  content : ByteArray

instance : DecidableEq Entry := fun a b =>
  decidable_of_iff (a.name = b.name ∧ a.role = b.role ∧ a.content.data = b.content.data) <| by
    obtain ⟨_, _, ⟨_⟩⟩ := a
    obtain ⟨_, _, ⟨_⟩⟩ := b
    simp

/-- What a file holds. -/
inductive Archive
  /-- A package: its parts as they are listed in the file. -/
  | package (entries : List Entry)
  /-- Anything else. -/
  | unreadable
deriving DecidableEq

/-! ## Opening -/

/-- The parts of one role, as listed. -/
def ofRole (entries : List Entry) (role : Role) : List Entry := entries.filter (·.role == role)

/-- The parts that can be reached, in the order of opening. -/
def visited (entries : List Entry) : List Entry :=
  let main := ofRole entries .main ++ ofRole entries .foreignMain
  (if main.isEmpty then [] else main ++ entries.filter (·.role.isInner))
    ++ ofRole entries .core ++ ofRole entries .app

/-- What is kept of a part, if it can be read where that is asked for. -/
def content? (entry : Entry) : Option (PartContent Markup) :=
  if entry.role.isRead then (Xml.markup? [] true entry.content).map .element
  else some (.bytes entry.content)

/-- An opened part. -/
def openEntry (entry : Entry) : Except OpenFault (Part Markup) :=
  match content? entry with
  | some content => .ok ⟨"/" ++ entry.name, content⟩
  | none => .error (.malformed "")

/-- Opens a file. -/
def openArchive : Archive → Except OpenFault (Package Markup (List Entry))
  | .unreadable => .error (.noPackage "")
  | .package entries => do
    let parts ← (visited entries).mapM openEntry
    if (ofRole entries .main).length != 1 || !(ofRole entries .foreignMain).isEmpty then
      throw (.noDocument "")
    return ⟨parts, entries⟩

/-! ## Saving -/

/-- The bytes of an element. -/
def blob (markup : Markup) : ByteArray := (String.ofList markup.document).toUTF8

/-- The bytes of what is kept of a part. -/
def stored : PartContent Markup → ByteArray
  | .element markup => blob markup
  | .bytes content => content

/-- Reads an element. -/
def readElement (bytes : ByteArray) : Except ForeignError Markup :=
  match Xml.markup? [] true bytes with
  | some markup => .ok markup
  | none => .error ⟨"XMLSyntaxError", ""⟩

/-- Saves a package: every part that can be reached is written as it is kept. -/
def save (package : Package Markup (List Entry)) : Archive :=
  .package <| package.rest.map fun entry =>
    match package.parts.find? (·.name == entry.name) with
    | some part => { entry with content := stored part.content }
    | none => entry

/-- A library for packages. -/
abbrev library : PackageLibrary where
  Archive := Archive
  Element := Markup
  Rest := List Entry
  openArchive := openArchive
  blob := blob
  readElement := readElement
  save package := .ok (save package)

/-- Libraries to run merges with. -/
abbrev libraries : Libraries := ⟨Xml.library, library⟩

end Listing

end FormLetter
