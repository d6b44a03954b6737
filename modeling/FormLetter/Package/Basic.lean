import FormLetter.Document.Etree
import FormLetter.Package.PartName

/-!
# Document packages

A document file is an archive of named parts. A library for packages opens it, hands out its parts
and saves it again; it is a parameter, like the library for markup.

* **Parts.** The library visits parts in an order of its own, which depends on how they refer to each
  other. A part is kept as an element if the library has read it on opening, and as bytes if not.
* **Opening** an archive twice gives the same package: what an archive opens to is a function of it.
* **Saving** writes the parts as they have been set. `SavesAsSet` says so of one package, and a
  statement about what is in a file once it is saved relies on it.
-/

namespace FormLetter

/-- What the library keeps of a part. -/
inductive PartContent (Element : Type)
  /-- An element that has been read. -/
  | element (e : Element)
  | bytes (content : ByteArray)

instance {Element : Type} [DecidableEq Element] : DecidableEq (PartContent Element)
  | .element a, .element b => decidable_of_iff (a = b) (by simp)
  | .bytes a, .bytes b => decidable_of_iff (a.data = b.data) (by simp [ByteArray.ext_iff])
  | .element _, .bytes _ => .isFalse nofun
  | .bytes _, .element _ => .isFalse nofun

/-- A part of an opened package. -/
structure Part (Element : Type) where
  path : String
  content : PartContent Element
deriving DecidableEq

/-- An opened package: its parts in the order in which the library visits them, and all else. -/
structure Package (Element Rest : Type) where
  parts : List (Part Element)
  rest : Rest
deriving DecidableEq

/-- Why an archive cannot be opened. -/
inductive OpenFault
  /-- It is no package. -/
  | noPackage (detail : String)
  /-- A part that is read on opening is not well-formed. -/
  | malformed (detail : String)
  /-- There is no part in the place of the body, or it is none. -/
  | noDocument (detail : String)
  | other (error : ForeignError)
deriving DecidableEq, Repr

/-- A library that opens and saves packages. -/
structure PackageLibrary where
  /-- What a file holds. -/
  Archive : Type
  Element : Type
  Rest : Type
  /-- Opens an archive. -/
  openArchive : Archive → Except OpenFault (Package Element Rest)
  /-- The bytes of an element. -/
  blob : Element → ByteArray
  /-- Reads an element. -/
  readElement : ByteArray → Except ForeignError Element
  /-- Saves a package. -/
  save : Package Element Rest → Except ForeignError Archive

/-- The libraries that merging works with. -/
structure Libraries where
  xml : XmlLibrary
  packages : PackageLibrary

namespace Libraries

/-- What a file holds. -/
abbrev Archive (lib : Libraries) : Type := lib.packages.Archive

/-- A package as it has been opened. -/
abbrev OpenPackage (lib : Libraries) : Type := Package lib.packages.Element lib.packages.Rest

/-- A part of such a package. -/
abbrev OpenPart (lib : Libraries) : Type := Part lib.packages.Element

/-- What is kept of such a part. -/
abbrev OpenContent (lib : Libraries) : Type := PartContent lib.packages.Element

/-- A saved package has the parts that were set, in whatever order they are visited then. -/
def SavesAsSet (lib : Libraries) (package : lib.OpenPackage) : Prop :=
  ∀ archive, lib.packages.save package = .ok archive →
    ∃ again, lib.packages.openArchive archive = .ok again ∧ again.parts.Perm package.parts

/-- The bytes of what is kept of a part. -/
def blob (lib : Libraries) : lib.OpenContent → ByteArray
  | .element e => lib.packages.blob e
  | .bytes content => content

end Libraries

/-- The name of a part: its path without slashes at the beginning. -/
def Part.name {Element : Type} (part : Part Element) : String :=
  String.ofList (part.path.toList.dropWhile (· == '/'))

/-- The error that is raised when an archive cannot be opened. -/
def OpenFault.raised : OpenFault → Raised
  | .noPackage detail =>
    .own ((Cause.unusable ("Not a valid .docx package: " ++ detail)).inPart none)
  | .malformed detail => .own ((Cause.malformed detail).inPart none)
  | .noDocument detail =>
    .own ((Cause.missingPart ("Template has no Word document part: " ++ detail)).inPart none)
  | .other error => .foreign error

end FormLetter
