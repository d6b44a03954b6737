import FormLetter.Merge.Bounded
import FormLetter.Merge.Inspection
import FormLetter.Package.Basic
import FormLetter.Text.Quoted

/-!
# Templates

A template is an archive that has been opened: its templated parts are read and their runs joined
once and for all, so that it can be merged any number of times.

* **Opening** fails if the archive is no package, if a part cannot be read, or if there is no body.
* **Merging** a template merges its parts in the order of the package; the first part that fails
  decides. Only when all of them are merged is the archive opened again, and the merged trees are
  set in it, so there is a whole new archive or none.
-/

namespace FormLetter

/-- A template. -/
structure Template (Archive : Type) where
  source : Archive
  /-- The templated parts in the order of the package, with their runs joined. -/
  trees : List (String × Node)
deriving DecidableEq

namespace Template

variable (lib : Libraries)

/-- Opens an archive. -/
def openPackage (source : lib.Archive) : Except Raised lib.OpenPackage :=
  (lib.packages.openArchive source).mapError OpenFault.raised

/-- Reads the templated parts among the given ones and adds them to the trees. -/
def readParts (trees : List (String × Node)) :
    List lib.OpenPart → Except Raised (List (String × Node))
  | [] => .ok trees
  | part :: rest =>
    if PartName.isTemplated part.name then do
      let tree ← lib.xml.parse (lib.blob part.content) (some part.name)
      readParts (putEntry part.name (joinRuns tree) trees) rest
    else readParts trees rest

/-- Opens an archive as a template. -/
def ofArchive (source : lib.Archive) : Except Raised (Template lib.Archive) := do
  let package ← openPackage lib source
  let trees ← readParts lib [] package.parts
  if (trees.lookup PartName.document).isNone then
    let problem := "Template has no " ++ PartName.document ++ " part"
    throw (.own ((Cause.missingPart problem).inPart none))
  return ⟨source, trees⟩

section

variable {Archive : Type}

/-- The names of the templated parts, in the order of the package. -/
def partNames (template : Template Archive) : List String := template.trees.map (·.1)

/-- Merges the tree of a part. -/
def renderNamed (data : Value) (name : String) (tree : Node) : Except RenderError Node :=
  if PartName.isProperty name then boundedProperties tree data (some name)
  else boundedRender tree data (some name)

/-- Merges one templated part. -/
def renderPart (template : Template Archive) (name : String) (data : Value) :
    Except Raised Node :=
  match template.trees.lookup name with
  | none => .error (.foreign ⟨"KeyError", String.ofList (Text.quoted name.toList)⟩)
  | some tree => (renderNamed data name tree).mapError .own

/-- Merges the given parts, in order; the first failure decides. -/
def renderParts (data : Value) (trees : List (String × Node)) :
    Except RenderError (List (String × Node)) :=
  trees.mapM fun (name, tree) => (renderNamed data name tree).map (name, ·)

/-- What the template asks for. -/
def inspect (template : Template Archive) : Report :=
  Report.combine (template.trees.map fun (name, tree) => inspectTree tree (PartName.location name))

end

/-- What is kept of a part once a merged tree is set in it. -/
def setContent (tree : Node) (content : lib.OpenContent) :
    Except ForeignError lib.OpenContent := do
  let bytes ← lib.xml.serialize tree
  match content with
  | .element _ => return .element (← lib.packages.readElement bytes)
  | .bytes _ => return .bytes bytes

/-- A part of the package once the merged trees are set. -/
def setPart (merged : List (String × Node)) (part : lib.OpenPart) :
    Except ForeignError lib.OpenPart :=
  match merged.lookup part.name with
  | none => .ok part
  | some tree => (setContent lib tree part.content).map fun content => { part with content }

/-- Merges all templated parts into a new archive. -/
def render (template : Template lib.Archive) (data : Value) : Except Raised lib.Archive := do
  let merged ← (renderParts data template.trees).mapError .own
  let package ← openPackage lib template.source
  let parts ← (package.parts.mapM (setPart lib merged)).mapError .foreign
  (lib.packages.save { package with parts }).mapError .foreign

end Template

end FormLetter
