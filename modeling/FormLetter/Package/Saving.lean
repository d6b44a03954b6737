import FormLetter.Package.Files
import FormLetter.Package.Template

/-!
# Merging files

The operations that a user calls: merging a template file into an output file, saving a merged
template, and inspecting a template file.

* **Effects.** An operation goes on from one state of the files to the next and keeps the state it
  has reached when it fails. So that a failure leaves everything as it was is a property of its
  steps and their order, not of its type.
* **Order.** Paths are checked before anything is opened: the template must be a file, the output
  must go to an existing directory and to another file than the template. The whole archive is there
  before the output is opened.
-/

namespace FormLetter

/-- An error about a path that a user gave. -/
def unusablePath (problem : String) : Raised := .own ((Cause.unusable problem).inPart none)

/-- An operation that changes the state of the files and can fail on the way. -/
abbrev Operation (State α : Type) := ExceptT Raised (StateM State) α

namespace Operation

variable {State α : Type}

/-- The outcome of an operation and the state that it leaves behind. -/
def outcome (operation : Operation State α) (state : State) : Except Raised α × State :=
  operation.run.run state

/-- A step of other code as an operation. -/
def ofStep (step : State → Except ForeignError α × State) : Operation State α := do
  let (result, next) := step (← get)
  set next
  ofExcept (result.mapError .foreign)

end Operation

/-- What a merge is written to. -/
inductive Output (Content State : Type)
  | file (path : String)
  /-- An object that the user gave, by what it does when something is written to it. -/
  | stream (write : Content → State → Except ForeignError Unit × State)

section

variable (lib : Libraries) (os : FileService lib.Archive)

/-- Writes an archive. -/
def deliver (archive : lib.Archive) : Output lib.Archive os.State → Operation os.State Unit
  | .file path => do
    let file ← .ofStep (os.openToWrite · path)
    .ofStep (os.write · file archive)
  | .stream write => .ofStep (write archive)

/-- Merges a template and writes the result. -/
def Template.save (template : Template lib.Archive) (data : Value)
    (output : Output lib.Archive os.State) : Operation os.State Unit := do
  let archive ← ofExcept (template.render lib data)
  deliver lib os archive output

/-! ## Templates in files -/

/-- Opens the template in a file. -/
def openFile (state : os.State) (path : String) : Except Raised (Template lib.Archive) := do
  let file ← (os.openToRead state path).mapError .foreign
  let source ← (os.read state file).mapError .foreign
  Template.ofArchive lib source

/-- Checks that a path leads to a file, and brings it to its normal form. -/
def checkTemplatePath (state : os.State) (path : String) : Except Raised String := do
  let normal := FilePath.normal path
  if !(← (os.exists? state normal).mapError .foreign) then
    throw (unusablePath ("Template file not found: " ++ normal))
  if !(← (os.isFile? state normal).mapError .foreign) then
    throw (unusablePath ("Template path is not a file: " ++ normal))
  return normal

/-- Checks that a path can take what is merged from a template, and brings it to its normal form. -/
def checkOutputPath (state : os.State) (template path : String) : Except Raised String := do
  let normal := FilePath.normal path
  let directory := FilePath.parent normal
  if !(← (os.isDirectory? state directory).mapError .foreign) then
    throw (unusablePath ("Output directory does not exist: " ++ directory))
  let target ← (os.resolve state normal).mapError .foreign
  let source ← (os.resolve state template).mapError .foreign
  if target = source then
    throw (unusablePath "Output path must differ from the template path")
  return normal

/-- Checks both paths and opens the template in the first; with it comes the second path. -/
def openChecked (state : os.State) (template output : String) :
    Except Raised (Template lib.Archive × String) := do
  let template ← checkTemplatePath lib os state template
  let output ← checkOutputPath lib os state template output
  let opened ← openFile lib os state template
  return (opened, output)

/-- Merges the template in one file with data and writes the result to another. -/
def renderFile (template : String) (data : Value) (output : String) : Operation os.State Unit := do
  let (opened, path) ← ofExcept (openChecked lib os (← get) template output)
  opened.save lib os data (.file path)

/-- What the template in a file asks for. -/
def inspectFile (state : os.State) (path : String) : Except Raised Report := do
  let path ← checkTemplatePath lib os state path
  let opened ← openFile lib os state path
  return opened.inspect

end

end FormLetter
