import FormLetter.Document.Etree

/-!
# Files

Files belong to the system, which is a parameter: `FileService` is what merging asks of it, and
`FileService.Laws` is what is relied on.

* **Paths** are strings, brought to a normal form before the system sees them. What a path leads to
  is for the system to say.
* **Files** have an identity apart from their paths: several paths can lead to one file, be it by
  links or by other names of the same file.
* **Writing** takes two steps, and each can fail. Opening a file empties it, so a failure after that
  leaves the file without what was there before.
-/

namespace FormLetter

/-! ## Paths -/

namespace FilePath

/-- What stands between the slashes of a path, empty parts included. -/
def pieces (path : String) : List String := (Text.splitOn '/' path.toList).map String.ofList

/-- Whether a part leads to where one already is. -/
def isIdle (part : String) : Bool := part == "" || part == "."

/-- The parts of a path that lead anywhere. -/
def parts (path : String) : List String := (pieces path).filter (!isIdle ·)

/-- The slashes at the beginning of a path that does not start at the working directory; more than
two count as one. -/
def root (path : String) : String :=
  match path.toList with
  | '/' :: '/' :: '/' :: _ => "/"
  | '/' :: '/' :: _ => "//"
  | '/' :: _ => "/"
  | _ => ""

/-- The path with this root and these parts. -/
def ofParts (root : String) (parts : List String) : String :=
  if parts.isEmpty then if root.isEmpty then "." else root
  else root ++ String.ofList (Text.joinWith ['/'] (parts.map String.toList))

/-- The path without parts that mean nothing. -/
def normal (path : String) : String := ofParts (root path) (parts path)

/-- The path of the directory that holds this one. -/
def parent (path : String) : String := ofParts (root path) (parts path).dropLast

end FilePath

/-! ## The system -/

/-- What a system does with files that hold things of some type. -/
structure FileService (Content : Type) where
  /-- The state of all files. -/
  State : Type
  /-- What makes a file the same file under all its paths. -/
  File : Type
  /-- What a file holds. -/
  content? : State → File → Option Content
  /-- Whether a path leads to anything. -/
  exists? : State → String → Except ForeignError Bool
  /-- Whether a path leads to a file. -/
  isFile? : State → String → Except ForeignError Bool
  /-- Whether a path leads to a directory. -/
  isDirectory? : State → String → Except ForeignError Bool
  /-- The path that a path stands for once all links are followed. -/
  resolve : State → String → Except ForeignError String
  /-- The file that is opened for reading under a path. -/
  openToRead : State → String → Except ForeignError File
  /-- Reads all of a file. -/
  read : State → File → Except ForeignError Content
  /-- Opens a file for writing under a path, which makes it or empties it. -/
  openToWrite : State → String → Except ForeignError File × State
  /-- Writes to a file that is open, and closes it. -/
  write : State → File → Content → Except ForeignError Unit × State

namespace FileService

variable {Content : Type} (os : FileService Content)

/-- All files but one hold what they held. -/
def SameBut (file : os.File) (before after : os.State) : Prop :=
  ∀ other, other ≠ file → os.content? after other = os.content? before other

/-- All files hold what they held. -/
def Same (before after : os.State) : Prop :=
  ∀ file, os.content? after file = os.content? before file

/-- What is relied on about files: opening and writing concern the one file, a file that cannot be
opened is left alone, and what has been written is there. -/
structure Laws : Prop where
  refused : ∀ {before after path error}, os.openToWrite before path = (.error error, after) →
    os.Same before after
  opened : ∀ {before after path file}, os.openToWrite before path = (.ok file, after) →
    os.SameBut file before after
  apart : ∀ before file content, os.SameBut file before (os.write before file content).2
  written : ∀ {before after file content}, os.write before file content = (.ok (), after) →
    os.content? after file = some content

/-- No file has two names: what a path opens for writing is another file than what another path
opens, if the two resolve differently. Other names of one file, which no link leads to, break it. -/
def OneNameEach : Prop :=
  ∀ {state path path' target target' file file' after}, os.resolve state path = .ok target →
    os.resolve state path' = .ok target' → target ≠ target' →
      os.openToWrite state path = (.ok file, after) → os.openToRead state path' = .ok file' →
        file' ≠ file

end FileService

end FormLetter
