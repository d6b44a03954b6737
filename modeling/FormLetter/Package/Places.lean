import FormLetter.Package.Files
import FormLetter.Text.Quoted

/-!
# Files to run merges with

Statements about merging hold for every system. To run merges, one is needed: `FileSystem.service` is
a plain tree of directories and files, as a value.

* **Paths** start at the working directory. A path is followed part by part, and every part but the
  last must be a directory; a slash at the end asks for a directory as well. Of what lies outside
  the working directory only the directories around it are known.
* **One place each.** There are no links, so a file has one place, and what has been opened takes any
  content.
* **Names** hold no null character, which cannot even be looked up. Neither names nor paths are
  longer than a limit.
-/

namespace FormLetter

/-- What can stand under a name. -/
inductive Entry (Content : Type)
  | directory
  | file (content : Content)
deriving DecidableEq

/-- Whether this is a directory. -/
def Entry.isDirectory {Content : Type} : Entry Content → Bool
  | .directory => true
  | .file _ => false

/-- A place among the files: the names that lead to it. -/
abbrev FilePlace := List String

/-- The state of all files: the entry of each place. The working directory has no names. -/
structure FileSystem (Content : Type) where
  entries : List (FilePlace × Entry Content)
deriving DecidableEq

/-- Why a path cannot be used. -/
inductive PathFault
  | notFound (path : String)
  | notDirectory (path : String)
  | isDirectory (path : String)
  /-- The path or a name in it is beyond its limit. -/
  | tooLong (path : String)
  /-- A null character in a path. -/
  | nullInPath
deriving DecidableEq, Repr

/-- A path in quotes. -/
def quotedPath (path : String) : String := String.ofList (Text.quoted path.toList)

/-- The error that is raised over a fault. -/
def PathFault.error : PathFault → ForeignError
  | .notFound path =>
    ⟨"FileNotFoundError", "[Errno 2] No such file or directory: " ++ quotedPath path⟩
  | .notDirectory path => ⟨"NotADirectoryError", "[Errno 20] Not a directory: " ++ quotedPath path⟩
  | .isDirectory path => ⟨"IsADirectoryError", "[Errno 21] Is a directory: " ++ quotedPath path⟩
  | .tooLong path => ⟨"OSError", "[Errno 36] File name too long: " ++ quotedPath path⟩
  | .nullInPath => ⟨"ValueError", "embedded null byte"⟩

/-! ## Paths -/

namespace FilePath

/-- Whether a path holds a null character. -/
def hasNull (path : String) : Bool := path.toList.contains '\x00'

/-- The most bytes that a name in a path can have. -/
def maxNameSize : Nat := 255

/-- The most bytes that a path can have. -/
def maxPathSize : Nat := 4095

/-- The place that holds all others. -/
def topPlace : FilePlace := ["/"]

/-- The place where a path starts. -/
def start (path : String) : FilePlace := if (root path).isEmpty then [] else topPlace

/-- The place to which a part leads. A part for the parent takes back the name before it, and leads
out of the working directory if there is none. -/
def follow (place : FilePlace) (part : String) : FilePlace :=
  if isIdle part then place
  else if part = ".." then
    if place = topPlace then place
    else if place.all (· == "..") then place ++ [".."]
    else place.dropLast
  else place ++ [part]

/-- The place that a path leads to, whether its parts exist or not. -/
def place (path : String) : FilePlace := (pieces path).foldl follow (start path)

end FilePath

namespace FileSystem

variable {Content : Type}

/-- The entry at a place. -/
def entryAt? (files : FileSystem Content) (place : FilePlace) : Option (Entry Content) :=
  if place.all (· == "..") || place = FilePath.topPlace then some .directory
  else files.entries.lookup place

/-- Follows parts from a place; `path` is the whole path, for reports. -/
def walkFrom (files : FileSystem Content) (path : String) (place : FilePlace) :
    List String → Except PathFault (FilePlace × Entry Content)
  | [] =>
    match files.entryAt? place with
    | some entry => .ok (place, entry)
    | none => .error (.notFound path)
  | part :: rest =>
    match files.entryAt? place with
    | some .directory =>
      if FilePath.maxNameSize < part.utf8ByteSize then .error (.tooLong path)
      else files.walkFrom path (FilePath.follow place part) rest
    | some (.file _) => .error (.notDirectory path)
    | none => .error (.notFound path)

/-- The place and the entry that a path leads to. The empty path leads nowhere. -/
def walk (files : FileSystem Content) (path : String) :
    Except PathFault (FilePlace × Entry Content) :=
  if FilePath.hasNull path then .error .nullInPath
  else if FilePath.maxPathSize < path.utf8ByteSize then .error (.tooLong path)
  else if path.isEmpty then .error (.notFound path)
  else files.walkFrom path (FilePath.start path) (FilePath.pieces path)

/-- Whether a path leads to an entry of some kind. Only a path that is too long cannot be asked
about. -/
def probe (files : FileSystem Content) (path : String) (kind : Entry Content → Bool) :
    Except PathFault Bool :=
  match files.walk path with
  | .ok (_, entry) => .ok (kind entry)
  | .error (.tooLong path) => .error (.tooLong path)
  | .error _ => .ok false

/-- The place of the file that a path leads to. -/
def fileAt (files : FileSystem Content) (path : String) : Except PathFault FilePlace := do
  match ← files.walk path with
  | (place, .file _) => return place
  | (_, .directory) => throw (.isDirectory path)

/-- The content of a file. -/
def content? (files : FileSystem Content) (place : FilePlace) : Option Content :=
  match files.entries.lookup place with
  | some (.file content) => some content
  | _ => none

/-- The entries with a file stored at a place. -/
def store (place : FilePlace) (content : Content) :
    List (FilePlace × Entry Content) → List (FilePlace × Entry Content)
  | [] => [(place, .file content)]
  | (p, entry) :: rest =>
    if p = place then (place, .file content) :: rest else (p, entry) :: store place content rest

/-- The files with one of them replaced or added. -/
def put (files : FileSystem Content) (place : FilePlace) (content : Content) :
    FileSystem Content :=
  ⟨store place content files.entries⟩

/-- The place of the file with this name in a directory; `path` is the whole path. It must not stand
for a directory, be it only by a slash at its end. -/
def fileIn (files : FileSystem Content) (path : String) (directory : FilePlace) (name : String) :
    Except PathFault FilePlace :=
  if path.toList.getLast? = some '/' || FilePath.isIdle name || name = ".." then
    .error (.isDirectory path)
  else if FilePath.maxNameSize < name.utf8ByteSize then .error (.tooLong path)
  else
    match files.entryAt? (directory ++ [name]) with
    | some .directory => .error (.isDirectory path)
    | _ => .ok (directory ++ [name])

/-- The place of the file that is opened for writing under a path. The last part of the path is its
name. -/
def writable (files : FileSystem Content) (path : String) : Except PathFault FilePlace :=
  if FilePath.hasNull path then .error .nullInPath
  else if FilePath.maxPathSize < path.utf8ByteSize then .error (.tooLong path)
  else if path.isEmpty then .error (.notFound path)
  else
    match (FilePath.pieces path).reverse.dropWhile (· == "") with
    | [] => .error (.isDirectory path)
    | name :: before => do
      match ← files.walkFrom path (FilePath.start path) before.reverse with
      | (_, .file _) => throw (.notDirectory path)
      | (directory, .directory) => files.fileIn path directory name

/-- The place to which a path resolves, as a path. -/
def resolve (path : String) : Except ForeignError String :=
  if FilePath.hasNull path then .error ⟨"ValueError", "lstat: embedded null character in path"⟩
  else .ok (FilePath.ofParts "" (FilePath.place path))

/-- Opens a file for writing, which makes it hold nothing. -/
def openToWrite (nothing : Content) (files : FileSystem Content) (path : String) :
    Except ForeignError FilePlace × FileSystem Content :=
  match files.writable path with
  | .ok place => (.ok place, files.put place nothing)
  | .error fault => (.error fault.error, files)

/-- A system of files; `nothing` is what an empty one holds. -/
abbrev service (nothing : Content) : FileService Content where
  State := FileSystem Content
  File := FilePlace
  content? := content?
  exists? files path := (files.probe path fun _ => true).mapError PathFault.error
  isFile? files path := (files.probe path (!·.isDirectory)).mapError PathFault.error
  isDirectory? files path := (files.probe path (·.isDirectory)).mapError PathFault.error
  resolve _ path := resolve path
  openToRead files path := (files.fileAt path).mapError PathFault.error
  read files place :=
    match files.content? place with
    | some content => .ok content
    | none => .error (PathFault.notFound (FilePath.ofParts "" place)).error
  openToWrite := openToWrite nothing
  write files place content := (.ok (), files.put place content)

end FileSystem

end FormLetter
