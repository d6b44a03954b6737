import FormLetter.Xml.Charset

/-!
# From bytes to characters

A document is encoded as its declaration says, and in UTF-8 without a declared encoding. The
declaration itself is plain ASCII, so it can be read before the encoding is known; a byte order mark
settles the encoding by itself.
-/

namespace FormLetter

namespace Xml

/-- What a document declares about itself at its very beginning. -/
structure Prologue where
  version : Text
  encoding : Option Text
  /-- Whether nothing outside the document declares anything for it. -/
  isStandalone : Bool
deriving DecidableEq, Repr

/-- The version of the language itself. -/
def firstVersion : Text := Text.ofString "1.0"

/-- What a document without a declaration declares. -/
def Prologue.empty : Prologue := ⟨firstVersion, none, false⟩

/-- A pseudo-attribute of the declaration, and what follows it. -/
def declared? (name : String) (t : Text) : Option (Text × Text) := do
  let rest ← after? name.toList t
  let rest ← equals? rest
  quoted? rest

/-- A version number that can be read: the first major version. -/
def isVersion : Text → Bool
  | '1' :: '.' :: minor => minor.all Char.isDigit
  | _ => false

/-- The name of an encoding. -/
def isEncodingName : Text → Bool
  | [] => false
  | c :: rest => c.isAlpha && rest.all fun d => d.isAlphanum || d == '.' || d == '_' || d == '-'

/-- The end of the declaration, perhaps after white space. -/
def prologueEnd? (t : Text) : Option Text := after? ['?', '>'] (skipSpace t)

/-- The answer of a standalone declaration, no without one, and what follows it. -/
def standalone? (t : Text) : Option (Bool × Text) :=
  match (afterSpace? t).bind (declared? "standalone") with
  | some (answer, rest) =>
    if answer = Text.ofString "yes" then some (true, rest)
    else if answer = Text.ofString "no" then some (false, rest)
    else none
  | none => some (false, t)

/-- The declaration at the beginning of a document and what follows it. A document without one
declares nothing; a faulty one cannot be read. -/
def prologue? (t : Text) : Option (Prologue × Text) :=
  match (after? (Text.ofString "<?xml") t).bind afterSpace? with
  | none => some (Prologue.empty, t)
  | some body => do
    let (version, rest) ← declared? "version" body
    if !isVersion version then none
    else
      match (afterSpace? rest).bind (declared? "encoding") with
      | some (encoding, rest) =>
        if !isEncodingName encoding then none
        else do
          let (isStandalone, rest) ← standalone? rest
          return (⟨version, some encoding, isStandalone⟩, ← prologueEnd? rest)
      | none => do
        let (isStandalone, rest) ← standalone? rest
        return (⟨version, none, isStandalone⟩, ← prologueEnd? rest)

/-- The characters of a document, without a byte order mark. -/
def decode? (tables : Charset.Tables) (bytes : ByteArray) : Option Text :=
  if bytes.toList.take 3 = [0xef, 0xbb, 0xbf] then
    Charset.utf8.decode? (bytes.extract 3 bytes.size)
  else do
    let (prologue, _) ← prologue? (bytes.toList.map fun b => Char.ofNat b.toNat)
    match prologue.encoding with
    | none => Charset.utf8.decode? bytes
    | some encoding => (← Charset.ofName? tables encoding).decode? bytes

end Xml

end FormLetter
