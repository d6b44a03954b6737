import FormLetter.Document.Unescape
import FormLetter.Xml.Chars
import FormLetter.Xml.Notice

/-!
# References in documents

A reference in a document is complete or an error (`pieces?`). It gives the code of a character, in
decimal or hexadecimal notation, or one of the names of the characters of markup. It may also have a
name that a document type would have to explain (`resolve`).
-/

namespace FormLetter

namespace Xml

/-- The number that stands between the sign of a numeric reference and its semicolon. -/
def referenceCode? : Text → Option Nat
  | 'x' :: digits =>
    if !digits.isEmpty && digits.all isHexDigit then some (numeralValue 16 digits) else none
  | digits =>
    if !digits.isEmpty && digits.all Char.isDigit then some (numeralValue 10 digits) else none

/-- The character with this code, if a document may hold it. -/
def charWithCode? (code : Nat) : Option Char :=
  let c := Char.ofNat code
  if c.toNat = code && isChar c then some c else none

/-- A piece of the text of a document. -/
inductive Piece
  /-- Characters that stand for themselves. -/
  | plain (t : Text)
  /-- A character that is written as a reference. -/
  | character (c : Char)
  /-- A reference to something that is declared elsewhere, if anywhere. -/
  | entity (name : Text)
deriving DecidableEq, Repr

/-- The reference that has this between ampersand and semicolon. -/
def Piece.ofReference? : Text → Option Piece
  | '#' :: rest => ((referenceCode? rest).bind charWithCode?).map .character
  | name =>
    match namedChars.lookup name with
    | some c => some (.character c)
    | none => if isLabel name then some (.entity name) else none

/-- The reference at the beginning of a text, after its ampersand, and what follows it. -/
def reference? (t : Text) : Option (Piece × Text) := do
  let (inside, rest) ← breakAt? [';'] t
  return (← Piece.ofReference? inside, rest)

/-- The pieces of a text, if each ampersand starts a reference. -/
def pieces? (t : Text) : Option (List Piece) :=
  match Text.splitOn '&' t with
  | [] => none
  | first :: rest => do
    let others ← rest.mapM fun t => do
      let (piece, following) ← reference? t
      return [piece, .plain following]
    return .plain first :: others.flatten

/-- The characters that pieces stand for, those outside references changed by `f`. A reference to
what is declared elsewhere stands for nothing, if it is allowed at all. -/
def resolve (allowsEntities : Bool) (f : Text → Text) : List Piece → Judged Text
  | [] => pure []
  | .plain t :: rest => do return f t ++ (← resolve allowsEntities f rest)
  | .character c :: rest => do return c :: (← resolve allowsEntities f rest)
  | .entity _ :: rest => do
    if !allowsEntities then refuse
    warn
    resolve allowsEntities f rest

end Xml

end FormLetter
