import FormLetter.Text.Basic

/-!
# Markers and placeholders

A template speaks to its data through tokens, each an at-sign, a body without at-signs, and a
closing at-sign.

* **Placeholders** hold a dotted path, such as `@customer.name@`. The first segment is a name;
  later ones may also be plain numbers, which count into a list.
* **Conditional markers** are `@if:path@`, `@else@` and `@endif@`, their keywords in any mixture of
  letter cases. A keyword always wins, so `@Else@` is never a placeholder.
* **Everything else** between two at-signs is ordinary text (`Meaning.ofBody?` gives `none`): an
  empty body, a blank, a segment that starts with a digit where a name is due.

Names use ASCII letters, digits and the underscore only; a path with any other letter is ordinary
text, however well it would match a key of the data.
-/

namespace FormLetter

/-- What a placeholder or a condition names in the data: a key, then keys and list positions. -/
abbrev Path := List Text

namespace Path

/-- The path as it is written between at-signs. -/
def dotted (path : Path) : Text := Text.joinWith ['.'] path

end Path

/-- A letter or the underscore. -/
def isNameStart (c : Char) : Bool := c.isAlpha || c == '_'

/-- A letter, a digit or the underscore. -/
def isNameChar (c : Char) : Bool := c.isAlphanum || c == '_'

/-- A segment that names a key. -/
def isName : Text → Bool
  | [] => false
  | c :: rest => isNameStart c && rest.all isNameChar

/-- A segment of digits only, which also counts into a list. -/
def isNumeral (t : Text) : Bool := !t.isEmpty && t.all Char.isDigit

/-- The path that a text spells: a name, then names and numerals, all separated by dots. -/
def Path.ofText? (t : Text) : Option Path :=
  match Text.splitOn '.' t with
  | [] => none
  | first :: rest =>
    if isName first && rest.all (fun segment => isName segment || isNumeral segment) then
      some (first :: rest)
    else none

/-- What a token asks for. -/
inductive Meaning
  /-- The value at this path. -/
  | placeholder (path : Path)
  /-- A section that is kept when the value at this path holds. -/
  | opening (path : Path)
  /-- The other branch of the innermost open section. -/
  | alternative
  /-- The end of the innermost open section. -/
  | closing
deriving DecidableEq, Repr

/-- What follows the keyword of an opening marker, if the body begins with that keyword. -/
def afterIf? : Text → Option Text
  | i :: f :: ':' :: rest => if i.toLower = 'i' && f.toLower = 'f' then some rest else none
  | _ => none

/-- The meaning of a token with this body, or `none` if no token has it. A colon occurs in an
opening marker only, so a body that begins with the keyword and then fails has no other reading. -/
def Meaning.ofBody? (body : Text) : Option Meaning :=
  match afterIf? body with
  | some rest => (Path.ofText? rest).map .opening
  | none =>
    if Text.lower body = Text.ofString "else" then some .alternative
    else if Text.lower body = Text.ofString "endif" then some .closing
    else (Path.ofText? body).map .placeholder

/-- A token as it stands in the text, with what it means. -/
structure Token where
  /-- The characters between the at-signs. -/
  body : Text
  meaning : Meaning
deriving DecidableEq, Repr

/-- The token with its at-signs. -/
def Token.text (token : Token) : Text := '@' :: token.body ++ ['@']

end FormLetter
