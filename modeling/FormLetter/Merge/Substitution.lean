import FormLetter.Data.Access
import FormLetter.Document.Node
import FormLetter.Markup.Lexer
import FormLetter.Merge.Error

/-!
# Filling in placeholders

Each placeholder of a text is replaced by the text of the value at its path, escaped so that no
character of it can act as markup.

* **One look.** The tokens of a text are found once, before anything is filled in; text that comes
  from the data is never read for tokens.
* **All failures at once.** A text node with a placeholder that fails stays as it is, and the
  failures of the whole tree are reported together, in document order.
-/

namespace FormLetter

/-- The text with all characters of markup and both quotes written as references. -/
def escapeValue (t : Text) : Text :=
  t.flatMap fun c =>
    if c = '&' then Text.ofString "&amp;"
    else if c = '<' then Text.ofString "&lt;"
    else if c = '>' then Text.ofString "&gt;"
    else if c = '\x22' then Text.ofString "&quot;"
    else if c = '\x27' then Text.ofString "&apos;"
    else [c]

/-- What a piece becomes: a placeholder the escaped value at its path, all else itself. -/
def Piece.fill (data : Value) : Piece → Except Failure Text
  | .char c => .ok [c]
  | .token t =>
    match t.meaning with
    | .placeholder path =>
      match valueText data path with
      | .ok value => .ok (escapeValue value)
      | .error reason => .error ⟨t.text, path, reason, t.text⟩
    | _ => .ok t.text

/-- The failure of an unsuccessful result. -/
def failure? : Except Failure Text → Option Failure
  | .ok _ => none
  | .error failure => some failure

/-- The text of a result; a failure has none. -/
def filledText : Except Failure Text → Text
  | .ok t => t
  | .error _ => []

/-- The failures of a text, in order. -/
def failuresIn (data : Value) (t : Text) : List Failure :=
  (pieces t).filterMap fun piece => failure? (piece.fill data)

/-- The text with its placeholders filled in, or unchanged if one of them fails. -/
def fillText (data : Value) (t : Text) : Text :=
  if (failuresIn data t).isEmpty then (pieces t).flatMap fun piece => filledText (piece.fill data)
  else t

/-- The tree with all its placeholders filled in. -/
def fillTree (tree : Node) (data : Value) : Except Cause Node :=
  let failures := tree.texts.flatMap (failuresIn data)
  if failures.isEmpty then .ok (tree.mapText (fillText data)) else .error (.placeholders failures)

end FormLetter
