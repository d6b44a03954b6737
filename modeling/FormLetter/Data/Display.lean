import FormLetter.Data.Value
import FormLetter.Number.Notation
import FormLetter.Text.Quoted

/-!
# How keys are shown

A key that is not text is matched, sorted and reported through its text: a symbol by its name, a
number as it is shown in a document, anything else in the notation of this module. The members of a
tuple stand in a notation that shows their kind, so text among them is quoted. An integer is shown
here whatever its size; `Data.Refusal` says which keys the interpreter refuses to show.
-/

namespace FormLetter

/-- The members between parentheses, with a comma after a single one. -/
def tupleText : List Text → Text
  | [item] => '(' :: item ++ [',', ')']
  | items => '(' :: Text.joinWith [',', ' '] items ++ [')']

mutual

/-- The notation of a key that shows its kind. -/
def Key.literal : Key → Text
  | .text t => t.quoted
  | .symbol name => Text.ofString "Symbol(name=" ++ name.quoted ++ [')']
  | .null => Text.ofString "None"
  | .truth b => Text.ofString (if b then "True" else "False")
  | .int i => Text.ofInt i
  | .binary x => x.text
  | .decimal n => Text.ofString "Decimal(" ++ n.text.quoted ++ [')']
  | .bytes bs => Text.quotedBytes bs
  | .tuple items => tupleText (Key.literals items)

/-- The notations of several keys. -/
def Key.literals : List Key → List Text
  | [] => []
  | item :: rest => Key.literal item :: Key.literals rest

end

/-- The text of a key, which a segment of a path is compared with. -/
def Key.shown : Key → Text
  | .text t => t
  | .symbol name => name
  | .decimal n => n.text
  | key => key.literal

end FormLetter
