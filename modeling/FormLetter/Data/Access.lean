import FormLetter.Data.Reason
import FormLetter.Text.CaseFold

/-!
# Resolving paths

A path is followed segment by segment from the data as a whole.

* **Keys** are matched without regard to letter case, symbolic and textual ones alike. No match is
  preferred to another: two keys of one flavour are ambiguous, keys of both flavours conflict, and
  `lookup` reports either instead of choosing.
* **List positions** are digits, counted from zero.
* **Two uses of a value.** `valueText` gives the text to show for a scalar, `isTruthy` decides a
  condition; neither accepts lists and mappings.
* **No bounds.** Integers are read and shown here whatever their number of digits, and data may be
  nested to any depth. `Data.Refusal` says where the interpreter refuses a conversion.
* **The other way to look.** `findUnique?` answers only whether exactly one key matches. Table
  expansion uses it, since a row is no template when its key is missing or unclear. The null key
  stands for "no key" there.
-/

namespace FormLetter

/-- Whether a key is a symbol. -/
def Key.isSymbolic : Key → Bool
  | .symbol _ => true
  | _ => false

/-- The entries whose key matches a segment: symbolic ones, then all others. -/
def matchingEntries (entries : List (Key × Value)) (segment : Text) :
    List (Key × Value) × List (Key × Value) :=
  let found := entries.filter fun (key, _) => Text.sameFolded key.shown segment
  (found.filter (·.1.isSymbolic), found.filter (!·.1.isSymbolic))

/-- The texts of the keys of some entries, in order of character codes. -/
def shownKeys (entries : List (Key × Value)) : List Text :=
  Text.ordered (entries.map (·.1.shown))

/-- The single entry that a segment names; `path` is the whole path, which a report of a missing key
repeats. -/
def lookup (entries : List (Key × Value)) (segment : Text) (path : Path) :
    Except Reason (Key × Value) :=
  match matchingEntries entries segment with
  | ([], []) => .error (.pathNotFound path)
  | ([entry], []) => .ok entry
  | ([], [entry]) => .ok entry
  | (symbolic, []) => .error (.ambiguousKey segment (shownKeys symbolic))
  | ([], textual) => .error (.ambiguousKey segment (shownKeys textual))
  | (symbolic, textual) =>
    .error (.conflictingKeys segment ((shownKeys symbolic).headD [])
      ((shownKeys textual).headD []))

/-- The entry that a segment names, if exactly one key matches and it is not the null key. -/
def findUnique? (entries : List (Key × Value)) (segment : Text) : Option (Key × Value) :=
  let (symbolic, textual) := matchingEntries entries segment
  match symbolic ++ textual with
  | [(.null, _)] => none
  | [entry] => some entry
  | _ => none

/-- The members of the list that a segment names at the top of the data, with its key. -/
def listNamed? (data : Value) (segment : Text) : Option (Key × List Value) :=
  match data with
  | .mapping entries =>
    match findUnique? entries segment with
    | some (key, value) => value.items?.map (key, ·)
    | none => none
  | _ => none

/-- The list position that a segment spells. -/
def listPosition (segment : Text) : Except Reason Nat :=
  if isNumeral segment then .ok (digitsValue segment)
  else .error (.invalidIndex segment)

/-- The member of a list that a segment names. -/
def listMember (items : List Value) (segment : Text) : Except Reason Value := do
  let position ← listPosition segment
  match items[position]? with
  | some item => .ok item
  | none => .error (.indexOutOfBounds position items.length)

/-- One step along `path`: the part of a value that a segment names. -/
def descend (path : Path) (segment : Text) : Value → Except Reason Value
  | .mapping entries => (lookup entries segment path).map (·.2)
  | .list items => listMember items segment
  | .tuple items => listMember items segment
  | _ => .error (.pathNotFound path)

/-- Follows the remaining segments of `path` from a value. -/
def traverseFrom (path : Path) : List Text → Value → Except Reason Value
  | [], value => .ok value
  | segment :: rest, value => do traverseFrom path rest (← descend path segment value)

/-- The value that a path names. -/
def traverse (data : Value) (path : Path) : Except Reason Value := traverseFrom path path data

/-- The text that a scalar shows. -/
def Value.display : Value → Except Reason Text
  | .null => .error .nilValue
  | .text t => .ok t
  | .truth b => .ok (Text.ofString (if b then "true" else "false"))
  | .int i => .ok (Text.ofInt i)
  | .binary x => .ok x.text
  | .decimal n => .ok n.text
  | value => .error (.unsupportedKind value.kind)

/-- The text to show for a path. The empty path names no scalar. -/
def valueText (data : Value) (path : Path) : Except Reason Text :=
  match path with
  | [] => .error (.unsupportedKind data.kind)
  | _ => do (← traverse data path).display

/-- Whether a scalar decides a condition positively: null, false, zero and the empty text do not,
and what is not a number differs from zero unless it signals when it is compared. -/
def Value.truth? : Value → Except Reason Bool
  | .null => .ok false
  | .truth b => .ok b
  | .int i => .ok (i != 0)
  | .binary (.finite _ significand _) => .ok (significand != 0)
  | .binary _ => .ok true
  | .decimal (.finite _ digits _) => .ok (digits != 0)
  | .decimal (.nan _ true _) => .error .signal
  | .decimal _ => .ok true
  | .text t => .ok !t.isEmpty
  | value => .error (.unsupportedKind value.kind)

/-- Whether the condition at a path holds. -/
def isTruthy (data : Value) (path : Path) : Except Reason Bool := do
  (← traverse data path).truth?

end FormLetter
