import FormLetter.Data.Display
import FormLetter.Markup.Token

/-!
# Why a path has no value

The reasons that keep a path from being resolved, and their wording. The wording quotes what the
template spells and lists the keys of the data as they are shown.
-/

namespace FormLetter

/-- Why a path could not be resolved to a value that can be used. -/
inductive Reason
  /-- Some segment names no key, or is applied to a value without parts. -/
  | pathNotFound (path : Path)
  /-- A list is addressed by something other than digits. -/
  | invalidIndex (segment : Text)
  /-- A list is addressed past its end. -/
  | indexOutOfBounds (requested length : Nat)
  /-- The value is null and so has no text. -/
  | nilValue
  /-- The value is of a kind that cannot be used here. -/
  | unsupportedKind (kind : Kind)
  /-- Several keys of one flavour match a segment. -/
  | ambiguousKey (segment : Text) (candidates : List Text)
  /-- Keys of both flavours match a segment. -/
  | conflictingKeys (segment symbolic textual : Text)
  /-- A signalling number was compared, which arithmetic refuses. -/
  | signal
deriving DecidableEq, Repr

/-- The reason in words. -/
def Reason.message : Reason → String
  | .pathNotFound path => "path " ++ String.ofList path.dotted.quoted ++ " not found"
  | .invalidIndex segment => "invalid list index " ++ String.ofList segment.quoted
  | .indexOutOfBounds requested length =>
    "index " ++ toString requested ++ " out of bounds for list of length " ++ toString length
  | .nilValue => "value is null"
  | .signal => "[<class 'decimal.InvalidOperation'>]"
  | .unsupportedKind kind => "unsupported value type " ++ kind.name
  | .ambiguousKey segment candidates =>
    "key " ++ String.ofList segment.quoted ++ " is ambiguous between "
      ++ String.ofList (Text.joinWith [',', ' '] candidates)
  | .conflictingKeys segment symbolic textual =>
    "key " ++ String.ofList segment.quoted ++ " matches both symbolic key "
      ++ String.ofList symbolic.quoted ++ " and textual key " ++ String.ofList textual.quoted

end FormLetter
