import FormLetter.Data.Refusal
import FormLetter.Markup.Pairing

/-!
# Why a merge fails

Every failure is a cause with the facts that a caller may want to act on, and `message` gives its
wording.

* **One cause at a time,** except for placeholders: all that fail in a part are reported together.
* **The part is context.** A cause knows nothing of packages. `RenderError` adds the name of the
  part in which the cause arose, where that is known, and the wording then names it at its end.
* **Failures of the interpreter** come up in the midst of a merge and end it as they are. They are
  no errors of a template, so the part that is being merged does not become known.
-/

namespace FormLetter

/-- Why the paragraphs around a section cannot be used as its bounds. -/
inductive BoundaryError
  /-- The opening marker stands in loose text; `marker` is its spelling. -/
  | openingLoose (condition : Condition) (marker : Text)
  /-- The closing marker stands in loose text. -/
  | closingLoose (condition : Condition)
  /-- The alternative marker stands in loose text. -/
  | alternativeLoose (condition : Condition)
  /-- The markers stand in paragraphs of different parents. -/
  | notSiblings (condition : Condition)
deriving DecidableEq, Repr

namespace BoundaryError

/-- The condition of the section. -/
def condition : BoundaryError → Condition
  | .openingLoose condition _ => condition
  | .closingLoose condition => condition
  | .alternativeLoose condition => condition
  | .notSiblings condition => condition

/-- The short name of the problem. -/
def kind : BoundaryError → String
  | .openingLoose .. => "if_marker_not_found"
  | .closingLoose _ => "endif_marker_not_found"
  | .alternativeLoose _ => "boundaries_not_found"
  | .notSiblings _ => "boundaries_not_found"

/-- The problem in words. -/
def message : BoundaryError → String
  | .openingLoose _ marker => "Paragraph holding " ++ String.ofList marker ++ " not found"
  | .closingLoose condition =>
    "Paragraph holding @endif@ for " ++ condition.openingMarker ++ " not found"
  | .alternativeLoose condition =>
    "Paragraph holding @else@ for " ++ condition.openingMarker ++ " not found"
  | .notSiblings condition =>
    "Markers of " ++ condition.openingMarker ++ " are not in sibling paragraphs"

end BoundaryError

/-- A placeholder that could not be resolved. -/
structure Failure where
  /-- The placeholder as it was resolved; in a copied table row it names the list item. -/
  token : Text
  path : Path
  reason : Reason
  /-- The placeholder as the template spells it. -/
  templateToken : Text
deriving DecidableEq, Repr

/-- How many placeholders a report names before it only counts the rest. -/
def failureSample : Nat := 5

/-- The placeholders of a report in words. -/
def failuresMessage : List Failure → String
  | [] => "No placeholders could be resolved"
  | [failure] =>
    "Placeholder " ++ String.ofList failure.token ++ " could not be resolved: "
      ++ failure.reason.message
  | failures =>
    let sample := (failures.take failureSample).map (·.token)
    let remaining := failures.length - sample.length
    toString failures.length ++ " placeholders could not be resolved: "
      ++ String.ofList (Text.joinWith [',', ' '] sample)
      ++ if remaining = 0 then "" else " and " ++ toString remaining ++ " more"

/-- What aborts a merge. -/
inductive Cause
  | pairing (error : PairingError)
  | boundary (error : BoundaryError)
  /-- A condition compares a number that signals. The failure is one of arithmetic, which knows
  nothing of templates. -/
  | signal
  /-- The interpreter refuses a conversion. The failure is its own and knows nothing of templates
  either. -/
  | refused (refusal : Refusal)
  /-- The value at the path of a condition decides nothing. -/
  | undecided (condition : Condition) (reason : Reason)
  /-- A table row draws on several lists. -/
  | multipleLists (row : Nat) (keys : List Text)
  | placeholders (failures : List Failure)
  /-- A document part is not well-formed; `detail` is what the parser says. -/
  | malformed (detail : String)
  /-- The template or output file is unusable. -/
  | unusable (problem : String)
  /-- The package lacks a part that every document has. -/
  | missingPart (problem : String)
deriving DecidableEq, Repr

/-- The cause that the value of a condition is not known for this reason. -/
def Cause.ofReason (condition : Condition) : Reason → Cause
  | .signal => .signal
  | reason => .undecided condition reason

/-- The cause in words, without the part. -/
def Cause.message : Cause → String
  | .pairing error => error.message
  | .boundary error => error.message
  | .signal => Reason.signal.message
  | .refused refusal => refusal.message
  | .undecided condition reason =>
    "Condition " ++ condition.openingMarker ++ " could not be evaluated: " ++ reason.message
  | .multipleLists row keys =>
    "Table row " ++ toString row ++ " references multiple lists: "
      ++ String.ofList (Text.joinWith [',', ' '] keys)
  | .placeholders failures => failuresMessage failures
  | .malformed detail => "Malformed XML: " ++ detail
  | .unusable problem => problem
  | .missingPart problem => problem

/-- A failed merge: its cause, and the part of the document in which it arose if that is known. -/
structure RenderError where
  cause : Cause
  part : Option String
deriving DecidableEq, Repr

/-- Whether a cause is a failure of the interpreter, which knows nothing of templates. -/
def Cause.isForeign : Cause → Bool
  | .signal => true
  | .refused _ => true
  | _ => false

/-- The part that the error names. A failure of the interpreter names none. -/
def RenderError.named? (error : RenderError) : Option String :=
  if error.cause.isForeign then none else error.part

/-- The error in words. A part that it names is added at the end. -/
def RenderError.message (error : RenderError) : String :=
  match error.named? with
  | none => error.cause.message
  | some part =>
    if part.isEmpty then error.cause.message else error.cause.message ++ " (in " ++ part ++ ")"

/-- A cause that arose in a part. -/
def Cause.inPart (cause : Cause) (part : Option String) : RenderError := ⟨cause, part⟩

end FormLetter
