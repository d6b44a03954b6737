import FormLetter.Merge.Outline
import FormLetter.Merge.Runs
import FormLetter.Markup.Pairing

/-!
# What a template asks for

Inspection reports the placeholders and conditions of a template, and where each is used, without
any data. Problems with the pairing of markers are part of the report.

* **Unique entries.** Each placeholder, by its spelling, and each condition, by its path, is listed
  once, at the place of its first use, with the locations of all its uses.
* **Required keys** are the first segments of all paths, in lower case, in ascending order. A first
  segment is a name and so has ASCII letters only, for which `Text.lower` is all there is to lower
  case.
* **Reports combine.** `combine` makes one report of many; the order of the parts decides the order
  of the entries.
-/

namespace FormLetter

/-- A token that a template uses, and where. -/
structure Mention where
  /-- What the token is known by: the spelling of a placeholder or of a condition. -/
  label : Text
  path : Path
  locations : List String
deriving DecidableEq, Repr

/-- A pairing problem and where it arose. -/
structure Issue where
  error : PairingError
  location : String
deriving DecidableEq, Repr

/-- What a template asks for and what is wrong with it. -/
structure Report where
  placeholders : List Mention
  conditions : List Mention
  requiredKeys : List Text
  issues : List Issue
deriving DecidableEq, Repr

/-- Whether a template has no problems. -/
def Report.isValid (report : Report) : Bool := report.issues.isEmpty

/-- The list with a member added at its end unless it is there already. -/
def addOnce {α : Type} [BEq α] (xs : List α) (x : α) : List α :=
  if xs.contains x then xs else xs ++ [x]

/-- The mentions with one more use of a token; a token that is mentioned already only gains
locations. -/
def addMention : List Mention → Mention → List Mention
  | [], new => [{ new with locations := new.locations.foldl addOnce [] }]
  | mention :: rest, new =>
    if mention.label = new.label then
      { mention with locations := new.locations.foldl addOnce mention.locations } :: rest
    else mention :: addMention rest new

/-- The mentions with uses of several tokens added in order. -/
def addMentions (mentions news : List Mention) : List Mention := news.foldl addMention mentions

/-- The keys that the paths of some mentions start with. -/
def requiredKeysOf (mentions : List Mention) : List Text :=
  Text.ordered ((mentions.map fun mention => Text.lower (mention.path.headD [])).foldl addOnce [])

/-- One report of several. -/
def Report.combine (reports : List Report) : Report :=
  let placeholders := addMentions [] (reports.flatMap (·.placeholders))
  let conditions := addMentions [] (reports.flatMap (·.conditions))
  ⟨placeholders, conditions, requiredKeysOf (placeholders ++ conditions),
    reports.flatMap (·.issues)⟩

/-- The use of a placeholder at a location. -/
def Placeholder.mention (location : String) (placeholder : Placeholder) : Mention :=
  ⟨placeholder.text, placeholder.path, [location]⟩

/-- The use of a condition at a location, if the marker has one. -/
def Marker.mention? (location : String) : Marker → Option Mention
  | .opening _ condition => some ⟨condition.spelling, condition.path, [location]⟩
  | _ => none

/-- The report of one document part. -/
def inspectTree (tree : Node) (location : String) : Report :=
  let joined := joinRuns tree
  let found := markers (flatText joined)
  let issues := match pair found with
    | .ok _ => []
    | .error error => [⟨error, location⟩]
  Report.combine [⟨joined.texts.flatMap fun value => (placeholders value).map (·.mention location),
    found.filterMap (·.mention? location), [], issues⟩]

end FormLetter
