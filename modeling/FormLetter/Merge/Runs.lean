import FormLetter.Document.Word
import FormLetter.Markup.Lexer

/-!
# Joining fragmented runs

Editing leaves a paragraph cut into runs at arbitrary places, so a token may start in one run and
end in another. `joinRuns` merges the runs that a token spans into one, so that all later steps find
each token in a single run.

* **Groups.** A run that ends inside an unfinished token waits, together with its successors, until
  the text of the group is finished. Proofing marks inside a waiting group are dropped; anything
  else between runs ends the group.
* **Merging is all or nothing.** A group becomes one run if some token of its text crosses a border
  between two of its runs, and stays as it was otherwise.
* **Format.** The merged run keeps the format that all its runs agree on, where having none counts
  as a format; otherwise it has none.
-/

namespace FormLetter

/-- Whether a run child is format or text. -/
def isRunContent (node : Node) : Bool :=
  node.isNamed Word.runProperties || node.isNamed Word.runText

/-- Whether a node is a run that holds nothing but format and text. -/
def isTextRun (node : Node) : Bool :=
  node.isNamed Word.run && node.children.all isRunContent

/-- The text that a run shows. -/
def runContent (run : Node) : Text := Node.contentOf (run.childrenNamed Word.runText)

/-- The text that several runs show together. -/
def groupText (runs : List Node) : Text := runs.flatMap runContent

/-- The positions between the runs of a group, when its first run starts at `start`. -/
def bordersFrom (start : Nat) : List Node → List Nat
  | [] => []
  | [_] => []
  | run :: rest =>
    let next := start + (runContent run).length
    next :: bordersFrom next rest

/-- Whether a token of the group's text crosses a border between two of its runs. -/
def isSpanned (runs : List Node) : Bool :=
  let borders := bordersFrom 0 runs
  (tokens (groupText runs)).any fun (start, token) =>
    borders.any fun border => start < border && border < start + token.text.length

/-- Whether two optional formats agree. -/
def sameFormat : Option Node → Option Node → Bool
  | none, none => true
  | some a, some b => a.same b
  | _, _ => false

/-- The format on which all runs of a group agree, if they do. -/
def sharedFormat (runs : List Node) : Option Node :=
  match runs.map (·.firstNamed? Word.runProperties) with
  | [] => none
  | first :: rest => if rest.all fun other => sameFormat other first then first else none

/-- The runs that a finished group leaves behind. -/
def settleGroup (runs : List Node) : List Node :=
  if isSpanned runs then [Word.makeRun (groupText runs) (sharedFormat runs)] else runs

mutual

/-- The tree with the fragmented runs of every paragraph joined. -/
def joinRuns : Node → Node
  | .text value => .text value
  | .element tag children =>
    if tag.name == Word.paragraph then .element tag (joinParagraph [] children)
    else .element tag (joinRunsOf children)

/-- Several trees with the fragmented runs of their paragraphs joined. -/
def joinRunsOf : List Node → List Node
  | [] => []
  | node :: rest => joinRuns node :: joinRunsOf rest

/-- The remaining children of a paragraph with their runs joined, when the runs of `waiting` form an
unfinished group. -/
def joinParagraph (waiting : List Node) : List Node → List Node
  | [] => settleGroup waiting
  | node :: rest =>
    if isTextRun node then
      if waiting.isEmpty && !(runContent node).contains '@' then
        node :: joinParagraph [] rest
      else
        let group := waiting ++ [node]
        if isUnfinished (groupText group) then joinParagraph group rest
        else settleGroup group ++ joinParagraph [] rest
    else if !waiting.isEmpty && node.isNamed Word.proofingMark then joinParagraph waiting rest
    else settleGroup waiting ++ joinRuns node :: joinParagraph [] rest

end

end FormLetter
