import FormLetter.Merge.Rows
import FormLetter.Merge.Runs
import FormLetter.Merge.Section
import FormLetter.Merge.Substitution

/-!
# Merging a document part with data

The steps run in a fixed order, each on the result of the one before: runs are joined, sections
resolved, table rows expanded, placeholders filled in. The first failure ends the merge.

Properties of a document, such as its title, know placeholders only.
-/

namespace FormLetter

/-- A failure that knows what the template spells for its token. -/
def Failure.traced (aliases : List Alias) (failure : Failure) : Failure :=
  { failure with
    templateToken := (templateToken? aliases failure.token).getD failure.templateToken }

/-- The cause with its failed placeholders traced back to the template. -/
def Cause.traced (aliases : List Alias) : Cause → Cause
  | .placeholders failures => .placeholders (failures.map (·.traced aliases))
  | cause => cause

/-- The tree with the template rows of its tables expanded, and the aliases of their
placeholders. -/
def expandTables (tree : Node) (data : Value) : Except Cause (Node × List Alias) := do
  let expansion ← expandNode data tree
  return (expansion.nodes.headD tree, expansion.aliases)

/-- Merges a tree with data. -/
def mergeTree (tree : Node) (data : Value) : Except Cause Node := do
  let resolved ← resolveSections (joinRuns tree) data
  let (expanded, aliases) ← expandTables resolved data
  (fillTree expanded data).mapError (·.traced aliases)

/-- Merges a part of a document with data. -/
def renderTree (tree : Node) (data : Value) (part : Option String) : Except RenderError Node :=
  (mergeTree tree data).mapError (·.inPart part)

/-- Merges the properties of a document with data. -/
def renderProperties (tree : Node) (data : Value) (part : Option String) :
    Except RenderError Node :=
  (fillTree (joinRuns tree) data).mapError (·.inPart part)

end FormLetter
