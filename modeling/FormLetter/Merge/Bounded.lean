import FormLetter.Merge.Render

/-!
# Merging under the interpreter's bound

A merge that meets a conversion that the interpreter refuses ends there, whatever it has found so
far. What leads up to the first refusal is the same as without any bound, so the two are kept apart:
`Merge.Render` merges as if nothing were refused, and each of its steps has its first refusal here,
if there is one on the way to where the step ends.

* **Conditions** are looked at section by section, once the markers of the section are located.
* **Rows.** Finding the list of a row looks up all its own placeholders at the top of the data. A
  copy looks up in its item whatever does not begin with the name of the list. Rows are copied when
  their group is complete, so after the next child of the table has been looked at if that is a row.
* **Placeholders** are shown in document order, failing ones included.
-/

namespace FormLetter

/-! ## Sections -/

/-- The refusal on looking at the condition of a section. -/
def Block.refusal? (segments : List Segment) (data : Value) (block : Block) : Option Refusal :=
  match block.locate segments with
  | .ok _ => pathRefusal? data block.condition.path
  | .error _ => none

/-- The first refusal on planning several sections, in order. -/
def refusalOfBlocks? (segments : List Segment) (data : Value) : List Block → Option Refusal
  | [] => none
  | block :: rest =>
    (block.refusal? segments data).or <|
      match block.edits segments data with
      | .ok _ => refusalOfBlocks? segments data rest
      | .error _ => none

/-- The first refusal on resolving the outermost sections of a tree. -/
def passRefusal? (tree : Node) (data : Value) : Option Refusal :=
  match pair (markers (flatText tree)) with
  | .ok blocks => refusalOfBlocks? (segments tree) data blocks
  | .error _ => none

/-- The first refusal on resolving all sections of a tree, pass by pass. -/
def sectionsRefusal? (tree : Node) (data : Value) : Option Refusal :=
  (passRefusal? tree data).or <|
    match resolvePass tree data with
    | .error _ => none
    | .ok (next, resolved) =>
      if resolved = 0 then none
      else if (flatText next).length < (flatText tree).length then sectionsRefusal? next data
      else none
termination_by (flatText tree).length

/-! ## Rows -/

/-- The refusal on looking for the list of a row. -/
def rowRefusal? (data : Value) (row : Node) : Option Refusal :=
  match data with
  | .mapping entries => if (rowPlaceholders row).isEmpty then none else lookupRefusal? entries
  | _ => none

/-- The refusal on copying a row for an item. -/
def RowScope.refusal? (scope : RowScope) (row : Node) : Option Refusal :=
  let asks := fun p : Placeholder => !Text.sameFolded (p.path.headD []) scope.segment
  match scope.item with
  | .mapping entries =>
    if (row.texts.flatMap placeholders).any asks then lookupRefusal? entries else none
  | _ => none

/-- The first refusal on copying a finished group of rows. -/
def groupRefusal? : RowGroup → Option Refusal
  | none => none
  | some (binding, rows) => binding.scopes.findSome? fun scope => rows.findSome? scope.refusal?

mutual

/-- The first refusal on expanding the tables of a tree. -/
def expansionRefusal? (data : Value) : Node → Option Refusal
  | .text _ => none
  | .element tag children =>
    if tag.name == Word.table then rowsRefusal? data 0 none children
    else expansionsRefusal? data children

/-- The first refusal on expanding the tables of several trees. -/
def expansionsRefusal? (data : Value) : List Node → Option Refusal
  | [] => none
  | node :: rest =>
    (expansionRefusal? data node).or <|
      match expandNode data node with
      | .ok _ => expansionsRefusal? data rest
      | .error _ => none

/-- The first refusal on expanding the remaining children of a table, when `index` rows came before
and `group` is still open. -/
def rowsRefusal? (data : Value) (index : Nat) (group : RowGroup) : List Node → Option Refusal
  | [] => groupRefusal? group
  | node :: rest =>
    if node.isNamed Word.row then
      (rowRefusal? data node).or <|
        match analyzeRow data index node with
        | .error _ => none
        | .ok none =>
          ((groupRefusal? group).or (expansionRefusal? data node)).or <|
            match expandNode data node with
            | .ok _ => rowsRefusal? data (index + 1) none rest
            | .error _ => none
        | .ok (some binding) =>
          match group with
          | some (current, rows) =>
            if binding.key.same current.key then
              rowsRefusal? data (index + 1) (some (current, rows ++ [node])) rest
            else
              (groupRefusal? group).or (rowsRefusal? data (index + 1) (some (binding, [node])) rest)
          | none => rowsRefusal? data (index + 1) (some (binding, [node])) rest
    else
      ((groupRefusal? group).or (expansionRefusal? data node)).or <|
        match expandNode data node with
        | .ok _ => rowsRefusal? data index none rest
        | .error _ => none

end

/-! ## Placeholders -/

/-- The first refusal on showing the placeholders of a text. -/
def fillTextRefusal? (data : Value) (t : Text) : Option Refusal :=
  (placeholders t).findSome? fun placeholder => textRefusal? data placeholder.path

/-- The first refusal on filling in the placeholders of a tree. -/
def fillRefusal? (tree : Node) (data : Value) : Option Refusal :=
  tree.texts.findSome? (fillTextRefusal? data)

/-! ## Steps that can be refused -/

/-- The first refusal on merging a tree. -/
def mergeRefusal? (tree : Node) (data : Value) : Option Refusal :=
  (sectionsRefusal? (joinRuns tree) data).or <|
    match resolveSections (joinRuns tree) data with
    | .error _ => none
    | .ok resolved =>
      (expansionRefusal? data resolved).or <|
        match expandTables resolved data with
        | .error _ => none
        | .ok (expanded, _) => fillRefusal? expanded data

/-- The outcome of a step, unless there is a refusal on the way to it. -/
def unlessRefused {α : Type} (refusal : Option Refusal) (outcome : Except Cause α) :
    Except Cause α :=
  match refusal with
  | none => outcome
  | some refusal => .error (.refused refusal)

/-- Resolves the outermost sections of a tree, under the bound. -/
def boundedPass (tree : Node) (data : Value) : Except Cause (Node × Nat) :=
  unlessRefused (passRefusal? tree data) (resolvePass tree data)

/-- Resolves all sections of a tree, under the bound. -/
def boundedSections (tree : Node) (data : Value) : Except Cause Node :=
  unlessRefused (sectionsRefusal? tree data) (resolveSections tree data)

/-- Finds the list that a row is bound to, under the bound. -/
def boundedRow (data : Value) (index : Nat) (row : Node) : Except Cause (Option RowBinding) :=
  unlessRefused (rowRefusal? data row) (analyzeRow data index row)

/-- Expands the tables of a tree, under the bound. -/
def boundedTables (tree : Node) (data : Value) : Except Cause (Node × List Alias) :=
  unlessRefused (expansionRefusal? data tree) (expandTables tree data)

/-- Fills in the placeholders of a tree, under the bound. -/
def boundedFill (tree : Node) (data : Value) : Except Cause Node :=
  unlessRefused (fillRefusal? tree data) (fillTree tree data)

/-- Merges a part of a document with data, under the bound. -/
def boundedRender (tree : Node) (data : Value) (part : Option String) : Except RenderError Node :=
  (unlessRefused (mergeRefusal? tree data) (mergeTree tree data)).mapError (·.inPart part)

/-- Merges the properties of a document with data, under the bound. -/
def boundedProperties (tree : Node) (data : Value) (part : Option String) :
    Except RenderError Node :=
  (boundedFill (joinRuns tree) data).mapError (·.inPart part)

end FormLetter
