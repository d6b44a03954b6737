import FormLetter.Data.Access
import FormLetter.Document.Word
import FormLetter.Markup.Lexer
import FormLetter.Merge.Error

/-!
# Expanding table rows

A row whose placeholders start with the key of a list is a template: it is repeated for each item.

* **Which list.** Only the row's own text counts, not that of tables inside it. A row that draws on
  two lists is an error.
* **Groups.** Neighbouring template rows of one list are repeated together, item by item.
* **Copies are not filled in.** Their placeholders are redirected to paths from the root of the data
  and are substituted later like any other. The key of the list becomes the key with the position of
  the item; a first segment that matches a key of the item is looked up in the item; all else keeps
  its meaning.
* **Aliases** remember for each redirected placeholder what the template spelled; the first spelling
  wins.
-/

namespace FormLetter

/-! ## What a row is bound to -/

mutual

/-- The text values of a tree that are not inside a table. -/
def ownTexts : Node → List Text
  | .text value => [value]
  | .element tag children => if tag.name == Word.table then [] else ownTextsOf children

/-- The text values of several trees that are not inside a table. -/
def ownTextsOf : List Node → List Text
  | [] => []
  | node :: rest => ownTexts node ++ ownTextsOf rest

end

/-- The placeholders of a row that are its own. -/
def rowPlaceholders (row : Node) : List Placeholder :=
  (ownTextsOf row.children).flatMap placeholders

/-- A list that a template row draws on: its key, the segment that names it in the row, and its
items. -/
structure RowBinding where
  key : Key
  segment : Text
  items : List Value
deriving Repr

/-- The binding that a first segment stands for, if it names a list. -/
def bindingOf? (data : Value) (segment : Text) : Option RowBinding :=
  (listNamed? data segment).map fun (key, items) => ⟨key, segment, items⟩

/-- The bindings without those that repeat an earlier one. Each key has one folded spelling, so the
segments tell bindings apart. -/
def distinctBindings : List RowBinding → List RowBinding
  | [] => []
  | binding :: rest =>
    binding :: (distinctBindings rest).filter fun other =>
      !Text.sameFolded other.segment binding.segment

/-- The lists that a row draws on, in the order in which it names them. -/
def rowBindings (data : Value) (row : Node) : List RowBinding :=
  distinctBindings <| (rowPlaceholders row).filterMap fun placeholder =>
    bindingOf? data (placeholder.path.headD [])

/-- The list that a row is bound to, if it is a template; `index` is its number in its table. -/
def analyzeRow (data : Value) (index : Nat) (row : Node) : Except Cause (Option RowBinding) :=
  match rowBindings data row with
  | [] => .ok none
  | [binding] => .ok (some binding)
  | bindings => .error (.multipleLists index (Text.ordered (bindings.map (·.key.shown))))

/-! ## Copies of a row -/

/-- An item of a list as the scope of a row: the segment that names the list, the item, and its
position. -/
structure RowScope where
  segment : Text
  item : Value
  index : Nat
deriving Repr

/-- Whether a segment matches some key of a mapping. -/
def hasKey (data : Value) (segment : Text) : Bool :=
  match data with
  | .mapping entries => entries.any fun (key, _) => Text.sameFolded key.shown segment
  | _ => false

/-- The path from the root of the data that a path in the scope of an item stands for. -/
def RowScope.resolve (scope : RowScope) : Path → Path
  | [] => []
  | head :: rest =>
    if Text.sameFolded head scope.segment then scope.segment :: Text.ofNat scope.index :: rest
    else if hasKey scope.item head then
      scope.segment :: Text.ofNat scope.index :: head :: rest
    else head :: rest

/-- The placeholder with its path from the root of the data. -/
def RowScope.token (scope : RowScope) (placeholder : Placeholder) : Text :=
  '@' :: (scope.resolve placeholder.path).dotted ++ ['@']

/-- A redirected placeholder and what the template spells in its place. -/
abbrev Alias := Text × Text

/-- The copy of a row for an item. -/
def bindRow (scope : RowScope) (row : Node) : Node :=
  row.mapText (mapPlaceholders scope.token)

/-- The aliases of the copy of a row for an item. -/
def rowAliases (scope : RowScope) (row : Node) : List Alias :=
  row.texts.flatMap fun value =>
    (placeholders value).map fun placeholder => (scope.token placeholder, placeholder.text)

/-- The scopes of the items of a list. -/
def RowBinding.scopes (binding : RowBinding) : List RowScope :=
  binding.items.zipIdx.map fun (item, index) => ⟨binding.segment, item, index⟩

/-- Nodes that expansion produced, with the aliases of the placeholders in them. -/
structure Expansion where
  nodes : List Node
  aliases : List Alias
deriving Repr, Inhabited

namespace Expansion

/-- Nothing. -/
def empty : Expansion := ⟨[], []⟩

/-- One expansion after another. -/
def append (a b : Expansion) : Expansion := ⟨a.nodes ++ b.nodes, a.aliases ++ b.aliases⟩

instance : Append Expansion := ⟨append⟩

/-- An element around expanded children. -/
def wrap (tag : StartTag) (inner : Expansion) : Expansion :=
  ⟨[.element tag inner.nodes], inner.aliases⟩

end Expansion

/-- A group of template rows, repeated for each item of its list. -/
def repeatRows (binding : RowBinding) (rows : List Node) : Expansion :=
  ⟨binding.scopes.flatMap fun scope => rows.map (bindRow scope),
    binding.scopes.flatMap fun scope => rows.flatMap (rowAliases scope)⟩

/-! ## Tables -/

/-- The template rows that have been met last, with the list that they share. -/
abbrev RowGroup := Option (RowBinding × List Node)

/-- The copies that a finished group leaves behind. -/
def settleRows : RowGroup → Expansion
  | none => .empty
  | some (binding, rows) => repeatRows binding rows

mutual

/-- A tree with the template rows of all its tables expanded; tables inside template rows are copied
with them. -/
def expandNode (data : Value) : Node → Except Cause Expansion
  | .text value => .ok ⟨[.text value], []⟩
  | .element tag children =>
    (if tag.name == Word.table then expandRows data 0 none children
      else expandAll data children).map (.wrap tag)

/-- Several trees with the template rows of their tables expanded. -/
def expandAll (data : Value) : List Node → Except Cause Expansion
  | [] => .ok .empty
  | node :: rest => do
    let first ← expandNode data node
    let others ← expandAll data rest
    return first ++ others

/-- The remaining children of a table, when `index` rows came before and `group` is still open. Each
row is looked at before anything inside it. -/
def expandRows (data : Value) (index : Nat) (group : RowGroup) :
    List Node → Except Cause Expansion
  | [] => .ok (settleRows group)
  | node :: rest =>
    if node.isNamed Word.row then do
      match ← analyzeRow data index node with
      | none =>
        let inner ← expandNode data node
        let others ← expandRows data (index + 1) none rest
        return settleRows group ++ inner ++ others
      | some binding =>
        match group with
        | some (current, rows) =>
          if binding.key.same current.key then
            expandRows data (index + 1) (some (current, rows ++ [node])) rest
          else
            let others ← expandRows data (index + 1) (some (binding, [node])) rest
            return settleRows group ++ others
        | none => expandRows data (index + 1) (some (binding, [node])) rest
    else do
      let inner ← expandNode data node
      let others ← expandRows data index none rest
      return settleRows group ++ inner ++ others

end

/-- The token that the template spells in place of a redirected one, if it was redirected. -/
def templateToken? (aliases : List Alias) (token : Text) : Option Text := aliases.lookup token

end FormLetter
