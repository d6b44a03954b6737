import FormLetter.Package.Template
import FormLetter.Proofs.Displayed
import FormLetter.Proofs.Expanded
import FormLetter.Proofs.FoundKeys
import FormLetter.Proofs.Refusals

/-!
# Failures of the interpreter

A merge can end in a failure that is not one of templates: the interpreter refuses a conversion, or a
number that is compared signals. This file says what is in the data then.

* `Refusal.IsOver` — what a refusal is over: an integer of the data with too many digits, or a
  numeral with too many. One lemma for each stage leads to `isOver_of_mergeRefusal?`.
* `Signals` — a path leads to a number that signals.
* `foreign_of_renderNamed` — merging a part ends in such a failure over one of these only.
-/

namespace FormLetter

/-! ## Parts of data -/

/-- A value is part of another. -/
inductive Value.Holds : Value → Value → Prop
  | self (value : Value) : Holds value value
  | item {items value part} : value ∈ items → Holds value part → Holds (.list items) part
  | member {items value part} : value ∈ items → Holds value part → Holds (.tuple items) part
  | entry {entries entry part} : entry ∈ entries → Holds entry.2 part → Holds (.mapping entries) part

/-- Whether the digits of an integer are too many, be it a key. -/
def Value.isOversized : Value → Bool
  | .int i => !isShowable i
  | .mapping entries => !entries.all (·.1.isShowable)
  | _ => false

/-- What a refusal is over: a numeral of more digits than the limit, or an integer of the data. -/
def Refusal.IsOver (data : Value) : Refusal → Prop
  | .reading digits => digitLimit < digits
  | .showing => ∃ part, data.Holds part ∧ part.isOversized = true

lemma Value.Holds.trans {value part inner : Value} (h : value.Holds part) (h' : part.Holds inner) :
    value.Holds inner := by
  induction h with
  | self value => exact h'
  | item hmem _ ih => exact .item hmem (ih h')
  | member hmem _ ih => exact .member hmem (ih h')
  | entry hmem _ ih => exact .entry hmem (ih h')

lemma Refusal.IsOver.of_holds {data part : Value} (h : data.Holds part) {refusal : Refusal}
    (hover : refusal.IsOver part) : refusal.IsOver data := by
  cases refusal with
  | reading digits => exact hover
  | showing =>
      obtain ⟨inner, hinner, hsize⟩ := hover
      exact ⟨inner, h.trans hinner, hsize⟩

section

variable {data : Value} {path : Path} {refusal : Refusal}

lemma holds_of_descend {segment : Text} {value part : Value}
    (h : descend path segment value = .ok part) : value.Holds part := by
  cases value with
  | mapping entries =>
      obtain ⟨entry, hentry, rfl⟩ := map_eq_ok.mp h
      exact .entry (mem_of_lookup hentry) (.self _)
  | list items => exact .item (mem_of_listMember h) (.self _)
  | tuple items => exact .member (mem_of_listMember h) (.self _)
  | _ => simp [descend] at h

lemma holds_of_traverseFrom : ∀ {segments : List Text} {value part : Value},
    traverseFrom path segments value = .ok part → value.Holds part
  | [], value, part, h => Except.ok.inj h ▸ .self value
  | segment :: rest, value, part, h => by
      obtain ⟨next, hnext, h⟩ := bind_eq_ok.mp h
      exact (holds_of_descend hnext).trans (holds_of_traverseFrom h)

/-- The list that a segment names is part of the data, and so are its items. -/
lemma RowScope.Within.holds {scope : RowScope} {key : Key} (h : scope.Within key data) :
    data.Holds scope.item := by
  obtain ⟨items, hlist, hitem⟩ := h.inList
  have hmem := List.mem_of_getElem? hitem
  cases data with
  | mapping entries =>
      obtain ⟨value, hfound, hitems⟩ := listNamed?_eq_some.mp hlist
      have hentry : (key, value) ∈ entries := by
        have hmatched := (findUnique?_eq_some.mp hfound).1
        have hin : (key, value) ∈ matched entries scope.segment := by simp [hmatched]
        exact List.mem_of_mem_filter hin
      refine .entry hentry ?_
      cases value with
      | list members => exact Option.some.inj hitems ▸ .item hmem (.self _)
      | tuple members => exact Option.some.inj hitems ▸ .member hmem (.self _)
      | _ => simp [Value.items?] at hitems
  | _ => simp [listNamed?] at hlist

/-! ## Refusals -/

lemma isOver_of_lookupRefusal? {entries : List (Key × Value)}
    (h : lookupRefusal? entries = some refusal) : refusal.IsOver (.mapping entries) := by
  unfold lookupRefusal? at h
  split at h
  · cases h
  · next hkeys =>
      obtain rfl := Option.some.inj h
      exact ⟨.mapping entries, .self _, by simpa [Value.isOversized] using hkeys⟩

lemma isOver_of_positionRefusal? {segment : Text} (h : positionRefusal? segment = some refusal) :
    refusal.IsOver data := by
  unfold positionRefusal? at h
  split at h
  · next hlong =>
      simp only [Bool.and_eq_true, decide_eq_true_eq] at hlong
      obtain rfl := Option.some.inj h
      exact hlong.2
  · cases h

lemma isOver_of_traversalRefusal? : ∀ {segments : List Text} {value : Value},
    traversalRefusal? path segments value = some refusal → refusal.IsOver value
  | [], _, h => by cases h
  | segment :: rest, value, h => by
      rw [traversalRefusal?, Option.or_eq_some_iff] at h
      rcases h with h | ⟨-, h⟩
      · unfold descentRefusal? at h
        split at h
        · exact isOver_of_lookupRefusal? h
        · exact isOver_of_positionRefusal? h
        · exact isOver_of_positionRefusal? h
        · cases h
      · split at h
        · next part hpart =>
            exact (isOver_of_traversalRefusal? h).of_holds (holds_of_descend hpart)
        · cases h

lemma isOver_of_pathRefusal? (h : pathRefusal? data path = some refusal) : refusal.IsOver data :=
  isOver_of_traversalRefusal? h

lemma isOver_of_refusal? {value : Value} (h : value.refusal? = some refusal) :
    refusal.IsOver value := by
  unfold Value.refusal? at h
  split at h
  · next i =>
      split at h
      · cases h
      · next hsize =>
          obtain rfl := Option.some.inj h
          exact ⟨.int i, .self _, by simpa [Value.isOversized] using hsize⟩
  · cases h

lemma isOver_of_textRefusal? (h : textRefusal? data path = some refusal) : refusal.IsOver data := by
  unfold textRefusal? at h
  rcases Option.or_eq_some_iff.mp h with h | ⟨-, h⟩
  · exact isOver_of_pathRefusal? h
  · split at h
    · next value _ hvalue =>
        exact (isOver_of_refusal? h).of_holds (holds_of_traverseFrom hvalue)
    · cases h

/-! ### Sections -/

lemma isOver_of_refusalOfBlocks? {segments : List Segment} : ∀ {blocks : List Block},
    refusalOfBlocks? segments data blocks = some refusal → refusal.IsOver data
  | [], h => by cases h
  | block :: rest, h => by
      rw [refusalOfBlocks?, Option.or_eq_some_iff] at h
      rcases h with h | ⟨-, h⟩
      · unfold Block.refusal? at h
        split at h
        · exact isOver_of_pathRefusal? h
        · cases h
      · split at h
        · exact isOver_of_refusalOfBlocks? h
        · cases h

lemma isOver_of_passRefusal? {tree : Node} (h : passRefusal? tree data = some refusal) :
    refusal.IsOver data := by
  unfold passRefusal? at h
  split at h
  · exact isOver_of_refusalOfBlocks? h
  · cases h

lemma isOver_of_sectionsRefusal? (tree : Node) (h : sectionsRefusal? tree data = some refusal) :
    refusal.IsOver data := by
  rw [sectionsRefusal?, Option.or_eq_some_iff] at h
  rcases h with h | ⟨-, h⟩
  · exact isOver_of_passRefusal? h
  · split at h
    · cases h
    · next next' resolved hpass =>
        split at h
        · cases h
        · split at h
          · exact isOver_of_sectionsRefusal? next' h
          · cases h
termination_by (flatText tree).length

/-! ### Rows -/

lemma isOver_of_rowRefusal? {row : Node} (h : rowRefusal? data row = some refusal) :
    refusal.IsOver data := by
  unfold rowRefusal? at h
  split at h
  · split at h
    · cases h
    · exact isOver_of_lookupRefusal? h
  · cases h

/-- The items for which the rows of a group are copied are parts of the data. -/
def RowGroup.IsOf (data : Value) (group : RowGroup) : Prop :=
  ∀ binding rows, group = some (binding, rows) → ∀ scope ∈ binding.scopes, data.Holds scope.item

lemma RowGroup.isOf_none : RowGroup.IsOf data none := nofun

lemma RowGroup.isOf_of_analyzeRow {index : Nat} {row : Node} {binding : RowBinding}
    (h : analyzeRow data index row = .ok (some binding)) (rows : List Node) :
    RowGroup.IsOf data (some (binding, rows)) := by
  intro binding' rows' heq scope hscope
  obtain ⟨rfl, rfl⟩ := Prod.mk.inj (Option.some.inj heq)
  exact (within_of_mem_scopes h hscope).holds

lemma RowGroup.IsOf.with_row {binding : RowBinding} {rows : List Node}
    (h : RowGroup.IsOf data (some (binding, rows))) (row : Node) :
    RowGroup.IsOf data (some (binding, rows ++ [row])) := by
  intro binding' rows' heq scope hscope
  obtain ⟨rfl, -⟩ := Prod.mk.inj (Option.some.inj heq)
  exact h binding rows rfl scope hscope

lemma isOver_of_groupRefusal? {group : RowGroup} (hgroup : group.IsOf data)
    (h : groupRefusal? group = some refusal) : refusal.IsOver data := by
  unfold groupRefusal? at h
  split at h
  · cases h
  · next binding rows =>
      obtain ⟨scope, hscope, h⟩ := List.exists_of_findSome?_eq_some h
      obtain ⟨row, -, h⟩ := List.exists_of_findSome?_eq_some h
      refine Refusal.IsOver.of_holds (hgroup binding rows rfl scope hscope) ?_
      unfold RowScope.refusal? at h
      split at h
      · next entries hitem =>
          simp only at h
          split at h
          · rw [hitem]
            exact isOver_of_lookupRefusal? h
          · cases h
      · cases h

mutual

lemma isOver_of_expansionRefusal? : ∀ (node : Node),
    expansionRefusal? data node = some refusal → refusal.IsOver data
  | .text _, h => by cases h
  | .element tag children, h => by
      rw [expansionRefusal?] at h
      split at h
      · exact isOver_of_rowsRefusal? children RowGroup.isOf_none h
      · exact isOver_of_expansionsRefusal? children h

lemma isOver_of_expansionsRefusal? : ∀ (nodes : List Node),
    expansionsRefusal? data nodes = some refusal → refusal.IsOver data
  | [], h => by cases h
  | node :: rest, h => by
      rw [expansionsRefusal?, Option.or_eq_some_iff] at h
      rcases h with h | ⟨-, h⟩
      · exact isOver_of_expansionRefusal? node h
      · split at h
        · exact isOver_of_expansionsRefusal? rest h
        · cases h

lemma isOver_of_rowsRefusal? : ∀ (nodes : List Node) {index : Nat} {group : RowGroup},
    group.IsOf data → rowsRefusal? data index group nodes = some refusal → refusal.IsOver data
  | [], _, _, hgroup, h => isOver_of_groupRefusal? hgroup h
  | node :: rest, index, group, hgroup, h => by
      -- a child that is copied as it is, after the group before it
      have hplain : ∀ {number : Nat}, ((groupRefusal? group).or (expansionRefusal? data node)).or
          (match expandNode data node with
            | .ok _ => rowsRefusal? data number none rest
            | .error _ => none) = some refusal → refusal.IsOver data := by
        intro number h
        rw [Option.or_eq_some_iff, Option.or_eq_some_iff] at h
        rcases h with (h | ⟨-, h⟩) | ⟨-, h⟩
        · exact isOver_of_groupRefusal? hgroup h
        · exact isOver_of_expansionRefusal? node h
        · split at h
          · exact isOver_of_rowsRefusal? rest RowGroup.isOf_none h
          · cases h
      rw [rowsRefusal?] at h
      split at h
      · rw [Option.or_eq_some_iff] at h
        rcases h with h | ⟨-, h⟩
        · exact isOver_of_rowRefusal? h
        · split at h
          · cases h
          · exact hplain h
          · next binding hbinding =>
              have hstart := RowGroup.isOf_of_analyzeRow hbinding [node]
              split at h
              · next current rows =>
                  split at h
                  · exact isOver_of_rowsRefusal? rest (hgroup.with_row node) h
                  · rw [Option.or_eq_some_iff] at h
                    rcases h with h | ⟨-, h⟩
                    · exact isOver_of_groupRefusal? hgroup h
                    · exact isOver_of_rowsRefusal? rest hstart h
              · exact isOver_of_rowsRefusal? rest hstart h
      · exact hplain h

end

/-! ### Whole merges -/

lemma isOver_of_fillRefusal? {tree : Node} (h : fillRefusal? tree data = some refusal) :
    refusal.IsOver data := by
  rw [fillRefusal?_eq] at h
  obtain ⟨p, -, h⟩ := List.exists_of_findSome?_eq_some h
  exact isOver_of_textRefusal? h

/-- **A merge is refused only over an integer of the data or over a numeral,** with too many digits
each. -/
theorem isOver_of_mergeRefusal? {tree : Node} (h : mergeRefusal? tree data = some refusal) :
    refusal.IsOver data := by
  rw [mergeRefusal?, Option.or_eq_some_iff] at h
  rcases h with h | ⟨-, h⟩
  · exact isOver_of_sectionsRefusal? _ h
  · split at h
    · cases h
    · rw [Option.or_eq_some_iff] at h
      rcases h with h | ⟨-, h⟩
      · exact isOver_of_expansionRefusal? _ h
      · split at h
        · cases h
        · exact isOver_of_fillRefusal? h

end

/-! ## Numbers that signal -/

section

variable {data : Value} {path : Path}

lemma lookup_ne_signal {entries : List (Key × Value)} {segment : Text} :
    lookup entries segment path ≠ .error .signal := by
  unfold lookup
  split <;> simp

lemma descend_ne_signal {segment : Text} {value : Value} :
    descend path segment value ≠ .error .signal := by
  have hmember : ∀ items, listMember items segment ≠ .error .signal := by
    intro items h
    rcases bind_eq_error.mp h with h | ⟨position, -, h⟩
    · unfold listPosition at h
      split at h <;> simp at h
    · split at h <;> simp at h
  cases value with
  | mapping entries =>
      intro h
      rw [descend] at h
      cases hentry : lookup entries segment path with
      | ok entry => simp [hentry] at h
      | error reason =>
          rw [hentry, map_error, Except.error.injEq] at h
          exact lookup_ne_signal (h ▸ hentry)
  | list items => exact hmember items
  | tuple items => exact hmember items
  | _ => simp [descend]

lemma traverseFrom_ne_signal : ∀ {segments : List Text} {value : Value},
    traverseFrom path segments value ≠ .error .signal
  | [], _ => by simp [traverseFrom]
  | segment :: rest, value => by
      rw [traverseFrom]
      intro h
      rcases bind_eq_error.mp h with h | ⟨next, -, h⟩
      · exact descend_ne_signal h
      · exact traverseFrom_ne_signal h

/-- A condition signals only if its path leads to a number that does. -/
lemma exists_signalling (h : isTruthy data path = .error .signal) :
    ∃ negative payload, traverse data path = .ok (.decimal (.nan negative true payload)) := by
  rcases bind_eq_error.mp h with h | ⟨value, hvalue, h⟩
  · exact absurd h traverseFrom_ne_signal
  · unfold Value.truth? at h
    split at h
    all_goals cases h
    next negative payload => exact ⟨negative, payload, hvalue⟩

/-- The data hold a number that signals, and a path leads to it. -/
def Signals (data : Value) : Prop :=
  ∃ path negative payload, traverse data path = .ok (.decimal (.nan negative true payload))

variable {cause : Cause}

lemma signals_of_editsOfBlocks {segments : List Segment} (hforeign : cause.isForeign = true) :
    ∀ {blocks : List Block}, editsOfBlocks segments data blocks = .error cause →
      cause = .signal ∧ Signals data
  | [], h => by cases h
  | block :: rest, h => by
      rw [editsOfBlocks] at h
      rcases bind_eq_error.mp h with h | ⟨first, -, h⟩
      · rcases bind_eq_error.mp h with h | ⟨sited, -, h⟩
        · obtain ⟨error, -, rfl⟩ := mapError_eq_error.mp h
          cases hforeign
        · rcases bind_eq_error.mp h with h | ⟨holds, -, h⟩
          · obtain ⟨reason, hreason, rfl⟩ := mapError_eq_error.mp h
            cases reason with
            | signal => exact ⟨rfl, block.condition.path, exists_signalling hreason⟩
            | _ => cases hforeign
          · cases h
      · rcases bind_eq_error.mp h with h | ⟨others, -, h⟩
        · exact signals_of_editsOfBlocks hforeign h
        · cases h

lemma signals_of_resolvePass (hforeign : cause.isForeign = true) {tree : Node}
    (h : resolvePass tree data = .error cause) : cause = .signal ∧ Signals data := by
  rw [resolvePass] at h
  split at h
  · cases h
  · rcases bind_eq_error.mp h with h | ⟨blocks, -, h⟩
    · obtain ⟨error, -, rfl⟩ := mapError_eq_error.mp h
      cases hforeign
    · rcases bind_eq_error.mp h with h | ⟨edits, -, h⟩
      · exact signals_of_editsOfBlocks hforeign h
      · cases h

/-- What fails without a bound is a matter of templates, unless the data hold a number that
signals. -/
lemma signals_of_mergeTree (hforeign : cause.isForeign = true) {tree : Node}
    (h : mergeTree tree data = .error cause) : cause = .signal ∧ Signals data := by
  rw [mergeTree] at h
  rcases bind_eq_error.mp h with h | ⟨resolved, -, h⟩
  · obtain ⟨last, -, hpass⟩ := resolveSections_eq_error.mp h
    exact signals_of_resolvePass hforeign hpass
  · rcases bind_eq_error.mp h with h | ⟨⟨expanded, aliases⟩, -, h⟩
    · rcases bind_eq_error.mp h with h | ⟨expansion, -, h⟩
      · obtain ⟨row, keys, rfl⟩ := expandNode_eq_error resolved h
        cases hforeign
      · cases h
    · obtain ⟨cause, hfill, rfl⟩ := mapError_eq_error.mp h
      obtain ⟨failures, rfl⟩ := fillTree_eq_error hfill
      cases hforeign

end

/-! ## Merging a part -/

/-- **Merging a part ends in a failure of the interpreter** only over a number that signals, or over
an integer or a numeral with too many digits. -/
theorem foreign_of_renderNamed {data : Value} {name : String} {tree : Node} {error : RenderError}
    (h : Template.renderNamed data name tree = .error error)
    (hforeign : error.cause.isForeign = true) :
    error.cause = .signal ∧ Signals data
      ∨ ∃ refusal, error.cause = .refused refusal ∧ refusal.IsOver data := by
  rw [Template.renderNamed] at h
  split at h
  · obtain ⟨cause, hfill, rfl⟩ := mapError_eq_error.mp h
    rcases unlessRefused_eq_error.mp hfill with ⟨found, hfound, rfl⟩ | ⟨-, hfill⟩
    · exact .inr ⟨found, rfl, isOver_of_fillRefusal? hfound⟩
    · obtain ⟨failures, rfl⟩ := fillTree_eq_error hfill
      cases hforeign
  · obtain ⟨cause, hmerge, rfl⟩ := mapError_eq_error.mp h
    rcases unlessRefused_eq_error.mp hmerge with ⟨found, hfound, rfl⟩ | ⟨-, hmerge⟩
    · exact .inr ⟨found, rfl, isOver_of_mergeRefusal? hfound⟩
    · exact .inl (signals_of_mergeTree hforeign hmerge)

end FormLetter
