import FormLetter.Proofs.Agreement
import FormLetter.Proofs.Passes

/-!
# Texts of the data are only ever shown

A merge looks at the data in four ways: it follows paths, decides conditions, counts the items of
lists, and shows the text of scalars.  Only the last of them sees the characters of a text, and what
it shows is not looked at again.  So data whose texts are replaced by others steer a merge in the
same way, as long as empty texts stay empty and no others become empty.

* `Value.reword` — data with every text among its values replaced.  Keys are left alone.
* **Access.** `traverse_reword`, `listNamed?_reword`, `isTruthy_reword` — paths lead to the same
  place and fail for the same reason, and conditions are decided alike.
* **Stages.** `resolveSections_reword`, `expandTables_reword`, `failuresIn_reword` — sections and
  tables come out equal, and the same placeholders fail.
* `Fills` — a tree is a template whose placeholders gave way to what their paths show.
  `renderTree_reword` — the two merges fail alike, or fill one and the same template.
-/

namespace FormLetter

/-! ## Replacing texts -/

mutual

/-- The data with every text among its values replaced, at any depth; keys are left alone. -/
def Value.reword (f : Text → Text) : Value → Value
  | .text t => .text (f t)
  | .list items => .list (rewordAll f items)
  | .tuple items => .tuple (rewordAll f items)
  | .mapping entries => .mapping (rewordEntries f entries)
  | .null => .null
  | .truth b => .truth b
  | .int i => .int i
  | .binary x => .binary x
  | .decimal n => .decimal n
  | .symbol name => .symbol name
  | .bytes bs => .bytes bs

/-- Several pieces of data with every text replaced. -/
def Value.rewordAll (f : Text → Text) : List Value → List Value
  | [] => []
  | item :: rest => reword f item :: rewordAll f rest

/-- Entries with every text among their values replaced. -/
def Value.rewordEntries (f : Text → Text) : List (Key × Value) → List (Key × Value)
  | [] => []
  | (key, value) :: rest => (key, reword f value) :: rewordEntries f rest

end

/-- The entry with every text of its value replaced. -/
def rewordEntry (f : Text → Text) (entry : Key × Value) : Key × Value :=
  (entry.1, entry.2.reword f)

section

variable {f : Text → Text}

lemma rewordAll_eq_map (items : List Value) :
    Value.rewordAll f items = items.map (Value.reword f) := by
  induction items with
  | nil => rfl
  | cons item rest ih => rw [Value.rewordAll, ih, List.map_cons]

lemma rewordEntries_eq_map (entries : List (Key × Value)) :
    Value.rewordEntries f entries = entries.map (rewordEntry f) := by
  induction entries with
  | nil => rfl
  | cons entry rest ih => rw [Value.rewordEntries, ih, List.map_cons, rewordEntry]

lemma reword_mapping (entries : List (Key × Value)) :
    (Value.mapping entries).reword f = .mapping (entries.map (rewordEntry f)) := by
  rw [Value.reword, rewordEntries_eq_map]

lemma items?_reword (value : Value) :
    (value.reword f).items? = value.items?.map (List.map (Value.reword f)) := by
  cases value with
  | list items => rw [Value.reword, rewordAll_eq_map]; rfl
  | tuple items => rw [Value.reword, rewordAll_eq_map]; rfl
  | _ => rfl

lemma kind_reword (value : Value) : (value.reword f).kind = value.kind := by
  cases value <;> rfl

lemma hasKey_reword (value : Value) (segment : Text) :
    hasKey (value.reword f) segment = hasKey value segment := by
  cases value with
  | mapping entries =>
      rw [reword_mapping, hasKey, hasKey, List.any_map]
      rfl
  | _ => rfl

/-! ## Access -/

lemma matchingEntries_reword (entries : List (Key × Value)) (segment : Text) :
    matchingEntries (entries.map (rewordEntry f)) segment
      = ((matchingEntries entries segment).1.map (rewordEntry f),
        (matchingEntries entries segment).2.map (rewordEntry f)) := by
  simp only [matchingEntries, List.filter_map]
  rfl

lemma shownKeys_reword (entries : List (Key × Value)) :
    shownKeys (entries.map (rewordEntry f)) = shownKeys entries := by
  rw [shownKeys, shownKeys, List.map_map]
  rfl

lemma lookup_reword (entries : List (Key × Value)) (segment : Text) (path : Path) :
    lookup (entries.map (rewordEntry f)) segment path
      = (lookup entries segment path).map (rewordEntry f) := by
  unfold lookup
  rw [matchingEntries_reword]
  obtain ⟨symbolic, textual⟩ := matchingEntries entries segment
  have hs := shownKeys_reword (f := f) symbolic
  have ht := shownKeys_reword (f := f) textual
  have hambiguous : ∀ keys keys', keys = keys' →
      (.error (.ambiguousKey segment keys) : Except Reason (Key × Value))
        = .error (.ambiguousKey segment keys') := fun _ _ h => by rw [h]
  -- no entry, one entry or more of each flavour
  match symbolic, textual with
  | [], [] => rfl
  | [_], [] => rfl
  | _ :: _ :: _, [] => exact hambiguous _ _ hs
  | [], [_] => rfl
  | [], _ :: _ :: _ => exact hambiguous _ _ ht
  | _ :: rest, _ :: others =>
      have hconflict := congrArg₂ (fun keys keys' => Except.error (α := Key × Value)
        (Reason.conflictingKeys segment (keys.headD []) (keys'.headD []))) hs ht
      cases rest <;> cases others <;> exact hconflict

lemma findUnique?_reword (entries : List (Key × Value)) (segment : Text) :
    findUnique? (entries.map (rewordEntry f)) segment
      = (findUnique? entries segment).map (rewordEntry f) := by
  unfold findUnique?
  rw [matchingEntries_reword]
  simp only [← List.map_append]
  match (matchingEntries entries segment).1 ++ (matchingEntries entries segment).2 with
  | [] => rfl
  | [(key, value)] => cases key <;> rfl
  | a :: b :: rest => simp

/-- A segment names the list that it named. -/
theorem listNamed?_reword (data : Value) (segment : Text) :
    listNamed? (data.reword f) segment
      = (listNamed? data segment).map fun (key, items) => (key, items.map (Value.reword f)) := by
  cases data with
  | mapping entries =>
      rw [reword_mapping, listNamed?, listNamed?, findUnique?_reword]
      cases findUnique? entries segment with
      | none => rfl
      | some entry =>
          simp only [Option.map_some, rewordEntry, items?_reword, Option.map_map]
          rfl
  | _ => rfl

lemma listMember_reword (items : List Value) (segment : Text) :
    listMember (items.map (Value.reword f)) segment
      = (listMember items segment).map (Value.reword f) := by
  rw [listMember, listMember]
  cases listPosition segment with
  | error reason => rfl
  | ok position =>
      rw [ok_bind, ok_bind, List.getElem?_map, List.length_map]
      cases items[position]? <;> rfl

lemma descend_reword (path : Path) (segment : Text) (value : Value) :
    descend path segment (value.reword f) = (descend path segment value).map (Value.reword f) := by
  cases value with
  | mapping entries =>
      rw [reword_mapping, descend, descend, lookup_reword]
      cases lookup entries segment path <;> rfl
  | list items => rw [Value.reword, rewordAll_eq_map, descend, descend, listMember_reword]
  | tuple items => rw [Value.reword, rewordAll_eq_map, descend, descend, listMember_reword]
  | _ => rfl

lemma traverseFrom_reword (path : Path) : ∀ (segments : List Text) (value : Value),
    traverseFrom path segments (value.reword f)
      = (traverseFrom path segments value).map (Value.reword f)
  | [], _ => rfl
  | segment :: rest, value => by
      rw [traverseFrom, traverseFrom, descend_reword]
      cases descend path segment value with
      | error reason => rfl
      | ok next => exact traverseFrom_reword path rest next

/-- A path leads to the value that it led to, reworded. -/
theorem traverse_reword (data : Value) (path : Path) :
    traverse (data.reword f) path = (traverse data path).map (Value.reword f) :=
  traverseFrom_reword path path data

/-- A path fails to show a text for the reason for which it failed. -/
theorem valueText_reword_error {data : Value} {path : Path} {reason : Reason} :
    valueText (data.reword f) path = .error reason ↔ valueText data path = .error reason := by
  cases path with
  | nil => rw [valueText, valueText, kind_reword]
  | cons head rest =>
      show (traverse (data.reword f) (head :: rest) >>= Value.display) = .error reason
        ↔ (traverse data (head :: rest) >>= Value.display) = .error reason
      rw [traverse_reword]
      cases traverse data (head :: rest) with
      | error other => rfl
      | ok value => cases value <;> simp [Value.reword, Value.display, Value.kind]

/-- **Conditions are decided alike,** since a text counts by whether it is empty. -/
theorem isTruthy_reword (hf : ∀ t, f t = [] ↔ t = []) (data : Value) (path : Path) :
    isTruthy (data.reword f) path = isTruthy data path := by
  rw [isTruthy, isTruthy, traverse_reword]
  cases traverse data path with
  | error reason => rfl
  | ok value =>
      cases value with
      | text t =>
          have hempty : (f t).isEmpty = t.isEmpty := by
            rw [Bool.eq_iff_iff, List.isEmpty_iff, List.isEmpty_iff, hf]
          simp [Value.reword, Value.truth?, hempty]
      | _ => rfl

end

/-! ## Sections -/

section

variable {data data' : Value} (h : ∀ path, isTruthy data path = isTruthy data' path)

include h

lemma resolvePass_of_same_truth (tree : Node) : resolvePass tree data = resolvePass tree data' := by
  simp only [resolvePass, editsOfBlocks_congr fun block _ => h block.condition.path]

lemma LoopEnds.of_same_truth {tree : Node} {outcome : Except Cause Node}
    (hends : LoopEnds data tree outcome) : LoopEnds data' tree outcome := by
  induction hends with
  | failed hpass => exact .failed (resolvePass_of_same_truth h _ ▸ hpass)
  | finished hpass => exact .finished (resolvePass_of_same_truth h _ ▸ hpass)
  | again hpass hcount _ ih => exact .again (resolvePass_of_same_truth h _ ▸ hpass) hcount ih

/-- Sections depend on the data through the truth values of conditions only. -/
theorem resolveSections_of_same_truth (tree : Node) :
    resolveSections tree data = resolveSections tree data' :=
  ((loopEnds_resolveSections tree data).of_same_truth h).eq

end

section

variable {f : Text → Text}

theorem resolveSections_reword (hf : ∀ t, f t = [] ↔ t = []) (tree : Node) (data : Value) :
    resolveSections tree (data.reword f) = resolveSections tree data :=
  resolveSections_of_same_truth (isTruthy_reword hf data) tree

/-! ## Tables -/

/-- The binding to the list with reworded items. -/
def RowBinding.reword (f : Text → Text) (binding : RowBinding) : RowBinding :=
  ⟨binding.key, binding.segment, binding.items.map (Value.reword f)⟩

/-- The scope of the reworded item. -/
def RowScope.reword (f : Text → Text) (scope : RowScope) : RowScope :=
  ⟨scope.segment, scope.item.reword f, scope.index⟩

lemma distinctBindings_reword (bindings : List RowBinding) :
    distinctBindings (bindings.map (RowBinding.reword f))
      = (distinctBindings bindings).map (RowBinding.reword f) := by
  induction bindings with
  | nil => rfl
  | cons binding rest ih =>
      rw [List.map_cons, distinctBindings, distinctBindings, ih, List.filter_map, List.map_cons]
      rfl

lemma bindingOf?_reword (data : Value) (segment : Text) :
    bindingOf? (data.reword f) segment
      = (bindingOf? data segment).map (RowBinding.reword f) := by
  rw [bindingOf?, bindingOf?, listNamed?_reword, Option.map_map, Option.map_map]
  rfl

lemma rowBindings_reword (data : Value) (row : Node) :
    rowBindings (data.reword f) row = (rowBindings data row).map (RowBinding.reword f) := by
  simp only [rowBindings, bindingOf?_reword]
  rw [← List.map_filterMap, distinctBindings_reword]

lemma analyzeRow_reword (data : Value) (index : Nat) (row : Node) :
    analyzeRow (data.reword f) index row
      = (analyzeRow data index row).map (Option.map (RowBinding.reword f)) := by
  rw [analyzeRow, analyzeRow, rowBindings_reword]
  match rowBindings data row with
  | [] => rfl
  | [binding] => rfl
  | first :: second :: rest =>
      simp only [List.map_cons, List.map_map]
      rfl

/-- What a placeholder is redirected to depends on the keys of the item. -/
lemma token_reword (scope : RowScope) : (scope.reword f).token = scope.token := by
  have hresolve : ∀ path, (scope.reword f).resolve path = scope.resolve path := by
    intro path
    cases path with
    | nil => rfl
    | cons head rest => simp only [RowScope.resolve, RowScope.reword, hasKey_reword]
  funext placeholder
  rw [RowScope.token, RowScope.token, hresolve]

lemma scopes_reword (binding : RowBinding) :
    (binding.reword f).scopes = binding.scopes.map (RowScope.reword f) := by
  simp only [RowBinding.scopes, RowBinding.reword, List.zipIdx_map, List.map_map]
  rfl

lemma repeatRows_reword (binding : RowBinding) (rows : List Node) :
    repeatRows (binding.reword f) rows = repeatRows binding rows := by
  have hcopy : ∀ scope, bindRow (scope.reword f) = bindRow scope := fun scope => by
    funext row
    rw [bindRow, bindRow, token_reword]
  have haliases : ∀ scope, rowAliases (scope.reword f) = rowAliases scope := fun scope => by
    funext row
    simp only [rowAliases, token_reword]
  simp only [repeatRows, scopes_reword, List.flatMap_map, hcopy, haliases]

/-- The group with the binding to the list of reworded items. -/
def RowGroup.reword (f : Text → Text) (group : RowGroup) : RowGroup :=
  group.map fun (binding, rows) => (binding.reword f, rows)

lemma settleRows_reword (group : RowGroup) : settleRows (group.reword f) = settleRows group := by
  cases group with
  | none => rfl
  | some pair => exact repeatRows_reword pair.1 pair.2

mutual

/-- **Tables are expanded alike.** -/
theorem expandNode_reword (data : Value) : ∀ node : Node,
    expandNode (data.reword f) node = expandNode data node
  | .text _ => rfl
  | .element tag children => by
      rw [expandNode, expandNode, expandAll_reword data children,
        show (none : RowGroup) = RowGroup.reword f none from rfl,
        expandRows_reword data children 0 none]
      rfl

theorem expandAll_reword (data : Value) : ∀ nodes : List Node,
    expandAll (data.reword f) nodes = expandAll data nodes
  | [] => rfl
  | node :: rest => by
      rw [expandAll, expandAll, expandNode_reword data node, expandAll_reword data rest]

theorem expandRows_reword (data : Value) : ∀ (nodes : List Node) (index : Nat) (group : RowGroup),
    expandRows (data.reword f) index (group.reword f) nodes = expandRows data index group nodes
  | [], _, group => by rw [expandRows, expandRows, settleRows_reword]
  | node :: rest, index, group => by
      have hnone : ∀ n, expandRows (data.reword f) n none rest = expandRows data n none rest :=
        fun n => expandRows_reword data rest n none
      have hsome : ∀ n binding rows,
          expandRows (data.reword f) n (some (binding.reword f, rows)) rest
            = expandRows data n (some (binding, rows)) rest :=
        fun n binding rows => expandRows_reword data rest n (some (binding, rows))
      rw [expandRows, expandRows, expandNode_reword data node, settleRows_reword,
        analyzeRow_reword]
      split
      · cases analyzeRow data index node with
        | error cause => rfl
        | ok binding? =>
            cases binding? with
            | none => simp only [map_ok, ok_bind, Option.map_none, hnone]
            | some binding =>
                cases group with
                | none => exact hsome _ _ _
                | some pair =>
                    obtain ⟨current, rows⟩ := pair
                    simp only [map_ok, ok_bind, Option.map_some, RowGroup.reword, hsome]
                    rfl
      · simp only [hnone]

end

theorem expandTables_reword (tree : Node) (data : Value) :
    expandTables tree (data.reword f) = expandTables tree data := by
  rw [expandTables, expandTables, expandNode_reword]

/-! ## Filling in -/

lemma failure?_reword (data : Value) (p : Piece) :
    failure? (p.fill (data.reword f)) = failure? (p.fill data) := by
  cases p with
  | char c => rfl
  | token token =>
      obtain ⟨body, meaning⟩ := token
      cases meaning with
      | placeholder path =>
          simp only [Piece.fill]
          cases hvalue : valueText data path with
          | error reason => rw [valueText_reword_error.mpr hvalue]
          | ok value =>
              cases hother : valueText (data.reword f) path with
              | ok other => rfl
              | error reason => simp [valueText_reword_error.mp hother] at hvalue
      | opening path => rfl
      | alternative => rfl
      | closing => rfl

/-- The same placeholders of a text fail, for the same reasons. -/
theorem failuresIn_reword (data : Value) (t : Text) :
    failuresIn (data.reword f) t = failuresIn data t :=
  List.filterMap_congr fun p _ => failure?_reword data p

end

/-- What a piece becomes when placeholders show these texts: a placeholder the text that its path
shows, escaped, and all else itself. -/
def Piece.spliced (shown : Path → Text) : Piece → Text
  | .char c => [c]
  | .token t =>
    match t.meaning with
    | .placeholder path => escapeValue (shown path)
    | _ => t.text

/-- The text with the texts that its placeholders show in their places. -/
def spliced (shown : Path → Text) (t : Text) : Text := (pieces t).flatMap (Piece.spliced shown)

/-- The result is the template with each placeholder replaced by the escaped text that the data show
for its path; all of them show one. -/
def Fills (data : Value) (template result : Node) : Prop :=
  ∃ shown : Path → Text,
    (∀ t ∈ template.texts, ∀ p ∈ placeholders t, valueText data p.path = .ok (shown p.path))
      ∧ result = template.mapText (spliced shown)

/-- What a path shows; nothing if it fails. -/
def shownAt (data : Value) (path : Path) : Text :=
  match valueText data path with
  | .ok t => t
  | .error _ => []

/-- A placeholder of a text is one of its pieces. -/
lemma failure?_of_mem_placeholders {data : Value} {t : Text} {p : Placeholder}
    (hp : p ∈ placeholders t) (hnone : failuresIn data t = []) :
    valueText data p.path = .ok (shownAt data p.path) := by
  obtain ⟨token, hmem, hmeaning, -⟩ := exists_token_of_mem_placeholders hp
  have hfill := List.filterMap_eq_nil_iff.mp hnone _ hmem
  simp only [Piece.fill, hmeaning] at hfill
  rw [shownAt]
  cases hvalue : valueText data p.path with
  | ok value => rfl
  | error reason => simp [hvalue, failure?] at hfill

lemma spliced_shownAt {data : Value} {p : Piece} (hnone : failure? (p.fill data) = none) :
    filledText (p.fill data) = p.spliced (shownAt data) := by
  cases p with
  | char c => rfl
  | token token =>
      obtain ⟨body, meaning⟩ := token
      cases meaning with
      | placeholder path =>
          simp only [Piece.fill, Piece.spliced, shownAt] at hnone ⊢
          cases hvalue : valueText data path with
          | ok value => rfl
          | error reason => simp [hvalue, failure?] at hnone
      | opening path => rfl
      | alternative => rfl
      | closing => rfl

/-- Filling in succeeds with the template filled. -/
lemma fills_of_fillTree {template result : Node} {data : Value}
    (h : fillTree template data = .ok result) : Fills data template result := by
  rw [fillTree] at h
  split at h
  · next hempty =>
      have hnone : ∀ t ∈ template.texts, failuresIn data t = [] :=
        List.flatMap_eq_nil_iff.mp (List.isEmpty_iff.mp hempty)
      refine ⟨shownAt data, fun t ht p hp => failure?_of_mem_placeholders hp (hnone t ht), ?_⟩
      rw [← Except.ok.inj h]
      refine mapText_congr template fun t ht => ?_
      rw [fillText, hnone t ht, List.isEmpty_nil, if_pos rfl, spliced]
      exact List.flatMap_congr fun p hp =>
        spliced_shownAt (List.filterMap_eq_nil_iff.mp (hnone t ht) p hp)
  · simp at h

lemma fillTree_reword {f : Text → Text} (template : Node) (data : Value) :
    (∃ cause, fillTree template (data.reword f) = .error cause
        ∧ fillTree template data = .error cause)
      ∨ ∃ result result', fillTree template (data.reword f) = .ok result'
        ∧ fillTree template data = .ok result := by
  have hsame : template.texts.flatMap (failuresIn (data.reword f))
      = template.texts.flatMap (failuresIn data) :=
    List.flatMap_congr fun t _ => failuresIn_reword data t
  rw [fillTree, fillTree, hsame]
  split_ifs
  · exact Or.inr ⟨_, _, rfl, rfl⟩
  · exact Or.inl ⟨_, rfl, rfl⟩

/-! ## The whole merge -/

/-- Two merges, with data and with the data reworded, fail with one cause, or fill one template. -/
lemma mergeTree_reword {f : Text → Text} (hf : ∀ t, f t = [] ↔ t = []) (tree : Node)
    (data : Value) :
    (∃ cause, mergeTree tree (data.reword f) = .error cause ∧ mergeTree tree data = .error cause)
      ∨ ∃ resolved template aliases result result',
        resolveSections (joinRuns tree) data = .ok resolved
          ∧ expandTables resolved data = .ok (template, aliases)
          ∧ mergeTree tree (data.reword f) = .ok result' ∧ mergeTree tree data = .ok result
          ∧ Fills (data.reword f) template result' ∧ Fills data template result := by
  simp only [mergeTree, resolveSections_reword hf, expandTables_reword]
  cases hresolved : resolveSections (joinRuns tree) data with
  | error cause => exact Or.inl ⟨cause, rfl, rfl⟩
  | ok resolved =>
      simp only [ok_bind]
      cases hexpanded : expandTables resolved data with
      | error cause => exact Or.inl ⟨cause, rfl, rfl⟩
      | ok expansion =>
          obtain ⟨template, aliases⟩ := expansion
          simp only [ok_bind]
          rcases fillTree_reword (f := f) template data with
            ⟨cause, hleft, hright⟩ | ⟨result, result', hleft, hright⟩
          · exact Or.inl ⟨_, by rw [hleft]; rfl, by rw [hright]; rfl⟩
          · exact Or.inr ⟨resolved, template, aliases, result, result', rfl, hexpanded,
              by rw [hleft]; rfl, by rw [hright]; rfl, fills_of_fillTree hleft,
              fills_of_fillTree hright⟩

/-- **Texts of the data never steer a template.**  Replace all texts among the values of the data by
others, so that empty texts stay empty and no others become empty.  Then the merge fails with an
error exactly if it failed with this error.  When it succeeds, the two documents have the same
elements in the same order, and both are one expanded template, in which each placeholder has given
way to what its path shows, escaped. -/
theorem renderTree_reword {f : Text → Text} (hf : ∀ t, f t = [] ↔ t = []) (tree : Node)
    (data : Value) (part : Option String) :
    (∀ error, renderTree tree (data.reword f) part = .error error
        ↔ renderTree tree data part = .error error)
      ∧ ∀ result, renderTree tree data part = .ok result →
        ∃ resolved template aliases result',
          resolveSections (joinRuns tree) data = .ok resolved
            ∧ expandTables resolved data = .ok (template, aliases)
            ∧ renderTree tree (data.reword f) part = .ok result'
            ∧ result'.skeleton = result.skeleton
            ∧ Fills data template result ∧ Fills (data.reword f) template result' := by
  rw [renderTree, renderTree]
  rcases mergeTree_reword hf tree data with ⟨cause, hleft, hright⟩ |
    ⟨resolved, template, aliases, result, result', hresolved, hexpanded, hleft, hright, hfills',
      hfills⟩
  · rw [hleft, hright]
    exact ⟨fun _ => Iff.rfl, fun _ h => by simp at h⟩
  · rw [hleft, hright]
    refine ⟨fun _ => by simp, fun other h => ?_⟩
    obtain rfl := Except.ok.inj h
    refine ⟨resolved, template, aliases, result', hresolved, hexpanded, rfl, ?_, hfills, hfills'⟩
    obtain ⟨shown, -, rfl⟩ := hfills
    obtain ⟨shown', -, rfl⟩ := hfills'
    rw [skeleton_mapText, skeleton_mapText]

/-- Texts that read like markers and markup, in a condition, in a row and in a paragraph. -/
theorem renderTree_reword_markers :
    let paragraph := fun t : String =>
      Node.element ⟨Word.paragraph, [], []⟩ [Word.makeRun t.toList none]
    let body := fun children => Node.element ⟨Word.named "body", [], []⟩ children
    let row := fun t => Node.element ⟨Word.row, [], []⟩ [paragraph t]
    let table := fun rows : List String => Node.element ⟨Word.table, [], []⟩ (rows.map row)
    let tree := body [paragraph "@if:a@Dear @a@@endif@", table ["@l.x@ of @n@"]]
    let items : List Value :=
      [.mapping [(.text ['x'], .text ['b'])], .mapping [(.text ['x'], .int 2)]]
    let data : Value := .mapping [(.text ['a'], .text "Ann".toList), (.text ['l'], .list items),
      (.text ['n'], .text [])]
    let f := fun t : Text => if t = [] then [] else "@l.x@<@endif@".toList
    (∀ t, f t = [] ↔ t = [])
      ∧ renderTree tree data none
        = .ok (body [paragraph "Dear Ann", table ["b of ", "2 of "]])
      ∧ renderTree tree (data.reword f) none
        = .ok (body [paragraph "Dear @l.x@&lt;@endif@", table ["@l.x@&lt;@endif@ of ", "2 of "]])
      ∧ (∀ error, renderTree tree (data.reword f) none = .error error
        ↔ renderTree tree data none = .error error)
      ∧ ∀ result, renderTree tree data none = .ok result →
        ∃ resolved template aliases result',
          resolveSections (joinRuns tree) data = .ok resolved
            ∧ expandTables resolved data = .ok (template, aliases)
            ∧ renderTree tree (data.reword f) none = .ok result'
            ∧ result'.skeleton = result.skeleton
            ∧ Fills data template result ∧ Fills (data.reword f) template result' := by
  intro paragraph body row table tree items data f
  have hf : ∀ t, f t = [] ↔ t = [] := by
    intro t
    simp only [f]
    split_ifs with h
    · exact ⟨fun _ => h, fun _ => rfl⟩
    · exact ⟨fun hnil => by simp at hnil, fun hnil => absurd hnil h⟩
  exact ⟨hf, by decide +kernel, by decide +kernel, renderTree_reword hf tree data none⟩

end FormLetter
