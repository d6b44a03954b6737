import FormLetter.Merge.Substitution
import FormLetter.Proofs.Cutting
import FormLetter.Proofs.Outcomes
import FormLetter.Proofs.Respelling

/-!
# Items as scopes

The copy of a row for an item of a list is meant to be read in the scope of the item: its keys come
first, then those of the data as a whole, and the key of the list stands for the item itself.  No
such scope is ever built.  The copy is filled from the data like the rest of the document, and its
placeholders have been redirected so that it makes no difference.

* `RowScope.merged` — the scope, as the mapping that it would be.
* `RowScope.Within` — what row expansion knows of the list: its segment is a name, and exactly one
  key of the data matches it.  `within_of_mem_scopes` — every copy is made under this condition.
* `valueText_resolve` — a redirected path has the text in the data that the path has in the scope,
  and fails for the same reason.  A missing key is reported with the whole path, and there the two
  differ; `Reason.withoutPath` leaves it out.
* `bindRow_refines_merged` — so the copy, filled from the data, is the row filled from the scope.

Paths are compared by their first segments: the list's own, a key of the item, or neither.  In each
case the entries that match the segment in the scope are those that match where the redirected path
looks (`matched_merged_list`, `matched_merged_item`, `matched_merged_data`), so that ambiguous and
conflicting keys are carried over as well.
-/

namespace FormLetter

/-! ## Reasons without paths -/

/-- The reason without the path that was followed. -/
def Reason.withoutPath : Reason → Reason
  | .pathNotFound _ => .pathNotFound []
  | reason => reason

/-- The reasons for which placeholders failed, in order; other causes have none. -/
def Cause.reasons : Cause → List Reason
  | .placeholders failures => failures.map (·.reason.withoutPath)
  | _ => []

/-! ## Entries that match a segment -/

lemma sameFolded_iff {s t : Text} : Text.sameFolded s t = true ↔ s.foldCase = t.foldCase := by
  simp [Text.sameFolded]

/-- The entries whose key matches a segment, of either flavour. -/
def matched (entries : List (Key × Value)) (segment : Text) : List (Key × Value) :=
  entries.filter fun entry => Text.sameFolded entry.1.shown segment

lemma matched_cons (entry : Key × Value) (entries : List (Key × Value)) (segment : Text) :
    matched (entry :: entries) segment
      = if Text.sameFolded entry.1.shown segment = true then entry :: matched entries segment
        else matched entries segment := by
  rw [matched, List.filter_cons]
  rfl

lemma matchingEntries_eq (entries : List (Key × Value)) (segment : Text) :
    matchingEntries entries segment
      = ((matched entries segment).filter (·.1.isSymbolic),
        (matched entries segment).filter (!·.1.isSymbolic)) := rfl

/-- What a lookup finds depends on the entries that match. -/
lemma lookup_congr {es es' : List (Key × Value)} {segment : Text} (path path' : Path)
    (h : matched es segment = matched es' segment) :
    (lookup es segment path).mapError Reason.withoutPath
      = (lookup es' segment path').mapError Reason.withoutPath := by
  unfold lookup
  rw [matchingEntries_eq, matchingEntries_eq, h]
  split <;> rfl

lemma lookup_of_matched {es : List (Key × Value)} {segment : Text} {entry : Key × Value}
    (h : matched es segment = [entry]) (path : Path) : lookup es segment path = .ok entry := by
  unfold lookup
  rw [matchingEntries_eq, h]
  cases hs : entry.1.isSymbolic <;> simp [hs]

lemma matched_of_findUnique? {es : List (Key × Value)} {segment : Text} {entry : Key × Value}
    (h : findUnique? es segment = some entry) : matched es segment = [entry] := by
  unfold findUnique? at h
  rw [matchingEntries_eq] at h
  simp only at h
  have hperm := List.filter_append_perm (fun e : Key × Value => e.1.isSymbolic) (matched es segment)
  split at h
  · simp at h
  · next e _ heq =>
      rw [heq] at hperm
      rw [List.perm_singleton.mp hperm.symm, Option.some.inj h]
  · simp at h

/-! ## The path in a report is all that depends on the path -/

lemma descend_withoutPath (path path' : Path) (segment : Text) (value : Value) :
    (descend path segment value).mapError Reason.withoutPath
      = (descend path' segment value).mapError Reason.withoutPath := by
  cases value with
  | mapping entries =>
      rw [descend, descend, mapError_map, mapError_map, lookup_congr path path' rfl]
  | list items => rfl
  | tuple items => rfl
  | _ => rfl

lemma traverseFrom_withoutPath (path path' : Path) : ∀ (segments : List Text) (value : Value),
    (traverseFrom path segments value).mapError Reason.withoutPath
      = (traverseFrom path' segments value).mapError Reason.withoutPath
  | [], _ => rfl
  | segment :: rest, value => by
      rw [traverseFrom, traverseFrom, mapError_bind, mapError_bind,
        descend_withoutPath path path' segment value]
      exact bind_congr fun next => traverseFrom_withoutPath path path' rest next

/-- Two values agree along paths that start with a segment if it names the same entries in both. -/
lemma traverseFrom_congr {es es' : List (Key × Value)} {head : Text} (path path' : Path)
    (rest : List Text) (h : matched es head = matched es' head) :
    (traverseFrom path (head :: rest) (.mapping es)).mapError Reason.withoutPath
      = (traverseFrom path' (head :: rest) (.mapping es')).mapError Reason.withoutPath := by
  rw [traverseFrom, traverseFrom, mapError_bind, mapError_bind, descend, descend, mapError_map,
    mapError_map, lookup_congr path path' h]
  exact bind_congr fun next => traverseFrom_withoutPath path path' rest next

/-! ## What row expansion knows of a list -/

/-- The scope is an item of a list: its segment is a name, the only key of the data that matches the
segment is this one, and the item stands at its position in the list under the key. -/
structure RowScope.Within (scope : RowScope) (key : Key) (data : Value) : Prop where
  isName : isName scope.segment = true
  inList : ∃ items, listNamed? data scope.segment = some (key, items)
    ∧ items[scope.index]? = some scope.item

lemma mem_of_mem_distinctBindings {binding : RowBinding} :
    ∀ {bindings : List RowBinding}, binding ∈ distinctBindings bindings → binding ∈ bindings
  | [], h => by simp [distinctBindings] at h
  | first :: rest, h => by
      rw [distinctBindings, List.mem_cons] at h
      rcases h with rfl | h
      · exact List.mem_cons_self
      · exact List.mem_cons_of_mem _ (mem_of_mem_distinctBindings (List.mem_filter.mp h).1)

lemma isSpellable_of_mem_placeholders {t : Text} {p : Placeholder} (h : p ∈ placeholders t) :
    p.path.isSpellable = true := by
  obtain ⟨token, hmem, hmeaning, -⟩ := exists_token_of_mem_placeholders h
  have hbody := meaning_of_mem_pieces hmem
  rw [hmeaning] at hbody
  exact (dotted_of_placeholder hbody).2

/-- The first segment of a placeholder is a name. -/
lemma isName_of_mem_placeholders {t : Text} {p : Placeholder} (h : p ∈ placeholders t) :
    isName (p.path.headD []) = true := by
  have hs := isSpellable_of_mem_placeholders h
  cases hpath : p.path with
  | nil => simp [hpath, Path.isSpellable] at hs
  | cons first rest =>
      rw [hpath, Path.isSpellable, Bool.and_eq_true] at hs
      exact hs.1

/-- A row is bound to a list by a name, and the name stands for the list in the data. -/
theorem binding_of_analyzeRow {data : Value} {index : Nat} {row : Node} {binding : RowBinding}
    (h : analyzeRow data index row = .ok (some binding)) :
    isName binding.segment = true
      ∧ listNamed? data binding.segment = some (binding.key, binding.items) := by
  have hmem : binding ∈ rowBindings data row := by
    rw [analyzeRow] at h
    split at h
    · simp at h
    · next b heq =>
        obtain rfl := Option.some.inj (Except.ok.inj h)
        rw [heq]
        exact List.mem_cons_self
    · simp at h
  obtain ⟨p, hp, hb⟩ := List.mem_filterMap.mp (mem_of_mem_distinctBindings hmem)
  obtain ⟨t, -, hp⟩ := List.mem_flatMap.mp hp
  obtain ⟨⟨key, items⟩, hlist, rfl⟩ := Option.map_eq_some_iff.mp hb
  exact ⟨isName_of_mem_placeholders hp, hlist⟩

/-- Copies are made for the items of the list that the row is bound to. -/
theorem within_of_mem_scopes {data : Value} {index : Nat} {row : Node} {binding : RowBinding}
    {scope : RowScope} (h : analyzeRow data index row = .ok (some binding))
    (hscope : scope ∈ binding.scopes) : scope.Within binding.key data := by
  obtain ⟨hname, hlist⟩ := binding_of_analyzeRow h
  obtain ⟨⟨item, position⟩, hmem, rfl⟩ := List.mem_map.mp hscope
  exact ⟨hname, binding.items, hlist, List.mem_zipIdx_iff_getElem?.mp hmem⟩

/-! ## The scope of an item -/

/-- The entries of a mapping; other values have none. -/
def Value.entries : Value → List (Key × Value)
  | .mapping entries => entries
  | _ => []

lemma hasKey_eq_any (value : Value) (segment : Text) :
    hasKey value segment
      = value.entries.any fun entry => Text.sameFolded entry.1.shown segment := by
  cases value <;> rfl

lemma hasKey_congr (value : Value) {s t : Text} (h : s.foldCase = t.foldCase) :
    hasKey value s = hasKey value t := by
  simp only [hasKey_eq_any, Text.sameFolded, h]

lemma hasKey_eq_false {value : Value} {segment : Text} (h : hasKey value segment = false) :
    matched value.entries segment = [] := by
  rw [hasKey_eq_any, List.any_eq_false] at h
  exact List.filter_eq_nil_iff.mpr h

/-- What a segment matches in the scope of an item: the key of the list, with the item for the list,
the entries of the item except those that the segment of the list matches, and the entries of the
data except those that it or a key of the item matches. -/
def RowScope.mergedEntries (scope : RowScope) (key : Key) (data : Value) : List (Key × Value) :=
  (key, scope.item)
    :: (scope.item.entries.filter fun entry => !Text.sameFolded entry.1.shown scope.segment)
    ++ data.entries.filter fun entry =>
      !Text.sameFolded entry.1.shown scope.segment && !hasKey scope.item entry.1.shown

/-- The scope of an item. -/
def RowScope.merged (scope : RowScope) (key : Key) (data : Value) : Value :=
  .mapping (scope.mergedEntries key data)

section

variable {scope : RowScope} {key : Key} {data : Value}

lemma RowScope.Within.eq_mapping (h : scope.Within key data) : data = .mapping data.entries := by
  obtain ⟨-, items, hlist, -⟩ := h
  cases data with
  | mapping entries => rfl
  | _ => simp [listNamed?] at hlist

/-- In the data, the segment of the list finds the list. -/
lemma RowScope.Within.matched_segment (h : scope.Within key data) :
    ∃ value items, matched data.entries scope.segment = [(key, value)]
      ∧ value.items? = some items ∧ items[scope.index]? = some scope.item := by
  have hdata := h.eq_mapping
  obtain ⟨-, items, hlist, hitem⟩ := h
  rw [hdata] at hlist
  simp only [listNamed?] at hlist
  split at hlist
  · next k value hfind =>
      obtain ⟨items', hitems, heq⟩ := Option.map_eq_some_iff.mp hlist
      obtain ⟨rfl, rfl⟩ := Prod.mk.inj heq
      exact ⟨value, items', matched_of_findUnique? hfind, hitems, hitem⟩
  · simp at hlist

lemma RowScope.Within.key_matches (h : scope.Within key data) :
    key.shown.foldCase = scope.segment.foldCase := by
  obtain ⟨value, items, hmatched, -, -⟩ := h.matched_segment
  have hmem : (key, value) ∈ matched data.entries scope.segment := by
    rw [hmatched]
    exact List.mem_cons_self
  exact sameFolded_iff.mp (List.mem_filter.mp hmem).2

/-- The list's own segment: only the key of the list is left to match it. -/
lemma matched_merged_list (h : scope.Within key data) {head : Text}
    (hhead : head.foldCase = scope.segment.foldCase) :
    matched (scope.mergedEntries key data) head = [(key, scope.item)] := by
  have hrest : ∀ entry : Key × Value,
      Text.sameFolded entry.1.shown scope.segment = false
        → ¬ Text.sameFolded entry.1.shown head = true := fun entry hne heq => by
    rw [sameFolded_iff, hhead, ← sameFolded_iff, hne] at heq
    simp at heq
  rw [RowScope.mergedEntries, List.cons_append, matched_cons,
    if_pos (sameFolded_iff.mpr (h.key_matches.trans hhead.symm)), List.cons_inj_right, matched,
    List.filter_eq_nil_iff]
  intro entry hmem
  rw [List.mem_append, List.mem_filter, List.mem_filter, Bool.and_eq_true, Bool.not_eq_true',
    Bool.not_eq_true'] at hmem
  exact hmem.elim (fun hm => hrest entry hm.2) (fun hm => hrest entry hm.2.1)

/-- Any other segment misses the key of the list. -/
lemma matched_merged_of_ne (h : scope.Within key data) {head : Text}
    (hhead : head.foldCase ≠ scope.segment.foldCase) :
    matched (scope.mergedEntries key data) head
      = matched scope.item.entries head
        ++ (matched data.entries head).filter fun _ => !hasKey scope.item head := by
  have hkey : ¬ Text.sameFolded key.shown head = true := by
    rw [sameFolded_iff, h.key_matches]
    exact hhead.symm
  rw [RowScope.mergedEntries, List.cons_append, matched_cons, if_neg hkey]
  simp only [matched, List.filter_append, List.filter_filter]
  congr 1
  · refine List.filter_congr fun entry _ => ?_
    rw [Bool.eq_iff_iff, Bool.and_eq_true, Bool.not_eq_true', and_iff_left_iff_imp]
    intro heq
    rw [Bool.eq_false_iff, Ne, sameFolded_iff, sameFolded_iff.mp heq]
    exact hhead
  · refine List.filter_congr fun entry _ => ?_
    rw [Bool.eq_iff_iff]
    simp only [Bool.and_eq_true, Bool.not_eq_true']
    have hsame : Text.sameFolded entry.1.shown head = true →
        Text.sameFolded entry.1.shown scope.segment = false
          ∧ hasKey scope.item entry.1.shown = hasKey scope.item head := by
      intro heq
      rw [Bool.eq_false_iff, Ne, sameFolded_iff, sameFolded_iff.mp heq]
      exact ⟨hhead, hasKey_congr scope.item (sameFolded_iff.mp heq)⟩
    constructor
    · rintro ⟨heq, -, hkeys⟩
      exact ⟨(hsame heq).2 ▸ hkeys, heq⟩
    · rintro ⟨hkeys, heq⟩
      exact ⟨heq, (hsame heq).1, (hsame heq).2.trans hkeys⟩

/-- A segment that a key of the item matches: the entries of the item hide those of the data. -/
lemma matched_merged_item (h : scope.Within key data) {head : Text}
    (hhead : head.foldCase ≠ scope.segment.foldCase) (hitem : hasKey scope.item head = true) :
    matched (scope.mergedEntries key data) head = matched scope.item.entries head := by
  rw [matched_merged_of_ne h hhead, hitem]
  simp

/-- A segment that no key of the item matches keeps its meaning. -/
lemma matched_merged_data (h : scope.Within key data) {head : Text}
    (hhead : head.foldCase ≠ scope.segment.foldCase) (hitem : hasKey scope.item head = false) :
    matched (scope.mergedEntries key data) head = matched data.entries head := by
  rw [matched_merged_of_ne h hhead, hitem, hasKey_eq_false hitem]
  simp

/-! ## Redirected paths -/

lemma digitsValue_ofNat (n : Nat) : digitsValue (Text.ofNat n) = n := by
  have h := Nat.ofDigitChars_ten_toDigits (n := n)
  rw [Nat.ofDigitChars_eq_foldl] at h
  exact h

lemma descend_items {value item : Value} {items : List Value} {index : Nat} (path : Path)
    (hitems : value.items? = some items) (hitem : items[index]? = some item) :
    descend path (Text.ofNat index) value = .ok item := by
  have hmember : listMember items (Text.ofNat index) = .ok item := by
    rw [listMember, listPosition, if_pos (isNumeral_ofNat index), digitsValue_ofNat, ok_bind,
      hitem]
  cases value with
  | list members =>
      obtain rfl := Option.some.inj hitems
      exact hmember
  | tuple members =>
      obtain rfl := Option.some.inj hitems
      exact hmember
  | _ => simp [Value.items?] at hitems

/-- The segment of the list and the position of the item lead to the item. -/
lemma traverseFrom_item (h : scope.Within key data) (path : Path) (rest : List Text) :
    traverseFrom path (scope.segment :: Text.ofNat scope.index :: rest) data
      = traverseFrom path rest scope.item := by
  obtain ⟨value, items, hmatched, hitems, hitem⟩ := h.matched_segment
  rw [h.eq_mapping, traverseFrom, descend, lookup_of_matched hmatched, map_ok, ok_bind,
    traverseFrom, descend_items path hitems hitem, ok_bind]

/-- A redirected path leads in the data to where the path leads in the scope of the item. -/
theorem traverse_resolve (h : scope.Within key data) (head : Text) (rest : List Text) :
    (traverse data (scope.resolve (head :: rest))).mapError Reason.withoutPath
      = (traverse (scope.merged key data) (head :: rest)).mapError Reason.withoutPath := by
  rw [traverse, traverse, RowScope.merged, RowScope.resolve]
  by_cases hlist : Text.sameFolded head scope.segment = true
  · have hmatched := matched_merged_list h (sameFolded_iff.mp hlist)
    rw [if_pos hlist, traverseFrom_item h, traverseFrom, descend, lookup_of_matched hmatched,
      map_ok, ok_bind]
    exact traverseFrom_withoutPath _ _ rest scope.item
  · have hne : head.foldCase ≠ scope.segment.foldCase := fun heq => hlist (sameFolded_iff.mpr heq)
    rw [if_neg hlist]
    cases hitem : hasKey scope.item head with
    | true =>
        have hentries : scope.item = .mapping scope.item.entries := by
          cases hi : scope.item with
          | mapping entries => rfl
          | _ => simp [hi, hasKey] at hitem
        rw [if_pos rfl, traverseFrom_item h, hentries]
        exact traverseFrom_congr _ _ rest (matched_merged_item h hne hitem).symm
    | false =>
        -- the path is not redirected, and the item hides nothing from it
        rw [if_neg Bool.false_ne_true]
        conv_lhs => rw [h.eq_mapping]
        exact traverseFrom_congr _ _ rest (matched_merged_data h hne hitem).symm

/-- **A redirected path has the text in the data that the path has in the scope of the item,** and
if it has none, the reason is the same. -/
theorem valueText_resolve (h : scope.Within key data) (path : Path) :
    (valueText data (scope.resolve path)).mapError Reason.withoutPath
      = (valueText (scope.merged key data) path).mapError Reason.withoutPath := by
  cases path with
  | nil =>
      rw [h.eq_mapping]
      rfl
  | cons head rest =>
      obtain ⟨first, others, hresolve⟩ : ∃ first others,
          scope.resolve (head :: rest) = first :: others := by
        rw [RowScope.resolve]
        split_ifs <;> exact ⟨_, _, rfl⟩
      have htraverse := traverse_resolve h head rest
      rw [hresolve] at htraverse ⊢
      rw [valueText, valueText, mapError_bind, mapError_bind, htraverse]
      · simp
      · simp

end

/-! ## Changed text -/

mutual

lemma texts_mapText (f : Text → Text) : ∀ node : Node, (node.mapText f).texts = node.texts.map f
  | .text _ => rfl
  | .element _ children => textsOf_mapTextOf f children

lemma textsOf_mapTextOf (f : Text → Text) : ∀ nodes : List Node,
    Node.textsOf (Node.mapTextOf f nodes) = (Node.textsOf nodes).map f
  | [] => rfl
  | node :: rest => by
      rw [Node.mapTextOf, Node.textsOf, Node.textsOf, List.map_append, texts_mapText f node,
        textsOf_mapTextOf f rest]

end

mutual

/-- Changes of text that agree on the texts of a tree, one of them in two steps. -/
lemma mapText_mapText {f g k : Text → Text} : ∀ node : Node, (∀ t ∈ node.texts, g (f t) = k t) →
    (node.mapText f).mapText g = node.mapText k
  | .text value, h => by
      rw [Node.mapText, Node.mapText, Node.mapText, h value (by simp [Node.texts])]
  | .element tag children, h => by
      rw [Node.mapText, Node.mapText, Node.mapText, mapTextOf_mapTextOf children h]

lemma mapTextOf_mapTextOf {f g k : Text → Text} : ∀ nodes : List Node,
    (∀ t ∈ Node.textsOf nodes, g (f t) = k t) →
      Node.mapTextOf g (Node.mapTextOf f nodes) = Node.mapTextOf k nodes
  | [], _ => rfl
  | node :: rest, h => by
      rw [Node.textsOf] at h
      rw [Node.mapTextOf, Node.mapTextOf, Node.mapTextOf,
        mapText_mapText node fun t ht => h t (List.mem_append_left _ ht),
        mapTextOf_mapTextOf rest fun t ht => h t (List.mem_append_right _ ht)]

end

/-- Changing text keeps everything else. -/
lemma skeleton_mapText (f : Text → Text) (node : Node) :
    (node.mapText f).skeleton = node.skeleton :=
  mapText_mapText node fun _ _ => rfl

/-! ## Copies -/

section

variable {scope : RowScope} {key : Key} {data : Value}

/-- A redirected piece becomes in the data what the piece becomes in the scope of the item. -/
lemma fill_redirect (h : scope.Within key data) (p : Piece) :
    ((scope.redirect p).fill data).mapError (·.reason.withoutPath)
      = (p.fill (scope.merged key data)).mapError (·.reason.withoutPath) := by
  cases p with
  | char c => rfl
  | token token =>
      obtain ⟨body, meaning⟩ := token
      cases meaning with
      | placeholder path =>
          have hvalue := valueText_resolve h path
          simp only [RowScope.redirect, Piece.fill]
          cases hd : valueText data (scope.resolve path) <;>
            cases hm : valueText (scope.merged key data) path <;>
            simp_all
      | opening path => rfl
      | alternative => rfl
      | closing => rfl

lemma failure?_congr {x y : Except Failure Text}
    (h : x.mapError (·.reason.withoutPath) = y.mapError (·.reason.withoutPath)) :
    (failure? x).map (·.reason.withoutPath) = (failure? y).map (·.reason.withoutPath) := by
  cases x <;> cases y <;> simp_all [failure?]

lemma filledText_congr {x y : Except Failure Text}
    (h : x.mapError (·.reason.withoutPath) = y.mapError (·.reason.withoutPath)) :
    filledText x = filledText y := by
  cases x <;> cases y <;> simp_all [filledText]

lemma failuresIn_bound (h : scope.Within key data) (t : Text) :
    (failuresIn data (mapPlaceholders scope.token t)).map (·.reason.withoutPath)
      = (failuresIn (scope.merged key data) t).map (·.reason.withoutPath) := by
  rw [failuresIn, failuresIn, pieces_bound h.isName, List.map_filterMap, List.map_filterMap,
    List.filterMap_map]
  exact List.filterMap_congr fun p _ => failure?_congr (fill_redirect h p)

/-- A text without failures is filled in alike. -/
lemma fillText_bound (h : scope.Within key data) {t : Text}
    (hnone : failuresIn (scope.merged key data) t = []) :
    fillText data (mapPlaceholders scope.token t) = fillText (scope.merged key data) t := by
  have hnone' : failuresIn data (mapPlaceholders scope.token t) = [] := by
    have hmap := failuresIn_bound h t
    rwa [hnone, List.map_nil, List.map_eq_nil_iff] at hmap
  rw [fillText, fillText, hnone, hnone', pieces_bound h.isName, List.flatMap_map]
  exact List.flatMap_congr fun p _ => filledText_congr (fill_redirect h p)

lemma fillTree_bindRow (h : scope.Within key data) (row : Node) :
    (fillTree (bindRow scope row) data).mapError Cause.reasons
      = (fillTree row (scope.merged key data)).mapError Cause.reasons := by
  have hreasons : (List.flatMap (failuresIn data) (bindRow scope row).texts).map
        (·.reason.withoutPath)
      = (List.flatMap (failuresIn (scope.merged key data)) row.texts).map
        (·.reason.withoutPath) := by
    rw [bindRow, texts_mapText, List.flatMap_map, List.map_flatMap, List.map_flatMap]
    exact List.flatMap_congr fun t _ => failuresIn_bound h t
  unfold fillTree
  cases hfail : List.flatMap (failuresIn (scope.merged key data)) row.texts with
  | nil =>
      rw [hfail, List.map_nil, List.map_eq_nil_iff] at hreasons
      rw [hreasons]
      simp only [List.isEmpty_nil, ↓reduceIte, mapError_ok]
      rw [bindRow, mapText_mapText row fun t ht =>
        fillText_bound h (List.flatMap_eq_nil_iff.mp hfail t ht)]
  | cons failure rest =>
      cases hfail' : List.flatMap (failuresIn data) (bindRow scope row).texts with
      | nil => simp [hfail, hfail'] at hreasons
      | cons failure' rest' =>
          rw [hfail, hfail'] at hreasons
          simp only [List.isEmpty_cons, Bool.false_eq_true, ↓reduceIte, mapError_error,
            Cause.reasons]
          rw [hreasons]

end

/-- **A copied row, filled from the data, is the row filled from the scope of its item.**  For every
item of the list that a row is bound to: each path of a placeholder, once redirected, has the same
text or fails for the same reason, and so has each row as a whole, with the tables inside it.  The
rows of a group are copied together under the binding of the first of them, so the row that is
copied need not be the one that was bound. -/
theorem bindRow_refines_merged {data : Value} {index : Nat} {first : Node} {binding : RowBinding}
    {scope : RowScope} (h : analyzeRow data index first = .ok (some binding))
    (hscope : scope ∈ binding.scopes) :
    (∀ path, (valueText data (scope.resolve path)).mapError Reason.withoutPath
        = (valueText (scope.merged binding.key data) path).mapError Reason.withoutPath)
      ∧ ∀ row, (fillTree (bindRow scope row) data).mapError Cause.reasons
        = (fillTree row (scope.merged binding.key data)).mapError Cause.reasons := by
  have hwithin := within_of_mem_scopes h hscope
  exact ⟨valueText_resolve hwithin, fillTree_bindRow hwithin⟩

theorem bindRow_refines_merged_second :
    let data : Value := .mapping
      [(.text ['l'], .list [.null, .mapping [(.text ['N'], .text ['b'])]]),
        (.text ['n'], .text ['a']), (.text ['m'], .truth true)]
    let row : Node := .element ⟨Word.row, [], []⟩ [.text "@L.n@@n@@m@@L@".toList]
    let item : Value := .mapping [(.text ['N'], .text ['b'])]
    let binding : RowBinding := ⟨.text ['l'], ['L'], [.null, item]⟩
    let scope : RowScope := ⟨['L'], item, 1⟩
    analyzeRow data 0 row = .ok (some binding) ∧ scope ∈ binding.scopes
      ∧ bindRow scope row
        = .element ⟨Word.row, [], []⟩ [.text "@L.1.n@@L.1.n@@m@@L.1@".toList]
      ∧ (∀ path, (valueText data (scope.resolve path)).mapError Reason.withoutPath
        = (valueText (scope.merged binding.key data) path).mapError Reason.withoutPath)
      ∧ ∀ row, (fillTree (bindRow scope row) data).mapError Cause.reasons
        = (fillTree row (scope.merged binding.key data)).mapError Cause.reasons := by
  intro data row item binding scope
  have hbound : analyzeRow data 0 row = .ok (some binding) := by rfl
  have hscope : scope ∈ binding.scopes := List.mem_cons_of_mem _ List.mem_cons_self
  exact ⟨hbound, hscope, by decide +kernel, bindRow_refines_merged hbound hscope⟩

end FormLetter
