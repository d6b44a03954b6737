import FormLetter.Merge.Bounded
import FormLetter.Proofs.RequiredKeys
import FormLetter.Proofs.Respelling
import FormLetter.Proofs.Splicing

/-!
# Merging under the interpreter's bound

A refused conversion ends a merge.  This file says what that does to two statements about merges
that meet none.

* **Filling in.** `boundedFill_complete` — the first placeholder whose resolution is refused decides,
  whatever failed before it; if there is none, filling in is all or nothing.
  `boundedFill_refuses_position` shows a template that is refused although its data are small.
* **Required keys.** A lookup shows every key of its mapping, so a merge does look at the keys that
  its template never asks for: it finds out whether they can be shown.  `AgreeOn.pathRefusal?`,
  `AgreeOn.expansionRefusal?` — data that agree at some keys, and of which both or neither can be
  looked into, are refused alike.  `boundedRender_reads_required_keys` — then they are merged alike,
  and `boundedRender_reads_other_keys` shows that else they may not be.
-/

namespace FormLetter

@[simp] lemma unlessRefused_none {α : Type} (outcome : Except Cause α) :
    unlessRefused none outcome = outcome := rfl

@[simp] lemma unlessRefused_some {α : Type} (refusal : Refusal) (outcome : Except Cause α) :
    unlessRefused (some refusal) outcome = .error (.refused refusal) := rfl

lemma unlessRefused_eq_ok {α : Type} {refusal : Option Refusal} {outcome : Except Cause α} {a : α} :
    unlessRefused refusal outcome = .ok a ↔ refusal = none ∧ outcome = .ok a := by
  cases refusal <;> simp

lemma unlessRefused_eq_error {α : Type} {refusal : Option Refusal} {outcome : Except Cause α}
    {cause : Cause} : unlessRefused refusal outcome = .error cause
      ↔ (∃ found, refusal = some found ∧ cause = .refused found)
        ∨ refusal = none ∧ outcome = .error cause := by
  cases refusal <;> simp [eq_comm]

/-! ## Filling in -/

lemma fillRefusal?_eq (tree : Node) (data : Value) : fillRefusal? tree data
    = (tree.texts.flatMap placeholders).findSome? fun p => textRefusal? data p.path := by
  rw [fillRefusal?]
  induction tree.texts with
  | nil => rfl
  | cons t rest ih =>
      rw [List.findSome?_cons, List.flatMap_cons, List.findSome?_append, ← ih, fillTextRefusal?]
      cases (placeholders t).findSome? fun p => textRefusal? data p.path <;> rfl

/-- What fails without a bound is the placeholders. -/
lemma fillTree_ne_refused {tree : Node} {data : Value} {refusal : Refusal} :
    fillTree tree data ≠ .error (.refused refusal) := by
  rw [fillTree_eq_valueFailures]
  split <;> simp

/-- **Filling in under a bound is all or nothing.**  It is refused exactly if the resolution of some
placeholder is, and the first one in document order says why.  If none is refused, filling in fails
exactly if some placeholder has no value that can be shown; it then reports the placeholders that
have none, each one where it occurs and all of them in order, with their own tokens, paths and
reasons.  Otherwise the result has the elements and the text nodes of the tree, and each text is
spliced: where a placeholder stood, the escaped text of its value stands, and everything between
placeholders is as before. -/
theorem boundedFill_complete (tree : Node) (data : Value) :
    (∀ refusal, boundedFill tree data = .error (.refused refusal) ↔
        ∃ before p after, tree.texts.flatMap placeholders = before ++ p :: after
          ∧ textRefusal? data p.path = some refusal
          ∧ ∀ q ∈ before, textRefusal? data q.path = none)
      ∧ ((∀ t ∈ tree.texts, ∀ p ∈ placeholders t, textRefusal? data p.path = none) →
        ((∃ cause, boundedFill tree data = .error cause) ↔
            ∃ t ∈ tree.texts, ∃ p ∈ placeholders t, ∃ reason, valueText data p.path = .error reason)
          ∧ (∀ cause, boundedFill tree data = .error cause →
              cause = .placeholders (valueFailures tree data))
          ∧ ∀ result, boundedFill tree data = .ok result →
              result.skeleton = tree.skeleton
                ∧ ∃ shown : Path → Text,
                    (∀ t ∈ tree.texts, ∀ p ∈ placeholders t,
                      valueText data p.path = .ok (shown p.path))
                    ∧ result.texts = tree.texts.map fun t =>
                        splice t 0
                          (newTexts (fun path => escapeValue (shown path)) (placeholders t))) := by
  refine ⟨fun refusal => ?_, fun hnone => ?_⟩
  · rw [boundedFill, fillRefusal?_eq]
    cases hfound : (tree.texts.flatMap placeholders).findSome? fun p => textRefusal? data p.path with
    | none =>
        refine ⟨fun h => absurd h fillTree_ne_refused, ?_⟩
        rintro ⟨before, p, after, heq, hp, -⟩
        have hall := List.findSome?_eq_none_iff.mp hfound p (by simp [heq])
        simp [hp] at hall
    | some found =>
        rw [unlessRefused_some, Except.error.injEq, Cause.refused.injEq]
        obtain ⟨before, p, after, heq, hp, hbefore⟩ := List.findSome?_eq_some_iff.mp hfound
        refine ⟨?_, ?_⟩
        · rintro rfl
          exact ⟨before, p, after, heq, hp, hbefore⟩
        · rintro ⟨before', p', after', heq', hp', hbefore'⟩
          have hfound' := List.findSome?_eq_some_iff.mpr ⟨before', p', after', heq', hp', hbefore'⟩
          exact Option.some.inj (hfound.symm.trans hfound')
  · have hnone' : fillRefusal? tree data = none := by
      rw [fillRefusal?_eq, List.findSome?_eq_none_iff]
      intro p hp
      obtain ⟨t, ht, hp⟩ := List.mem_flatMap.mp hp
      exact hnone t ht p hp
    rw [boundedFill, hnone', unlessRefused_none]
    exact fillTree_complete tree data

lemma isNumeral_zeros {n : Nat} (h : n ≠ 0) : isNumeral (List.replicate n '0') = true := by
  simp [isNumeral, h]

/-- Leading zeros do not change the value of a numeral. -/
lemma digitsValue_zeros (n : Nat) : digitsValue (List.replicate n '0') = 0 := by
  rw [digitsValue]
  induction n with
  | zero => rfl
  | succ n ih => rwa [List.replicate_succ, List.foldl_cons]

/-- A list position with thousands of leading zeros is refused, though the list has it. -/
theorem boundedFill_refuses_position :
    let zeros : Text := List.replicate 4301 '0'
    let tree := fun t : Text => Node.element ⟨"t", [], []⟩ [.text t]
    let data : Value := .mapping [(.text ['l'], .list [.text ['x']])]
    let path : Path := [['l'], zeros]
    fillTree (tree ('@' :: (path.dotted ++ ['@']))) data = .ok (tree ['x'])
      ∧ valueText data path = .ok ['x']
      ∧ boundedFill (tree ('@' :: (path.dotted ++ ['@']))) data
        = .error (.refused (.reading 4301)) := by
  intro zeros tree data path
  -- the digits are never looked at one by one
  have hnumeral : isNumeral zeros = true := isNumeral_zeros (by decide)
  have hlength : zeros.length = 4301 := List.length_replicate
  have hposition : listPosition zeros = .ok 0 := by
    rw [listPosition, if_pos hnumeral, digitsValue_zeros]
  clear_value zeros
  have hbody : Meaning.ofBody? path.dotted = some (.placeholder path) :=
    ofBody?_dotted (by simp [path, Path.isSpellable, hnumeral, isName, isNameStart]) le_rfl
  have hpieces : pieces ('@' :: (path.dotted ++ ['@']))
      = [.token ⟨path.dotted, .placeholder path⟩] := by
    have hspelled : pieces ([.token ⟨path.dotted, .placeholder path⟩].flatMap Piece.text)
        = [.token ⟨path.dotted, .placeholder path⟩] :=
      pieces_spell (List.forall_mem_singleton.mpr hbody)
    rwa [List.flatMap_singleton] at hspelled
  have hlist : lookup [(.text ['l'], .list [.text ['x']])] ['l'] path
      = .ok (.text ['l'], .list [.text ['x']]) := rfl
  have htext : valueText data path = .ok ['x'] := by
    simp only [valueText, traverse, path, traverseFrom, data, descend]
    rw [hlist]
    simp [listMember, hposition, Except.map, Value.display, bind, Except.bind]
  have hrefusal : textRefusal? data path = some (.reading 4301) := by
    simp only [textRefusal?, pathRefusal?, path, traversalRefusal?, data, descend]
    rw [hlist]
    simp [descentRefusal?, lookupRefusal?, Key.isShowable, Except.map, positionRefusal?, hnumeral,
      hlength, digitLimit]
  refine ⟨?_, htext, ?_⟩
  · simp [fillTree, tree, Node.texts, Node.textsOf, failuresIn, hpieces, Piece.fill, htext, failure?,
      Node.mapText, Node.mapTextOf, fillText, filledText, escapeValue]
  · have hplaceholders : placeholders ('@' :: (path.dotted ++ ['@']))
        = [⟨⟨0, '@' :: path.dotted ++ ['@']⟩, path⟩] := by
      rw [placeholders, tokens, hpieces]
      rfl
    simp [boundedFill, fillRefusal?_eq, tree, Node.texts, Node.textsOf, hplaceholders, hrefusal]

/-! ## Data that agree at some keys -/

section

variable {keys : List Text} {es es' : List (Key × Value)}

lemma pathRefusal?_congr (h : AgreeOn keys es es') (hshown : lookupRefusal? es = lookupRefusal? es')
    {path : Path} (hhead : (path.headD []).foldCase ∈ keys) :
    pathRefusal? (.mapping es) path = pathRefusal? (.mapping es') path := by
  cases path with
  | nil => rfl
  | cons head rest =>
      have hfirst : head.foldCase ∈ keys := hhead
      simp only [pathRefusal?, traversalRefusal?, descentRefusal?, descend, hshown,
        lookup_perm (h.matched hfirst)]

lemma textRefusal?_congr (h : AgreeOn keys es es') (hshown : lookupRefusal? es = lookupRefusal? es')
    {path : Path} (hhead : (path.headD []).foldCase ∈ keys) :
    textRefusal? (.mapping es) path = textRefusal? (.mapping es') path := by
  cases path with
  | nil => rfl
  | cons head rest =>
      have hfirst : head.foldCase ∈ keys := hhead
      simp only [textRefusal?, pathRefusal?_congr h hshown hhead, traverse, h.traverseFrom hfirst]

/-! ### Sections -/

lemma refusalOfBlocks?_congr (h : AgreeOn keys es es')
    (hshown : lookupRefusal? es = lookupRefusal? es') {segments : List Segment} :
    ∀ {blocks : List Block}, (∀ block ∈ blocks, (block.condition.path.headD []).foldCase ∈ keys) →
      refusalOfBlocks? segments (.mapping es) blocks
        = refusalOfBlocks? segments (.mapping es') blocks
  | [], _ => rfl
  | block :: rest, hblocks => by
      obtain ⟨hblock, hrest⟩ := List.forall_mem_cons.mp hblocks
      simp only [refusalOfBlocks?, Block.refusal?, Block.edits, h.isTruthy hblock,
        pathRefusal?_congr h hshown hblock, refusalOfBlocks?_congr h hshown hrest]

lemma passRefusal?_congr (h : AgreeOn keys es es') (hshown : lookupRefusal? es = lookupRefusal? es')
    {tree : Node} (htree : ∀ here condition, .opening here condition ∈ markers (flatText tree) →
      (condition.path.headD []).foldCase ∈ keys) :
    passRefusal? tree (.mapping es) = passRefusal? tree (.mapping es') := by
  rw [passRefusal?, passRefusal?]
  cases hpair : pair (markers (flatText tree)) with
  | error error => rfl
  | ok blocks =>
      refine refusalOfBlocks?_congr h hshown fun block hb => ?_
      obtain ⟨here, hmem⟩ := (nested_of_pair hpair).opening_mem hb
      exact htree here block.condition hmem

/-- Passes are refused alike, one after the other. -/
theorem sectionsRefusal?_congr (h : AgreeOn keys es es')
    (hshown : lookupRefusal? es = lookupRefusal? es') (tree : Node) (ht : Tokenized tree)
    (hasks : ∀ t ∈ tree.texts, AsksOnly keys t) :
    sectionsRefusal? tree (.mapping es) = sectionsRefusal? tree (.mapping es') := by
  have hopenings : ∀ here condition, .opening here condition ∈ markers (flatText tree) →
      (condition.path.headD []).foldCase ∈ keys := fun _ _ => opening_asks ht hasks
  rw [sectionsRefusal?, sectionsRefusal?, passRefusal?_congr h hshown hopenings,
    ← resolvePass_congr h hopenings]
  cases hpass : resolvePass tree (.mapping es) with
  | error cause => rfl
  | ok result =>
      obtain ⟨next, resolved⟩ := result
      by_cases hcount : resolved = 0
      · simp only [hcount, if_true]
      · have hpositive := Nat.pos_of_ne_zero hcount
        by_cases hlt : (flatText next).length < (flatText tree).length
        · have hrest := sectionsRefusal?_congr h hshown next (ht.pass hpass hpositive)
            fun t hmem q hq => by
              obtain ⟨u, hu, hqu⟩ := ht.pieces_pass hpass hpositive t hmem q hq
              exact hasks u hu q hqu
          simp only [hcount, if_false, hlt, if_true, hrest]
        · simp only [hcount, if_false, hlt]
termination_by (flatText tree).length

/-! ### Rows -/

mutual

/-- Tables are refused alike. -/
theorem expansionRefusal?_congr (h : AgreeOn keys es es')
    (hshown : lookupRefusal? es = lookupRefusal? es') : ∀ node : Node,
    (∀ t ∈ node.texts, AsksOnly keys t) →
      expansionRefusal? (.mapping es) node = expansionRefusal? (.mapping es') node
  | .text value, _ => rfl
  | .element tag children, hnode => by
      rw [expansionRefusal?, expansionRefusal?, rowsRefusal?_congr h hshown children hnode,
        expansionsRefusal?_congr h hshown children hnode]

theorem expansionsRefusal?_congr (h : AgreeOn keys es es')
    (hshown : lookupRefusal? es = lookupRefusal? es') : ∀ nodes : List Node,
    (∀ t ∈ Node.textsOf nodes, AsksOnly keys t) →
      expansionsRefusal? (.mapping es) nodes = expansionsRefusal? (.mapping es') nodes
  | [], _ => rfl
  | node :: rest, hnodes => by
      rw [Node.textsOf, List.forall_mem_append] at hnodes
      rw [expansionsRefusal?, expansionsRefusal?, expansionRefusal?_congr h hshown node hnodes.1,
        expandNode_congr h node hnodes.1, expansionsRefusal?_congr h hshown rest hnodes.2]

theorem rowsRefusal?_congr (h : AgreeOn keys es es')
    (hshown : lookupRefusal? es = lookupRefusal? es') : ∀ (nodes : List Node),
    (∀ t ∈ Node.textsOf nodes, AsksOnly keys t) → ∀ {index : Nat} {group : RowGroup},
      rowsRefusal? (.mapping es) index group nodes = rowsRefusal? (.mapping es') index group nodes
  | [], _, _, _ => rfl
  | node :: rest, hnodes, index, group => by
      rw [Node.textsOf, List.forall_mem_append] at hnodes
      have hrest : ∀ {index : Nat} {group : RowGroup},
          rowsRefusal? (.mapping es) index group rest
            = rowsRefusal? (.mapping es') index group rest :=
        rowsRefusal?_congr h hshown rest hnodes.2
      simp only [rowsRefusal?, rowRefusal?, hshown, analyzeRow, rowBindings_congr h hnodes.1,
        expansionRefusal?_congr h hshown node hnodes.1, expandNode_congr h node hnodes.1, hrest]

end

/-! ### Whole merges -/

lemma fillRefusal?_congr (h : AgreeOn keys es es') (hshown : lookupRefusal? es = lookupRefusal? es')
    {tree : Node} (htree : ∀ t ∈ tree.texts, AsksOnly keys t) :
    fillRefusal? tree (.mapping es) = fillRefusal? tree (.mapping es') := by
  rw [fillRefusal?_eq, fillRefusal?_eq, ← List.head?_filterMap, ← List.head?_filterMap]
  refine congrArg List.head? (List.filterMap_congr fun p hp => ?_)
  obtain ⟨t, ht, hp⟩ := List.mem_flatMap.mp hp
  exact textRefusal?_congr h hshown ((htree t ht).placeholder hp)

/-- **Merges of data that agree are refused alike,** if both or neither can be looked into. -/
theorem mergeRefusal?_congr (h : AgreeOn keys es es')
    (hshown : lookupRefusal? es = lookupRefusal? es') {tree : Node}
    (ht : Tokenized (joinRuns tree)) (hasks : ∀ t ∈ (joinRuns tree).texts, AsksOnly keys t) :
    mergeRefusal? tree (.mapping es) = mergeRefusal? tree (.mapping es') := by
  rw [mergeRefusal?, mergeRefusal?, sectionsRefusal?_congr h hshown _ ht hasks,
    ← resolveSections_congr h ht hasks]
  cases hsections : resolveSections (joinRuns tree) (.mapping es) with
  | error cause => rfl
  | ok resolved =>
      have hresolved := asksOnly_resolveSections hsections ht hasks
      simp only
      rw [expansionRefusal?_congr h hshown _ hresolved, ← expandTables_congr h hresolved]
      cases hrows : expandTables resolved (.mapping es) with
      | error cause => rfl
      | ok expansion =>
          simp only
          rw [fillRefusal?_congr h hshown (asksOnly_expandTables hrows hresolved)]

end

/-- **Required keys are all the data that a template looks at, but for whether keys can be shown.**
If every at-sign of the template, once its runs are joined, belongs to a token of its own text node,
then two mappings that hold the same entries at its required keys give the same document or the same
error, whatever else they hold and in whatever order, as long as the keys of both can be shown or
those of neither. -/
theorem boundedRender_reads_required_keys {tree : Node} {location : String} {part : Option String}
    {es es' : List (Key × Value)} (ht : Tokenized (joinRuns tree))
    (h : AgreeOn (inspectTree tree location).requiredKeys es es')
    (hshown : (es.all (·.1.isShowable)) = es'.all (·.1.isShowable)) :
    boundedRender tree (.mapping es) part = boundedRender tree (.mapping es') part := by
  have hlookup : lookupRefusal? es = lookupRefusal? es' := by
    rw [lookupRefusal?, lookupRefusal?, hshown]
  have hasks := asksOnly_requiredKeys location ht
  rw [boundedRender, boundedRender, mergeRefusal?_congr h hlookup ht hasks,
    mergeTree_congr h ht hasks]

/-- Entries in another order, and others beside them. -/
theorem boundedRender_reads_required_keys_table :
    let paragraph := fun t : String =>
      Node.element ⟨Word.paragraph, [], []⟩ [Word.makeRun t.toList none]
    let body := fun children => Node.element ⟨Word.named "body", [], []⟩ children
    let row := fun t => Node.element ⟨Word.row, [], []⟩ [paragraph t]
    let table := fun rows : List String => Node.element ⟨Word.table, [], []⟩ (rows.map row)
    let tree := body [table ["@l.x@ of @n@"], paragraph "@if:vip@Dear @endif@@Name@"]
    let vip : Key × Value := (.symbol "vip".toList, .truth true)
    let name : Key × Value := (.text "NAME".toList, .text "Ann".toList)
    let items := [.mapping [(.text ['x'], .int 1)], .mapping [(.symbol ['X'], .int 2)]]
    let list : Key × Value := (.text ['l'], .list items)
    let number : Key × Value := (.text ['n'], .int 3)
    let es := [vip, name, (.text ['x'], .int 7), list, number]
    let es' := [(.text ['y'], .list []), number, list, (.symbol ['x'], .null), name, vip]
    let keys := (inspectTree tree "document").requiredKeys
    let result := body [table ["1 of 3", "2 of 3"], paragraph "Dear Ann"]
    Tokenized (joinRuns tree) ∧ AgreeOn keys es es'
      ∧ es.all (·.1.isShowable) = es'.all (·.1.isShowable)
      ∧ boundedRender tree (.mapping es) none = .ok result
      ∧ boundedRender tree (.mapping es) none = boundedRender tree (.mapping es') none := by
  intro paragraph body row table tree vip name items list number es es' keys result
  have htree : ∀ t ∈ (joinRuns tree).texts, Piece.char '@' ∉ pieces t := by decide +kernel
  have htokenized : Tokenized (joinRuns tree) := fun t ht => isTokenized_iff.mpr (htree t ht)
  have hfound : ((addMentions [] (placedIn (joinRuns tree) "document")
      ++ addMentions [] (openedIn (joinRuns tree) "document")).map
        fun m => Text.lower (m.path.headD [])).foldl addOnce []
      = [['l'], ['n'], "name".toList, "vip".toList] := by decide +kernel
  have hkeys : keys = [['l'], ['n'], "name".toList, "vip".toList] := by
    rw [show keys = _ from requiredKeys_inspectTree tree "document", requiredKeysOf, hfound]
    exact List.mergeSort_of_pairwise (by decide)
  have hagree : AgreeOn keys es es' := by
    rw [hkeys]
    exact (List.reverse_perm [vip, name, list, number]).symm
  have hshown : es.all (·.1.isShowable) = es'.all (·.1.isShowable) := by decide +kernel
  exact ⟨htokenized, hagree, hshown, by decide +kernel,
    boundedRender_reads_required_keys htokenized hagree hshown⟩

/-- Numerals fold to themselves. -/
lemma foldCase_of_isNumeral {t : Text} (h : isNumeral t = true) : t.foldCase = t := by
  have hfold : ∀ c ∈ t, CaseFold.char c = [c] := by
    intro c hc
    have hdigit : c.isDigit = true := by
      simp only [isNumeral, Bool.and_eq_true, List.all_eq_true] at h
      exact h.2 c hc
    have hlast := of_decide_eq_true ((Bool.and_eq_true _ _).mp hdigit).2
    have hlower : c.toLower = c :=
      dif_neg fun hrange => absurd (UInt32.le_trans hrange.1 hlast) (by decide)
    rw [foldCase_of_isNameChar (isNameChar_of_isNumeral h hc), hlower]
  rw [Text.foldCase, List.flatMap_congr hfold, List.flatMap_singleton']

/-- A merge looks at a key that its template does not ask for, if only to find that its digits are
too many. -/
theorem boundedRender_reads_other_keys :
    let tree := fun t : String => Node.element ⟨"t", [], []⟩ [.text t.toList]
    let name : Key × Value := (.text "name".toList, .text ['x'])
    let es := [name]
    let es' := [name, (.int (.ofNat (Nat.pow 10 4300)), .null)]
    Tokenized (joinRuns (tree "@name@"))
      ∧ AgreeOn (inspectTree (tree "@name@") "document").requiredKeys es es'
      ∧ boundedRender (tree "@name@") (.mapping es) none = .ok (tree "x")
      ∧ boundedRender (tree "@name@") (.mapping es') none
        = .error ((Cause.refused .showing).inPart none) := by
  intro tree name es es'
  have htree : ∀ t ∈ (joinRuns (tree "@name@")).texts, Piece.char '@' ∉ pieces t := by
    decide +kernel
  have hfound : ((addMentions [] (placedIn (joinRuns (tree "@name@")) "document")
      ++ addMentions [] (openedIn (joinRuns (tree "@name@")) "document")).map
        fun m => Text.lower (m.path.headD [])).foldl addOnce [] = ["name".toList] := by
    decide +kernel
  have hkeys : (inspectTree (tree "@name@") "document").requiredKeys = ["name".toList] := by
    rw [requiredKeys_inspectTree, requiredKeysOf, hfound]
    exact List.mergeSort_of_pairwise (by decide)
  -- the digits of the key are no name, whichever they are
  have hother : ["name".toList].contains (Key.shown (.int (.ofNat (Nat.pow 10 4300)))).foldCase
      = false := by
    have hdigits : isNumeral (Text.ofNat (Nat.pow 10 4300)) = true := isNumeral_ofNat _
    have hshown : Key.shown (.int (.ofNat (Nat.pow 10 4300))) = Text.ofNat (Nat.pow 10 4300) := rfl
    rw [hshown, foldCase_of_isNumeral hdigits, List.contains_eq_mem, decide_eq_false_iff_not,
      List.mem_singleton]
    intro heq
    rw [heq] at hdigits
    exact absurd hdigits (by decide)
  have hsame : entriesAt ["name".toList] es' = entriesAt ["name".toList] es := by
    simp only [entriesAt, es', es, List.filter_cons, hother, Bool.false_eq_true, if_false,
      List.filter_nil]
  refine ⟨fun t ht => isTokenized_iff.mpr (htree t ht), ?_, by decide +kernel, by decide +kernel⟩
  rw [hkeys, AgreeOn, hsame]

end FormLetter
