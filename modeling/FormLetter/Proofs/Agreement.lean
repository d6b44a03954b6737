import Mathlib.Data.List.Lex
import FormLetter.Merge.Render
import FormLetter.Proofs.ItemScope
import FormLetter.Proofs.Nesting
import FormLetter.Proofs.SimpleRuns

/-!
# Data that agree at some keys

Each stage of a merge looks into the data through the first segments of paths, and each first
segment looks at the entries whose keys match it.  So data that hold the same entries at the keys
that a template asks for are one to the template.

* `AgreeOn` — two mappings hold the same entries at some keys, given in folded letters, in whatever
  order.  Reports list keys in the order of their texts, so the order of entries does not show
  (`ordered_congr`).
* **Access.** `AgreeOn.isTruthy`, `AgreeOn.valueText`, `AgreeOn.listNamed?` — the three ways in
  which stages use a path come to the same, failures included.
* `AsksOnly` — the tokens of a text name only such keys.
* **Stages.** `resolvePass_congr`, `expandTables_congr`, `fillTree_congr` — a stage over texts of
  this kind does the same with data that agree.
-/

namespace FormLetter

/-! ## Texts in order -/

lemma inOrder_eq_true {a b : Text} : Text.inOrder a b = true ↔ ¬ b < a := by
  rw [Text.inOrder, Bool.not_eq_true', ← Bool.not_eq_true]
  exact not_congr List.lex_eq_true_iff_lt

/-- Texts are listed from lesser to greater ones. -/
lemma pairwise_ordered (ts : List Text) :
    (Text.ordered ts).Pairwise fun a b => Text.inOrder a b = true := by
  have htrans : ∀ a b c : Text, Text.inOrder a b = true → Text.inOrder b c = true →
      Text.inOrder a c = true := by
    intro a b c hab hbc
    rw [inOrder_eq_true] at hab hbc ⊢
    exact List.le_trans hab hbc
  have htotal : ∀ a b : Text, (Text.inOrder a b || Text.inOrder b a) = true := by
    intro a b
    rw [Bool.or_eq_true, inOrder_eq_true, inOrder_eq_true]
    exact List.le_total a b
  exact List.pairwise_mergeSort htrans htotal ts

/-- Different texts are listed from lesser to greater ones, without a tie. -/
lemma pairwise_lt_ordered {ts : List Text} (h : ts.Nodup) :
    (Text.ordered ts).Pairwise (· < ·) := by
  have hnodup : (Text.ordered ts).Nodup := (List.mergeSort_perm ts _).nodup_iff.mpr h
  refine (hnodup.and (pairwise_ordered ts)).imp fun ⟨hne, hle⟩ => ?_
  by_contra hlt
  exact hne (List.le_antisymm (inOrder_eq_true.mp hle) hlt)

/-- Texts are listed in one order, in whatever order they are given. -/
lemma ordered_congr {ts us : List Text} (h : ts.Perm us) : Text.ordered ts = Text.ordered us := by
  have hperm : (Text.ordered ts).Perm (Text.ordered us) :=
    (List.mergeSort_perm ts _).trans (h.trans (List.mergeSort_perm us _).symm)
  refine hperm.eq_of_pairwise ?_ (pairwise_ordered ts) (pairwise_ordered us)
  intro a b _ _ hab hba
  rw [inOrder_eq_true] at hab hba
  exact List.le_antisymm hab hba

/-! ## Entries at some keys -/

/-- The entries whose key is among the given ones, up to letter case. -/
def entriesAt (keys : List Text) (entries : List (Key × Value)) : List (Key × Value) :=
  entries.filter fun entry => keys.contains entry.1.shown.foldCase

/-- Two mappings hold the same entries at the given keys; elsewhere they may differ. -/
def AgreeOn (keys : List Text) (es es' : List (Key × Value)) : Prop :=
  (entriesAt keys es).Perm (entriesAt keys es')

lemma matched_entriesAt {keys : List Text} {segment : Text} (hs : segment.foldCase ∈ keys)
    (es : List (Key × Value)) : matched (entriesAt keys es) segment = matched es segment := by
  rw [matched, entriesAt, List.filter_filter, matched]
  refine List.filter_congr fun entry _ => ?_
  rw [Bool.and_eq_left_iff_imp, sameFolded_iff, List.contains_iff_mem]
  intro heq
  rw [heq]
  exact hs

/-- A mapping agrees with what it holds at the keys. -/
lemma agreeOn_entriesAt (keys : List Text) (es : List (Key × Value)) :
    AgreeOn keys es (entriesAt keys es) := by
  have hself : entriesAt keys (entriesAt keys es) = entriesAt keys es := by
    simp [entriesAt, List.filter_filter]
  rw [AgreeOn, hself]

/-! ## What matches a segment, in whatever order -/

/-- Entries in another order are the same entries, unless there are several of them. -/
lemma perm_cases {α : Type} {l l' : List α} (h : l.Perm l') :
    l = [] ∧ l' = [] ∨ (∃ a, l = [a] ∧ l' = [a])
      ∨ ∃ a b r a' b' r', l = a :: b :: r ∧ l' = a' :: b' :: r' := by
  have hlength := h.length_eq
  match l, l' with
  | [], _ => exact Or.inl ⟨rfl, h.nil_eq.symm⟩
  | [a], _ => exact Or.inr (Or.inl ⟨a, rfl, List.perm_singleton.mp h.symm⟩)
  | a :: b :: r, a' :: b' :: r' => exact Or.inr (Or.inr ⟨a, b, r, a', b', r', rfl, rfl⟩)
  | a :: b :: r, [] => simp at hlength
  | a :: b :: r, [a'] => simp at hlength

lemma shownKeys_congr {es es' : List (Key × Value)} (h : es.Perm es') :
    shownKeys es = shownKeys es' :=
  ordered_congr (h.map _)

section

variable {es es' : List (Key × Value)} {segment : Text}
  (h : (matched es segment).Perm (matched es' segment))

include h

lemma lookup_perm (path : Path) : lookup es segment path = lookup es' segment path := by
  have hsymbolic := h.filter fun entry => entry.1.isSymbolic
  have htextual := h.filter fun entry => !entry.1.isSymbolic
  have hs := shownKeys_congr hsymbolic
  have ht := shownKeys_congr htextual
  unfold lookup
  rw [matchingEntries_eq, matchingEntries_eq]
  rcases perm_cases hsymbolic with ⟨ha, ha'⟩ | ⟨e, ha, ha'⟩ | ⟨_, _, _, _, _, _, ha, ha'⟩
  all_goals
    rcases perm_cases htextual with ⟨hb, hb'⟩ | ⟨f, hb, hb'⟩ | ⟨_, _, _, _, _, _, hb, hb'⟩
  all_goals
    rw [ha, ha'] at hs
    rw [hb, hb'] at ht
    simp only [ha, ha', hb, hb', hs, ht]

lemma findUnique?_perm : findUnique? es segment = findUnique? es' segment := by
  have hall := (h.filter fun entry => entry.1.isSymbolic).append
    (h.filter fun entry => !entry.1.isSymbolic)
  unfold findUnique?
  rw [matchingEntries_eq, matchingEntries_eq]
  rcases perm_cases hall with ⟨ha, ha'⟩ | ⟨e, ha, ha'⟩ | ⟨_, _, _, _, _, _, ha, ha'⟩
  all_goals simp only [ha, ha']

end

/-! ## Access to data that agree -/

namespace AgreeOn

variable {keys : List Text} {es es' : List (Key × Value)} (h : AgreeOn keys es es')

include h

lemma matched {segment : Text} (hs : segment.foldCase ∈ keys) :
    (matched es segment).Perm (FormLetter.matched es' segment) := by
  rw [← matched_entriesAt hs es, ← matched_entriesAt hs es']
  exact List.Perm.filter _ h

lemma traverseFrom {head : Text} (hhead : head.foldCase ∈ keys) (path rest : Path) :
    traverseFrom path (head :: rest) (.mapping es)
      = FormLetter.traverseFrom path (head :: rest) (.mapping es') := by
  rw [FormLetter.traverseFrom, FormLetter.traverseFrom, descend, descend,
    lookup_perm (h.matched hhead)]

/-- Conditions at a path are decided alike. -/
theorem isTruthy {path : Path} (hhead : (path.headD []).foldCase ∈ keys) :
    isTruthy (.mapping es) path = FormLetter.isTruthy (.mapping es') path := by
  cases path with
  | nil => rfl
  | cons head rest =>
      have hfirst : head.foldCase ∈ keys := hhead
      rw [FormLetter.isTruthy, FormLetter.isTruthy, traverse, traverse, h.traverseFrom hfirst]

/-- A path shows the same text. -/
theorem valueText {path : Path} (hhead : (path.headD []).foldCase ∈ keys) :
    valueText (.mapping es) path = FormLetter.valueText (.mapping es') path := by
  cases path with
  | nil => rfl
  | cons head rest =>
      have hfirst : head.foldCase ∈ keys := hhead
      show (traverse (.mapping es) (head :: rest) >>= Value.display)
        = (traverse (.mapping es') (head :: rest) >>= Value.display)
      rw [traverse, traverse, h.traverseFrom hfirst]

/-- A segment names the same list. -/
theorem listNamed? {segment : Text} (hs : segment.foldCase ∈ keys) :
    listNamed? (.mapping es) segment = FormLetter.listNamed? (.mapping es') segment := by
  rw [FormLetter.listNamed?, FormLetter.listNamed?, findUnique?_perm (h.matched hs)]

end AgreeOn

/-! ## What a text asks for -/

/-- The path into the data that a token holds. -/
def Meaning.path? : Meaning → Option Path
  | .placeholder path => some path
  | .opening path => some path
  | .alternative => none
  | .closing => none

/-- The piece names only keys among the given ones. -/
def Piece.AsksOnly (keys : List Text) : Piece → Prop
  | .char _ => True
  | .token t => ∀ path, t.meaning.path? = some path → (path.headD []).foldCase ∈ keys

/-- The tokens of the text name only keys among the given ones. -/
def AsksOnly (keys : List Text) (t : Text) : Prop := ∀ p ∈ pieces t, p.AsksOnly keys

lemma AsksOnly.placeholder {keys : List Text} {t : Text} (h : AsksOnly keys t) {p : Placeholder}
    (hp : p ∈ placeholders t) : (p.path.headD []).foldCase ∈ keys := by
  obtain ⟨token, hmem, hmeaning, -⟩ := exists_token_of_mem_placeholders hp
  exact h _ hmem _ (by rw [hmeaning]; rfl)

/-! ## Sections -/

/-- The condition of a section is that of an opening marker. -/
lemma Nested.opening_mem {ms : List Marker} {blocks : List Block} (h : Nested ms blocks)
    {block : Block} (hb : block ∈ blocks) :
    ∃ here, Marker.opening here block.condition ∈ ms := by
  induction h with
  | nil => simp at hb
  | @plain opening closing condition inner rest inside after hinner hrest _ ih =>
      rcases List.mem_cons.mp hb with rfl | hb
      · exact ⟨opening, List.mem_cons_self⟩
      · obtain ⟨here, hmem⟩ := ih hb
        exact ⟨here, by simp [hmem]⟩
  | @divided opening middle closing condition first second rest inside inside' after hfirst hsecond
      hrest _ _ ih =>
      rcases List.mem_cons.mp hb with rfl | hb
      · exact ⟨opening, List.mem_cons_self⟩
      · obtain ⟨here, hmem⟩ := ih hb
        exact ⟨here, by simp [hmem]⟩

/-- What is planned for sections depends on the truth values of their conditions. -/
lemma editsOfBlocks_congr {segments : List Segment} {data data' : Value} :
    ∀ {blocks : List Block},
      (∀ block ∈ blocks,
        isTruthy data block.condition.path = isTruthy data' block.condition.path) →
      editsOfBlocks segments data blocks = editsOfBlocks segments data' blocks
  | [], _ => rfl
  | block :: rest, h => by
      obtain ⟨hblock, hrest⟩ := List.forall_mem_cons.mp h
      rw [editsOfBlocks, editsOfBlocks, Block.edits, Block.edits, hblock,
        editsOfBlocks_congr hrest]

/-- A pass over sections whose conditions name only keys on which data agree does the same. -/
theorem resolvePass_congr {keys : List Text} {es es' : List (Key × Value)} (h : AgreeOn keys es es')
    {tree : Node} (htree : ∀ here condition, .opening here condition ∈ markers (flatText tree) →
      (condition.path.headD []).foldCase ∈ keys) :
    resolvePass tree (.mapping es) = resolvePass tree (.mapping es') := by
  rw [resolvePass, resolvePass]
  split
  · rfl
  · cases hpair : pair (markers (flatText tree)) with
    | error error => rfl
    | ok blocks =>
        have hblocks : ∀ block ∈ blocks, isTruthy (.mapping es) block.condition.path
            = isTruthy (.mapping es') block.condition.path := by
          intro block hb
          obtain ⟨here, hmem⟩ := (nested_of_pair hpair).opening_mem hb
          exact h.isTruthy (htree here block.condition hmem)
        simp only [mapError_ok, ok_bind, editsOfBlocks_congr hblocks]

/-! ## Stages over texts that ask for some keys only -/

section

variable {keys : List Text} {es es' : List (Key × Value)}

lemma rowBindings_congr (h : AgreeOn keys es es') {row : Node}
    (hrow : ∀ t ∈ row.texts, AsksOnly keys t) :
    rowBindings (.mapping es) row = rowBindings (.mapping es') row := by
  rw [rowBindings, rowBindings]
  congr 1
  refine List.filterMap_congr fun p hp => ?_
  obtain ⟨t, ht, hp⟩ := List.mem_flatMap.mp hp
  have hmem : t ∈ row.texts := by
    cases row with
    | text value => simp [Node.children, ownTextsOf] at ht
    | element tag children => exact mem_textsOf_of_mem_ownTextsOf children ht
  rw [bindingOf?, bindingOf?, h.listNamed? ((hrow t hmem).placeholder hp)]

mutual

/-- Tables are expanded alike. -/
theorem expandNode_congr (h : AgreeOn keys es es') : ∀ node : Node,
    (∀ t ∈ node.texts, AsksOnly keys t) →
      expandNode (.mapping es) node = expandNode (.mapping es') node
  | .text value, _ => rfl
  | .element tag children, hnode => by
      rw [expandNode, expandNode, expandRows_congr h children hnode,
        expandAll_congr h children hnode]

theorem expandAll_congr (h : AgreeOn keys es es') : ∀ nodes : List Node,
    (∀ t ∈ Node.textsOf nodes, AsksOnly keys t) →
      expandAll (.mapping es) nodes = expandAll (.mapping es') nodes
  | [], _ => rfl
  | node :: rest, hnodes => by
      rw [Node.textsOf, List.forall_mem_append] at hnodes
      rw [expandAll, expandAll, expandNode_congr h node hnodes.1, expandAll_congr h rest hnodes.2]

theorem expandRows_congr (h : AgreeOn keys es es') : ∀ (nodes : List Node),
    (∀ t ∈ Node.textsOf nodes, AsksOnly keys t) → ∀ {index : Nat} {group : RowGroup},
      expandRows (.mapping es) index group nodes = expandRows (.mapping es') index group nodes
  | [], _, _, _ => rfl
  | node :: rest, hnodes, index, group => by
      rw [Node.textsOf, List.forall_mem_append] at hnodes
      have hrest : ∀ {index : Nat} {group : RowGroup},
          expandRows (.mapping es) index group rest = expandRows (.mapping es') index group rest :=
        expandRows_congr h rest hnodes.2
      simp only [expandRows, analyzeRow, rowBindings_congr h hnodes.1,
        expandNode_congr h node hnodes.1, hrest]

end

theorem expandTables_congr (h : AgreeOn keys es es') {tree : Node}
    (htree : ∀ t ∈ tree.texts, AsksOnly keys t) :
    expandTables tree (.mapping es) = expandTables tree (.mapping es') := by
  rw [expandTables, expandTables, expandNode_congr h tree htree]

/-! ## Filling in -/

lemma fill_congr (h : AgreeOn keys es es') {p : Piece} (hp : p.AsksOnly keys) :
    p.fill (.mapping es) = p.fill (.mapping es') := by
  cases p with
  | char c => rfl
  | token token =>
      obtain ⟨body, meaning⟩ := token
      cases meaning with
      | placeholder path => simp only [Piece.fill, h.valueText (hp path rfl)]
      | opening path => rfl
      | alternative => rfl
      | closing => rfl

lemma failuresIn_congr (h : AgreeOn keys es es') {t : Text} (ht : AsksOnly keys t) :
    failuresIn (.mapping es) t = failuresIn (.mapping es') t :=
  List.filterMap_congr fun p hp => by rw [fill_congr h (ht p hp)]

lemma fillText_congr (h : AgreeOn keys es es') {t : Text} (ht : AsksOnly keys t) :
    fillText (.mapping es) t = fillText (.mapping es') t := by
  have hpieces : (pieces t).flatMap (fun p => filledText (p.fill (.mapping es)))
      = (pieces t).flatMap fun p => filledText (p.fill (.mapping es')) :=
    List.flatMap_congr fun p hp => by rw [fill_congr h (ht p hp)]
  rw [fillText, fillText, failuresIn_congr h ht, hpieces]

mutual

lemma mapText_congr {f g : Text → Text} : ∀ node : Node, (∀ t ∈ node.texts, f t = g t) →
    node.mapText f = node.mapText g
  | .text value, hnode => by rw [Node.mapText, Node.mapText, hnode value (by simp [Node.texts])]
  | .element tag children, hnode => by
      rw [Node.mapText, Node.mapText, mapTextOf_congr children hnode]

lemma mapTextOf_congr {f g : Text → Text} : ∀ nodes : List Node,
    (∀ t ∈ Node.textsOf nodes, f t = g t) → Node.mapTextOf f nodes = Node.mapTextOf g nodes
  | [], _ => rfl
  | node :: rest, hnodes => by
      rw [Node.textsOf, List.forall_mem_append] at hnodes
      rw [Node.mapTextOf, Node.mapTextOf, mapText_congr node hnodes.1,
        mapTextOf_congr rest hnodes.2]

end

/-- Placeholders are filled in alike, and fail alike. -/
theorem fillTree_congr (h : AgreeOn keys es es') {tree : Node}
    (htree : ∀ t ∈ tree.texts, AsksOnly keys t) :
    fillTree tree (.mapping es) = fillTree tree (.mapping es') := by
  have hfailures : tree.texts.flatMap (failuresIn (.mapping es))
      = tree.texts.flatMap (failuresIn (.mapping es')) :=
    List.flatMap_congr fun t ht => failuresIn_congr h (htree t ht)
  have hfilled : tree.mapText (fillText (.mapping es)) = tree.mapText (fillText (.mapping es')) :=
    mapText_congr tree fun t ht => fillText_congr h (htree t ht)
  rw [fillTree, fillTree, hfailures, hfilled]

end

end FormLetter
