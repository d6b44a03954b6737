import FormLetter.Proofs.Passages
import FormLetter.Proofs.SimpleRuns

/-!
# What a merged document shows

Two trees that differ in the division of their runs cannot be merged to the same tree.  What they
can have in common is what a reader sees of them: the text, and the rows of the tables.

* `shown` — the flat text of a tree and the numbers of rows of its tables.
* `fillTree_inPieces` — filling in a tree and the tree in pieces fails alike, or shows the same.
* `finish_inPieces` — and so do all stages that follow the sections, together.
-/

namespace FormLetter

/-! ## The text and the tables -/

mutual

/-- The numbers of rows of the tables of a tree, in document order.  Text runs and proofing marks of
paragraphs are not looked into. -/
def tableRows : Node → List Nat
  | .text _ => []
  | .element tag children =>
    if tag.name == Word.paragraph then tableRowsBetween children
    else (if tag.name == Word.table then [children.countP (·.isNamed Word.row)] else [])
      ++ tableRowsAll children

/-- The numbers of rows of the tables in a paragraph. -/
def tableRowsBetween : List Node → List Nat
  | [] => []
  | node :: rest => (if isRunOrMark node then [] else tableRows node) ++ tableRowsBetween rest

/-- The numbers of rows of the tables of several trees. -/
def tableRowsAll : List Node → List Nat
  | [] => []
  | node :: rest => tableRows node ++ tableRowsAll rest

end

/-- What a document shows: its flat text, and how many rows its tables have. -/
def shown (tree : Node) : Text × List Nat := (flatText tree, tableRows tree)

lemma tableRowsBetween_append (nodes others : List Node) :
    tableRowsBetween (nodes ++ others) = tableRowsBetween nodes ++ tableRowsBetween others := by
  induction nodes with
  | nil => rfl
  | cons node rest ih =>
      rw [List.cons_append, tableRowsBetween, tableRowsBetween, ih, List.append_assoc]

lemma tableRowsBetween_spelledTexts (node : Node) : tableRowsBetween (spelledTexts node) = [] := by
  have htexts : ∀ nodes : List Node, (∀ n ∈ nodes, ∃ t, n = .text t) →
      tableRowsBetween nodes = [] := by
    intro nodes h
    induction nodes with
    | nil => rfl
    | cons n rest ih =>
        obtain ⟨⟨t, rfl⟩, hrest⟩ := List.forall_mem_cons.mp h
        exact ih hrest
  refine htexts _ fun child hchild => ?_
  obtain ⟨t, -, hmem⟩ := List.mem_flatMap.mp hchild
  obtain ⟨p, -, rfl⟩ := List.mem_map.mp hmem
  exact ⟨_, rfl⟩

lemma countP_isNamed_inPiecesAll (name : String) (nodes : List Node) :
    (Node.inPiecesAll nodes).countP (·.isNamed name) = nodes.countP (·.isNamed name) := by
  rw [inPiecesAll_eq_map, List.countP_map]
  refine List.countP_congr fun node _ => ?_
  rw [Function.comp_apply, isNamed_inPieces]

lemma isRunOrMark_inPieces (node : Node) : isRunOrMark node.inPieces = isRunOrMark node := by
  have hrun : isTextRun node.inPieces = isTextRun node := by
    cases node with
    | text value => rw [Node.inPieces]
    | element tag children =>
        rw [Node.inPieces]
        split
        · next hpar =>
            have hother : (Word.paragraph == Word.run) = false := by decide +kernel
            rw [isTextRun, isTextRun, Node.isNamed, Node.isNamed, beq_iff_eq.mp hpar, hother,
              Bool.false_and, Bool.false_and]
        · have hcontent : isRunContent ∘ Node.inPieces = isRunContent := funext fun child => by
            rw [Function.comp_apply, isRunContent, isNamed_inPieces, isNamed_inPieces,
              ← isRunContent]
          rw [isTextRun, isTextRun, Node.children, Node.children, inPiecesAll_eq_map, List.all_map,
            hcontent]
          rfl
  rw [isRunOrMark, isRunOrMark, hrun, isNamed_inPieces]

mutual

lemma tableRows_inPieces : ∀ node : Node, tableRows node.inPieces = tableRows node
  | .text _ => by rw [Node.inPieces]
  | .element tag children => by
      rw [Node.inPieces]
      split
      · next hpar =>
          rw [tableRows, tableRows, if_pos hpar, if_pos hpar, tableRowsBetween_inPieces children]
      · next hpar =>
          rw [tableRows, tableRows, if_neg hpar, if_neg hpar, countP_isNamed_inPiecesAll,
            tableRowsAll_inPieces children]

lemma tableRowsBetween_inPieces : ∀ nodes : List Node,
    tableRowsBetween (Node.inPiecesBetween nodes) = tableRowsBetween nodes
  | [] => rfl
  | node :: rest => by
      rw [Node.inPiecesBetween, tableRowsBetween_append, tableRowsBetween,
        tableRowsBetween_inPieces rest]
      congr 1
      split
      · exact tableRowsBetween_spelledTexts node
      · next hnode =>
          rw [tableRowsBetween, tableRowsBetween, List.append_nil, isRunOrMark_inPieces,
            if_neg hnode, tableRows_inPieces node]

lemma tableRowsAll_inPieces : ∀ nodes : List Node,
    tableRowsAll (Node.inPiecesAll nodes) = tableRowsAll nodes
  | [] => rfl
  | node :: rest => by
      rw [Node.inPiecesAll, tableRowsAll, tableRowsAll, tableRows_inPieces node,
        tableRowsAll_inPieces rest]

end

section

variable (f : Text → Text)

mutual

lemma tableRows_mapText : ∀ node : Node, tableRows (node.mapText f) = tableRows node
  | .text _ => rfl
  | .element tag children => by
      have hcount : (Node.mapTextOf f children).countP (·.isNamed Word.row)
          = children.countP (·.isNamed Word.row) := by
        rw [mapTextOf_eq_map, List.countP_map]
        exact List.countP_congr fun node _ => by rw [Function.comp_apply, isNamed_mapText]
      rw [Node.mapText, tableRows, tableRows, tableRowsBetween_mapTextOf children,
        tableRowsAll_mapTextOf children, hcount]

lemma tableRowsBetween_mapTextOf : ∀ nodes : List Node,
    tableRowsBetween (Node.mapTextOf f nodes) = tableRowsBetween nodes
  | [] => rfl
  | node :: rest => by
      rw [Node.mapTextOf, tableRowsBetween, tableRowsBetween, isRunOrMark_mapText,
        tableRows_mapText node, tableRowsBetween_mapTextOf rest]

lemma tableRowsAll_mapTextOf : ∀ nodes : List Node,
    tableRowsAll (Node.mapTextOf f nodes) = tableRowsAll nodes
  | [] => rfl
  | node :: rest => by
      rw [Node.mapTextOf, tableRowsAll, tableRowsAll, tableRows_mapText node,
        tableRowsAll_mapTextOf rest]

end

/-! ## Texts changed piece by piece -/

variable {f} {g : Piece → Text}

/-- The content of a tree whose texts are changed piece by piece. -/
lemma content_mapText {node : Node} (h : ∀ t ∈ node.texts, f t = (pieces t).flatMap g) :
    (node.mapText f).content = (node.texts.flatMap pieces).flatMap g := by
  rw [Node.content, texts_mapText, List.flatMap_assoc, ← List.flatMap_def]
  exact List.flatMap_congr h

mutual

/-- Where texts are changed piece by piece, pieces on their own change the flat text as the texts
do. -/
lemma leafTexts_mapText : ∀ node : Node, (∀ t ∈ node.texts, f t = (pieces t).flatMap g) →
    (∀ t ∈ node.inPieces.texts, f t = (pieces t).flatMap g) →
      leafTexts [node.inPieces.mapText f] = leafTexts [node.mapText f]
  | .text _, _, _ => by rw [Node.inPieces]
  | .element tag children, h, h' => by
      cases hpar : tag.name == Word.paragraph with
      | true =>
          have hnamed : (Node.element tag children).isNamed Word.paragraph = true := hpar
          rw [leafTexts_paragraph (by rwa [isNamed_mapText, isNamed_inPieces]),
            leafTexts_paragraph (by rwa [isNamed_mapText]), content_mapText h, content_mapText h',
            pieces_inPieces]
      | false =>
          have hpieces : (Node.element tag children).inPieces
              = .element tag (Node.inPiecesAll children) := by
            rw [Node.inPieces, hpar]
            rfl
          rw [hpieces] at h' ⊢
          rw [Node.mapText, Node.mapText, leafTexts_element (by simp [hpar]),
            leafTexts_element (by simp [hpar])]
          exact leafTexts_mapTextOf children h h'

lemma leafTexts_mapTextOf : ∀ nodes : List Node,
    (∀ t ∈ Node.textsOf nodes, f t = (pieces t).flatMap g) →
    (∀ t ∈ Node.textsOf (Node.inPiecesAll nodes), f t = (pieces t).flatMap g) →
      leafTexts (Node.mapTextOf f (Node.inPiecesAll nodes)) = leafTexts (Node.mapTextOf f nodes)
  | [], _, _ => rfl
  | node :: rest, h, h' => by
      rw [Node.textsOf, List.forall_mem_append] at h
      rw [Node.inPiecesAll, Node.textsOf, List.forall_mem_append] at h'
      rw [Node.inPiecesAll, Node.mapTextOf, Node.mapTextOf, leafTexts_cons,
        leafTexts_cons (node.mapText f),
        leafTexts_mapText node h.1 h'.1, leafTexts_mapTextOf rest h.2 h'.2]

end

end

mutual

lemma mapText_id : ∀ node : Node, node.mapText id = node
  | .text _ => rfl
  | .element tag children => by rw [Node.mapText, mapTextOf_id children]

lemma mapTextOf_id : ∀ nodes : List Node, Node.mapTextOf id nodes = nodes
  | [] => rfl
  | node :: rest => by rw [Node.mapTextOf, mapText_id node, mapTextOf_id rest]

end

/-- A tree in pieces has the flat text of the tree. -/
lemma flatText_inPieces (node : Node) : flatText node.inPieces = flatText node := by
  have hspelled : ∀ t : Text, id t = (pieces t).flatMap Piece.text :=
    fun t => (spelled_pieces t).symm
  have hleaves := leafTexts_mapText node (fun t _ => hspelled t) (fun t _ => hspelled t)
  simp only [mapText_id, leafTexts, List.flatMap_singleton] at hleaves
  rw [flatText_eq, flatText_eq, hleaves]

/-! ## All stages that follow the sections -/

/-- What a piece becomes if it does not fail. -/
def Piece.filled (data : Value) (p : Piece) : Text := filledText (p.fill data)

lemma fillText_eq {data : Value} {t : Text} (h : failuresIn data t = []) :
    fillText data t = (pieces t).flatMap (Piece.filled data) := by
  rw [fillText, h]
  rfl

lemma flatMap_failuresIn (data : Value) (ts : List Text) :
    ts.flatMap (failuresIn data)
      = (ts.flatMap pieces).filterMap fun p => failure? (p.fill data) := by
  rw [List.filterMap_flatMap]
  rfl

/-- **Filling in shows the same,** or fails alike. -/
theorem fillTree_inPieces (tree : Node) (data : Value) :
    (fillTree tree.inPieces data).map shown = (fillTree tree data).map shown := by
  have hfailures : tree.inPieces.texts.flatMap (failuresIn data)
      = tree.texts.flatMap (failuresIn data) := by
    rw [flatMap_failuresIn, flatMap_failuresIn, pieces_inPieces]
  unfold fillTree
  rw [hfailures]
  cases hnone : tree.texts.flatMap (failuresIn data) with
  | cons failure rest => rfl
  | nil =>
      have hfilled : ∀ t ∈ tree.texts, fillText data t = (pieces t).flatMap (Piece.filled data) :=
        fun t ht => fillText_eq (List.flatMap_eq_nil_iff.mp hnone t ht)
      have hfilled' : ∀ t ∈ tree.inPieces.texts,
          fillText data t = (pieces t).flatMap (Piece.filled data) :=
        fun t ht => fillText_eq (List.flatMap_eq_nil_iff.mp (hfailures.trans hnone) t ht)
      have hleaves := leafTexts_mapText tree hfilled hfilled'
      simp only [leafTexts, List.flatMap_singleton] at hleaves
      simp only [List.isEmpty_nil, ↓reduceIte, map_ok, shown, flatText_eq, hleaves,
        tableRows_mapText, tableRows_inPieces]

/-- The stages after the sections are resolved. -/
def finish (tree : Node) (data : Value) : Except Cause Node := do
  let (expanded, aliases) ← expandTables tree data
  (fillTree expanded data).mapError (·.traced aliases)

/-- **A tree with simple runs, and the tree in pieces, end alike:** in the same failure, or in trees
that show the same. -/
theorem finish_inPieces {tree : Node} (h : tree.hasSimpleRuns = true) (data : Value) :
    (finish tree.inPieces data).map shown = (finish tree data).map shown := by
  rw [finish, finish, expandTables_inPieces h]
  cases expandTables tree data with
  | error cause => rfl
  | ok expanded =>
      obtain ⟨expanded, aliases⟩ := expanded
      calc ((fillTree expanded.inPieces data).mapError (·.traced aliases)).map shown
          = ((fillTree expanded.inPieces data).map shown).mapError (·.traced aliases) :=
            (mapError_map ..).symm
        _ = ((fillTree expanded data).map shown).mapError (·.traced aliases) := by
            rw [fillTree_inPieces]
        _ = ((fillTree expanded data).mapError (·.traced aliases)).map shown := mapError_map ..

end FormLetter
