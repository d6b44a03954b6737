import FormLetter.Merge.Render
import FormLetter.Proofs.Spelling

/-!
# Expanding tables in pieces

Table expansion looks for rows, and at the placeholders of a row outside the tables inside it.  It
does the same to a tree and to the tree in pieces, provided that no table hides in a text run.

* `isSimpleRun`, `Node.hasSimpleRuns` — text runs that hold their text and nothing else.  Expansion
  leaves them as they are (`expandNode_quiet`).
* `analyzeRow_inPieces` — a row in pieces is bound to the list of the row.
* `expandNode_inPieces`, `expandTables_inPieces` — so tables are expanded alike.
-/

namespace FormLetter

/-! ## Simple runs -/

/-- A text run that shows one text node at most, and nothing else: its formats have no text, and its
text elements hold one text node at most between them. -/
def isSimpleRun (run : Node) : Bool :=
  isTextRun run && (run.childrenNamed Word.runProperties).all (·.content.isEmpty)
    && match (run.childrenNamed Word.runText).flatMap Node.children with
      | [] => true
      | [.text _] => true
      | _ => false

mutual

/-- Whether all text runs of paragraphs are simple, and the proofing marks between them have no
text.  What text runs and proofing marks hold inside does not matter otherwise. -/
def Node.hasSimpleRuns : Node → Bool
  | .text _ => true
  | .element tag children =>
    if tag.name == Word.paragraph then Node.simpleBetween children
    else Node.simpleAll children

/-- Whether this holds of the children of a paragraph. -/
def Node.simpleBetween : List Node → Bool
  | [] => true
  | node :: rest =>
    (if isTextRun node then isSimpleRun node
      else if node.isNamed Word.proofingMark then node.content.isEmpty
      else Node.hasSimpleRuns node) && Node.simpleBetween rest

/-- Whether this holds of several trees. -/
def Node.simpleAll : List Node → Bool
  | [] => true
  | node :: rest => Node.hasSimpleRuns node && Node.simpleAll rest

end

/-- A text element of a simple run holds nothing, or one text node. -/
lemma children_of_isSimpleRun {run child : Node} (h : isSimpleRun run = true)
    (hchild : child ∈ run.childrenNamed Word.runText) :
    child.children = [] ∨ ∃ value, child.children = [.text value] := by
  have hsub : child.children.Sublist ((run.childrenNamed Word.runText).flatMap Node.children) :=
    List.sublist_flatten_of_mem (List.mem_map_of_mem hchild)
  rw [isSimpleRun, Bool.and_eq_true] at h
  have htexts := h.2
  split at htexts
  · next hnone => exact Or.inl (List.sublist_nil.mp (hnone ▸ hsub))
  · next value hone =>
      rw [hone] at hsub
      rcases List.sublist_singleton.mp hsub with hnone | hsome
      · exact Or.inl hnone
      · exact Or.inr ⟨value, hsome⟩
  · simp at htexts

/-- A child of a simple run has no text, or it is a text element around one text node. -/
lemma child_of_isSimpleRun {run child : Node} (h : isSimpleRun run = true)
    (hchild : child ∈ run.children) :
    child.content = [] ∨ ∃ tag value, child = .element tag [.text value]
      ∧ tag.name = Word.runText := by
  have hparts := h
  rw [isSimpleRun, Bool.and_eq_true, Bool.and_eq_true, List.all_eq_true, isTextRun,
    Bool.and_eq_true, List.all_eq_true] at hparts
  have hkind := hparts.1.1.2 child hchild
  rw [isRunContent, Bool.or_eq_true] at hkind
  rcases hkind with hformat | htext
  · exact Or.inl (List.isEmpty_iff.mp
      (hparts.1.2 child (List.mem_filter.mpr ⟨hchild, hformat⟩)))
  · cases child with
    | text value => simp [Node.isNamed] at htext
    | element tag inner =>
        rcases children_of_isSimpleRun h (List.mem_filter.mpr ⟨hchild, htext⟩) with
          hnone | ⟨value, hone⟩
        · obtain rfl : inner = [] := hnone
          exact Or.inl rfl
        · obtain rfl : inner = [.text value] := hone
          exact Or.inr ⟨tag, value, rfl, beq_iff_eq.mp htext⟩

/-! ## Nodes without text -/

lemma content_eq_nil_iff {node : Node} : node.content = [] ↔ ∀ t ∈ node.texts, t = [] :=
  List.flatten_eq_nil_iff

lemma flatMap_pieces_eq_nil {ts : List Text} (h : ∀ t ∈ ts, t = []) : ts.flatMap pieces = [] :=
  List.flatMap_eq_nil_iff.mpr fun t ht => by rw [h t ht]; rfl

lemma ownTextsOf_eq_flatMap (nodes : List Node) : ownTextsOf nodes = nodes.flatMap ownTexts := by
  induction nodes with
  | nil => rfl
  | cons node rest ih => rw [ownTextsOf, ih, List.flatMap_cons]

mutual

lemma mem_texts_of_mem_ownTexts : ∀ (node : Node) {t : Text}, t ∈ ownTexts node → t ∈ node.texts
  | .text _, _, h => h
  | .element tag children, t, h => by
      rw [ownTexts] at h
      split at h
      · exact absurd h List.not_mem_nil
      · exact mem_textsOf_of_mem_ownTextsOf children h

lemma mem_textsOf_of_mem_ownTextsOf : ∀ (nodes : List Node) {t : Text},
    t ∈ ownTextsOf nodes → t ∈ Node.textsOf nodes
  | [], _, h => h
  | node :: rest, t, h => by
      rw [ownTextsOf, List.mem_append] at h
      rw [Node.textsOf, List.mem_append]
      exact h.imp (mem_texts_of_mem_ownTexts node) (mem_textsOf_of_mem_ownTextsOf rest)

end

section

variable (data : Value)

/-- A row without text is no template. -/
lemma analyzeRow_bare (index : Nat) {row : Node} (h : ∀ t ∈ row.texts, t = []) :
    analyzeRow data index row = .ok none := by
  have hown : ∀ t ∈ ownTextsOf row.children, t = [] := fun t ht => by
    cases row with
    | text value => exact absurd ht List.not_mem_nil
    | element tag children => exact h t (mem_textsOf_of_mem_ownTextsOf children ht)
  have hnone : rowPlaceholders row = [] :=
    List.flatMap_eq_nil_iff.mpr fun t ht => by rw [hown t ht]; rfl
  rw [analyzeRow, rowBindings, hnone]
  rfl

mutual

/-- There is nothing to expand in a node without text. -/
lemma expandNode_bare : ∀ node : Node, (∀ t ∈ node.texts, t = []) →
    expandNode data node = .ok ⟨[node], []⟩
  | .text _, _ => rfl
  | .element tag children, h => by
      rw [expandNode]
      split
      · rw [expandRows_bare children 0 h]
        rfl
      · rw [expandAll_bare children h]
        rfl

lemma expandAll_bare : ∀ nodes : List Node, (∀ t ∈ Node.textsOf nodes, t = []) →
    expandAll data nodes = .ok ⟨nodes, []⟩
  | [], _ => rfl
  | node :: rest, h => by
      rw [Node.textsOf, List.forall_mem_append] at h
      rw [expandAll, expandNode_bare node h.1, expandAll_bare rest h.2]
      rfl

lemma expandRows_bare : ∀ (nodes : List Node) (index : Nat), (∀ t ∈ Node.textsOf nodes, t = []) →
    expandRows data index none nodes = .ok ⟨nodes, []⟩
  | [], _, _ => rfl
  | node :: rest, index, h => by
      rw [Node.textsOf, List.forall_mem_append] at h
      rw [expandRows, expandNode_bare node h.1]
      split
      · rw [analyzeRow_bare data index h.1, ok_bind, ok_bind, expandRows_bare rest _ h.2]
        rfl
      · rw [ok_bind, expandRows_bare rest _ h.2]
        rfl

end

/-- Nodes that each expand to themselves do so together. -/
lemma expandAll_self {nodes : List Node}
    (h : ∀ node ∈ nodes, expandNode data node = .ok ⟨[node], []⟩) :
    expandAll data nodes = .ok ⟨nodes, []⟩ := by
  induction nodes with
  | nil => rfl
  | cons node rest ih =>
      obtain ⟨hnode, hrest⟩ := List.forall_mem_cons.mp h
      rw [expandAll, hnode, ih hrest]
      rfl

/-- A text run or proofing mark that a paragraph may hold: it is simple, or it has no text. -/
def IsQuiet (node : Node) : Prop := isSimpleRun node = true ∨ node.content = []

lemma isNamed_of_isTextRun {run : Node} (h : isTextRun run = true) :
    run.isNamed Word.run = true := by
  rw [isTextRun, Bool.and_eq_true] at h
  exact h.1

lemma isTextRun_of_isSimpleRun {run : Node} (h : isSimpleRun run = true) :
    isTextRun run = true := by
  rw [isSimpleRun, Bool.and_eq_true, Bool.and_eq_true] at h
  exact h.1.1

/-- There is nothing to expand in a simple run. -/
lemma expandNode_quiet {node : Node} (h : IsQuiet node) :
    expandNode data node = .ok ⟨[node], []⟩ := by
  rcases h with hsimple | hbare
  · cases node with
    | text value => rfl
    | element tag children =>
        have hother : Word.run ≠ Word.table := by decide +kernel
        have hother' : Word.runText ≠ Word.table := by decide +kernel
        have hname : tag.name = Word.run :=
          beq_iff_eq.mp (isNamed_of_isTextRun (isTextRun_of_isSimpleRun hsimple))
        have hchild : ∀ child ∈ children, expandNode data child = .ok ⟨[child], []⟩ := by
          intro child hmem
          rcases child_of_isSimpleRun hsimple hmem with hbare | ⟨inner, value, rfl, hinner⟩
          · exact expandNode_bare data child (content_eq_nil_iff.mp hbare)
          · rw [expandNode, if_neg (by simp [hinner, hother'])]
            rfl
        rw [expandNode, if_neg (by simp [hname, hother]), expandAll_self data hchild]
        rfl
  · exact expandNode_bare data node (content_eq_nil_iff.mp hbare)

end

/-- All texts of a simple run are its own. -/
lemma ownTexts_quiet {node : Node} (h : IsQuiet node) :
    (ownTexts node).flatMap pieces = node.texts.flatMap pieces := by
  have hbare : ∀ {node : Node}, node.content = [] →
      (ownTexts node).flatMap pieces = node.texts.flatMap pieces := fun {node} hnode => by
    have htexts := content_eq_nil_iff.mp hnode
    rw [flatMap_pieces_eq_nil htexts,
      flatMap_pieces_eq_nil fun t ht => htexts t (mem_texts_of_mem_ownTexts _ ht)]
  rcases h with hsimple | hnone
  · cases node with
    | text value => rfl
    | element tag children =>
        have hother : Word.run ≠ Word.table := by decide +kernel
        have hother' : Word.runText ≠ Word.table := by decide +kernel
        have hname : tag.name = Word.run :=
          beq_iff_eq.mp (isNamed_of_isTextRun (isTextRun_of_isSimpleRun hsimple))
        rw [ownTexts, if_neg (by simp [hname, hother]), Node.texts, ownTextsOf_eq_flatMap,
          textsOf_eq_flatMap, List.flatMap_assoc, List.flatMap_assoc]
        refine List.flatMap_congr fun child hmem => ?_
        rcases child_of_isSimpleRun hsimple hmem with hnone | ⟨inner, value, rfl, hinner⟩
        · exact hbare hnone
        · rw [ownTexts, if_neg (by simp [hinner, hother'])]
          rfl
  · exact hbare hnone

lemma isTextRun_of_proofingMark {node : Node} (h : node.isNamed Word.proofingMark = true) :
    isTextRun node = false := by
  cases node with
  | text value => rfl
  | element tag children =>
      have hother : (Word.proofingMark == Word.run) = false := by decide +kernel
      rw [Node.isNamed, beq_iff_eq] at h
      rw [isTextRun, Node.isNamed, h, hother, Bool.false_and]

/-- The three kinds of children that a paragraph may have. -/
lemma simpleBetween_cons {node : Node} {rest : List Node} :
    Node.simpleBetween (node :: rest) = true ↔
      (isSimpleRun node = true
        ∨ node.isNamed Word.proofingMark = true ∧ node.content = []
        ∨ isRunOrMark node = false ∧ node.hasSimpleRuns = true)
      ∧ Node.simpleBetween rest = true := by
  rw [Node.simpleBetween, Bool.and_eq_true, and_congr_left_iff]
  intro _
  cases hmark : node.isNamed Word.proofingMark with
  | true =>
      have hrun := isTextRun_of_proofingMark hmark
      simp [isRunOrMark, isSimpleRun, hrun, hmark]
  | false =>
      cases hrun : isTextRun node with
      | true => simp [isRunOrMark, hrun]
      | false => simp [isRunOrMark, isSimpleRun, hrun, hmark]

/-- What `Node.simpleBetween` says of a text run or proofing mark. -/
lemma isQuiet_of_simpleBetween {node : Node} {rest : List Node}
    (h : Node.simpleBetween (node :: rest) = true) (hnode : isRunOrMark node = true) :
    IsQuiet node := by
  rcases (simpleBetween_cons.mp h).1 with hrun | ⟨-, hbare⟩ | ⟨hother, -⟩
  · exact Or.inl hrun
  · exact Or.inr hbare
  · exact absurd hnode (by simp [hother])

lemma isRunOrMark_of_isSimpleRun {run : Node} (h : isSimpleRun run = true) :
    isRunOrMark run = true := by
  rw [isRunOrMark, isTextRun_of_isSimpleRun h, Bool.true_or]

lemma hasSimpleRuns_of_simpleBetween {node : Node} {rest : List Node}
    (h : Node.simpleBetween (node :: rest) = true) (hnode : isRunOrMark node = false) :
    node.hasSimpleRuns = true := by
  rcases (simpleBetween_cons.mp h).1 with hrun | ⟨hmark, -⟩ | ⟨-, hsimple⟩
  · exact absurd (isRunOrMark_of_isSimpleRun hrun) (by simp [hnode])
  · exact absurd hnode (by simp [isRunOrMark, hmark])
  · exact hsimple

lemma simpleBetween_tail {node : Node} {rest : List Node}
    (h : Node.simpleBetween (node :: rest) = true) : Node.simpleBetween rest = true :=
  (simpleBetween_cons.mp h).2

/-! ## Template rows -/

lemma ownTextsOf_spelledTexts (node : Node) :
    ownTextsOf (spelledTexts node) = Node.textsOf (spelledTexts node) := by
  rw [ownTextsOf_eq_flatMap, textsOf_eq_flatMap]
  refine List.flatMap_congr fun child hchild => ?_
  obtain ⟨t, -, hmem⟩ := List.mem_flatMap.mp hchild
  obtain ⟨p, -, rfl⟩ := List.mem_map.mp hmem
  rfl

mutual

/-- The own texts of a tree in pieces have the pieces of the own texts of the tree. -/
theorem ownPieces_inPieces : ∀ node : Node, node.hasSimpleRuns = true →
    (ownTexts node.inPieces).flatMap pieces = (ownTexts node).flatMap pieces
  | .text _, _ => by rw [Node.inPieces]
  | .element tag children, h => by
      rw [Node.hasSimpleRuns] at h
      rw [Node.inPieces, ownTexts]
      split at h
      · next hpar =>
          rw [if_pos hpar, ownTexts]
          split
          · rfl
          · exact ownPieces_inPiecesBetween children h
      · next hpar =>
          rw [if_neg hpar, ownTexts]
          split
          · rfl
          · exact ownPieces_inPiecesAll children h

theorem ownPieces_inPiecesBetween : ∀ nodes : List Node, Node.simpleBetween nodes = true →
    (ownTextsOf (Node.inPiecesBetween nodes)).flatMap pieces
      = (ownTextsOf nodes).flatMap pieces
  | [], _ => rfl
  | node :: rest, h => by
      rw [Node.inPiecesBetween, ownTextsOf_eq_flatMap, List.flatMap_append, ← ownTextsOf_eq_flatMap,
        ← ownTextsOf_eq_flatMap, List.flatMap_append, ownTextsOf, List.flatMap_append,
        ownPieces_inPiecesBetween rest (simpleBetween_tail h)]
      congr 1
      cases hnode : isRunOrMark node with
      | true =>
          rw [if_pos rfl, ownTextsOf_spelledTexts, pieces_spelledTexts,
            ownTexts_quiet (isQuiet_of_simpleBetween h hnode)]
      | false =>
          rw [if_neg (by simp), ownTextsOf, ownTextsOf, List.append_nil,
            ownPieces_inPieces node (hasSimpleRuns_of_simpleBetween h hnode)]

theorem ownPieces_inPiecesAll : ∀ nodes : List Node, Node.simpleAll nodes = true →
    (ownTextsOf (Node.inPiecesAll nodes)).flatMap pieces = (ownTextsOf nodes).flatMap pieces
  | [], _ => rfl
  | node :: rest, h => by
      rw [Node.simpleAll, Bool.and_eq_true] at h
      rw [Node.inPiecesAll, ownTextsOf, ownTextsOf, List.flatMap_append, List.flatMap_append,
        ownPieces_inPieces node h.1, ownPieces_inPiecesAll rest h.2]

end

lemma rowBindings_eq (data : Value) (row : Node) :
    rowBindings data row = distinctBindings (((ownTextsOf row.children).flatMap pieces).filterMap
      (Piece.asks fun _ path => bindingOf? data (path.headD []))) := by
  rw [rowBindings, rowPlaceholders, List.filterMap_flatMap, List.filterMap_flatMap]
  exact congrArg _ (List.flatMap_congr fun t _ =>
    filterMap_placeholders (fun _ path => bindingOf? data (path.headD [])) t)

/-- **A row in pieces is bound to the list of the row.** -/
theorem analyzeRow_inPieces (data : Value) (index : Nat) {row : Node}
    (hrow : row.isNamed Word.row = true) (h : row.hasSimpleRuns = true) :
    analyzeRow data index row.inPieces = analyzeRow data index row := by
  have hbindings : rowBindings data row.inPieces = rowBindings data row := by
    cases row with
    | text value => rw [Node.inPieces]
    | element tag children =>
        have hother : Word.row ≠ Word.paragraph := by decide +kernel
        have hname : ¬ (tag.name == Word.paragraph) = true := by
          rw [Node.isNamed, beq_iff_eq] at hrow
          simp [hrow, hother]
        rw [Node.hasSimpleRuns, if_neg hname] at h
        rw [Node.inPieces, if_neg hname, rowBindings_eq, rowBindings_eq, Node.children,
          Node.children, ownPieces_inPiecesAll children h]
  rw [analyzeRow, analyzeRow, hbindings]

/-! ## Expanded tables -/

/-- An expansion in pieces. -/
def Expansion.inPieces (expansion : Expansion) : Expansion :=
  ⟨Node.inPiecesAll expansion.nodes, expansion.aliases⟩

/-- The rows of an open group in pieces. -/
def RowGroup.inPieces (group : RowGroup) : RowGroup :=
  group.map fun (binding, rows) => (binding, Node.inPiecesAll rows)

@[simp] lemma RowGroup.inPieces_none : RowGroup.inPieces none = none := rfl

@[simp] lemma RowGroup.inPieces_some (binding : RowBinding) (rows : List Node) :
    RowGroup.inPieces (some (binding, rows)) = some (binding, Node.inPiecesAll rows) := rfl

/-- A group is bound to its list by a name. -/
def RowGroup.IsNamed (group : RowGroup) : Prop :=
  ∀ binding rows, group = some (binding, rows) → isName binding.segment = true

lemma RowGroup.IsNamed.concat {binding : RowBinding} {rows : List Node}
    (h : RowGroup.IsNamed (some (binding, rows))) (row : Node) :
    RowGroup.IsNamed (some (binding, rows ++ [row])) := fun _ _ heq => by
  obtain ⟨rfl, -⟩ := Prod.mk.inj (Option.some.inj heq)
  exact h binding rows rfl

lemma Expansion.inPieces_append (a b : Expansion) :
    (a ++ b).inPieces = a.inPieces ++ b.inPieces := by
  have hnodes : (a ++ b).nodes = a.nodes ++ b.nodes := rfl
  rw [Expansion.inPieces, hnodes, inPiecesAll_eq_map, List.map_append, ← inPiecesAll_eq_map,
    ← inPiecesAll_eq_map]
  rfl

/-- **The copies of a group in pieces are those of the group, in pieces.** -/
lemma settleRows_inPieces {group : RowGroup} (h : group.IsNamed) :
    settleRows group.inPieces = (settleRows group).inPieces := by
  match group with
  | none => rfl
  | some (binding, rows) =>
      have hseg : ∀ scope ∈ binding.scopes, isName scope.segment = true := by
        intro scope hscope
        obtain ⟨⟨item, position⟩, -, rfl⟩ := List.mem_map.mp hscope
        exact h binding rows rfl
      have hnodes : (binding.scopes.flatMap fun scope =>
            (Node.inPiecesAll rows).map (bindRow scope))
          = Node.inPiecesAll (binding.scopes.flatMap fun scope => rows.map (bindRow scope)) := by
        rw [inPiecesAll_eq_map, inPiecesAll_eq_map, List.map_flatMap]
        refine List.flatMap_congr fun scope hscope => ?_
        rw [List.map_map, List.map_map]
        exact List.map_congr_left fun row _ => (inPieces_bindRow (hseg scope hscope) row).symm
      have haliases : (binding.scopes.flatMap fun scope =>
            (Node.inPiecesAll rows).flatMap (rowAliases scope))
          = binding.scopes.flatMap fun scope => rows.flatMap (rowAliases scope) := by
        refine List.flatMap_congr fun scope _ => ?_
        rw [inPiecesAll_eq_map, List.flatMap_map]
        exact List.flatMap_congr fun row _ => rowAliases_inPieces scope row
      exact congrArg₂ Expansion.mk hnodes haliases

/-- What follows a settled group, in pieces. -/
lemma append_inPieces {ε : Type} (settled : Expansion) (x : Except ε Expansion) :
    (do
      let others ← x.map Expansion.inPieces
      return settled.inPieces ++ others)
      = (do
        let others ← x
        return settled ++ others : Except ε Expansion).map Expansion.inPieces := by
  cases x with
  | error e => rfl
  | ok others => exact congrArg Except.ok (Expansion.inPieces_append _ _).symm

lemma bind_inPieces {ε : Type} (settled : Expansion) (x y : Except ε Expansion) :
    (do
      let inner ← x.map Expansion.inPieces
      let others ← y.map Expansion.inPieces
      return settled.inPieces ++ inner ++ others)
      = (do
        let inner ← x
        let others ← y
        return settled ++ inner ++ others : Except ε Expansion).map Expansion.inPieces := by
  cases x with
  | error e => rfl
  | ok inner =>
      cases y with
      | error e => rfl
      | ok others =>
          refine congrArg Except.ok ?_
          rw [Expansion.inPieces_append, Expansion.inPieces_append]

lemma isNamed_none : RowGroup.IsNamed none := fun _ _ h => by simp at h

lemma isNamed_of_analyzeRow {data : Value} {index : Nat} {row : Node} {binding : RowBinding}
    (h : analyzeRow data index row = .ok (some binding)) (rows : List Node) :
    RowGroup.IsNamed (some (binding, rows)) := fun b others heq => by
  obtain ⟨rfl, -⟩ := Prod.mk.inj (Option.some.inj heq)
  exact (binding_of_analyzeRow h).1

section

variable (data : Value)

lemma expandAll_append (nodes others : List Node) :
    expandAll data (nodes ++ others) = do
      let first ← expandAll data nodes
      let second ← expandAll data others
      return first ++ second := by
  induction nodes with
  | nil =>
      rw [List.nil_append, expandAll, ok_bind]
      cases expandAll data others <;> rfl
  | cons node rest ih =>
      rw [List.cons_append, expandAll, expandAll, ih]
      cases expandNode data node with
      | error cause => rfl
      | ok first =>
          cases expandAll data rest with
          | error cause => rfl
          | ok second =>
              cases expandAll data others with
              | error cause => rfl
              | ok third =>
                  exact congrArg Except.ok (congrArg₂ Expansion.mk (List.append_assoc _ _ _).symm
                    (List.append_assoc _ _ _).symm)

lemma expandAll_spelledTexts (node : Node) :
    expandAll data (spelledTexts node) = .ok ⟨spelledTexts node, []⟩ := by
  refine expandAll_self data fun child hchild => ?_
  obtain ⟨t, -, hmem⟩ := List.mem_flatMap.mp hchild
  obtain ⟨p, -, rfl⟩ := List.mem_map.mp hmem
  rfl

mutual

/-- An expanded node is one node, and still a text run or a proofing mark only if it was one. -/
lemma exists_expandNode : ∀ (node : Node) {expansion : Expansion},
    expandNode data node = .ok expansion →
      ∃ expanded, expansion.nodes = [expanded]
        ∧ (∀ name, expanded.isNamed name = node.isNamed name)
        ∧ isTextRun expanded = isTextRun node
  | .text value, expansion, h => by
      rw [← Except.ok.inj h]
      exact ⟨_, rfl, fun _ => rfl, rfl⟩
  | .element tag children, expansion, h => by
      rw [expandNode] at h
      obtain ⟨inner, hinner, rfl⟩ := map_eq_ok.mp h
      refine ⟨_, rfl, fun _ => rfl, ?_⟩
      rw [isTextRun, isTextRun, Node.isNamed, Node.isNamed, Node.children, Node.children]
      split at hinner
      · next htable =>
          have hother : (Word.table == Word.run) = false := by decide +kernel
          rw [beq_iff_eq.mp htable, hother, Bool.false_and, Bool.false_and]
      · rw [all_isRunContent_expandAll children hinner]

lemma all_isRunContent_expandAll : ∀ (nodes : List Node) {expansion : Expansion},
    expandAll data nodes = .ok expansion →
      expansion.nodes.all isRunContent = nodes.all isRunContent
  | [], expansion, h => by
      rw [← Except.ok.inj h]
      rfl
  | node :: rest, expansion, h => by
      rw [expandAll] at h
      obtain ⟨first, hfirst, h⟩ := bind_eq_ok.mp h
      obtain ⟨others, hothers, h⟩ := bind_eq_ok.mp h
      obtain ⟨expanded, hnodes, hnamed, -⟩ := exists_expandNode node hfirst
      have hall : (first ++ others).nodes = first.nodes ++ others.nodes := rfl
      rw [← Except.ok.inj h]
      show (first ++ others).nodes.all isRunContent = _
      rw [hall, hnodes, List.singleton_append, List.all_cons, List.all_cons,
        all_isRunContent_expandAll rest hothers, isRunContent, hnamed, hnamed, ← isRunContent]

end

mutual

/-- **The tables of a tree in pieces are expanded like those of the tree.** -/
theorem expandNode_inPieces : ∀ node : Node, node.hasSimpleRuns = true →
    expandNode data node.inPieces = (expandNode data node).map Expansion.inPieces
  | .text _, _ => by rw [Node.inPieces]; rfl
  | .element tag children, h => by
      rw [Node.hasSimpleRuns] at h
      rw [Node.inPieces]
      split at h
      · next hpar =>
          have hother : (Word.paragraph == Word.table) = false := by decide +kernel
          have htable : ¬ (tag.name == Word.table) = true := by
            rw [beq_iff_eq.mp hpar, hother]
            simp
          rw [if_pos hpar, expandNode, expandNode, if_neg htable, if_neg htable,
            expandAll_inPiecesBetween children h]
          cases expandAll data children with
          | error cause => rfl
          | ok inner =>
              rw [map_ok, map_ok, map_ok, map_ok, Expansion.wrap, Expansion.wrap,
                Expansion.inPieces, Node.inPiecesAll, Node.inPieces, if_pos hpar, Node.inPiecesAll]
      · next hpar =>
          have hwrap : ∀ inner : Expansion,
              Expansion.wrap tag inner.inPieces = (Expansion.wrap tag inner).inPieces :=
            fun inner => by
              rw [Expansion.wrap, Expansion.wrap, Expansion.inPieces, Expansion.inPieces,
                Node.inPiecesAll, Node.inPieces, if_neg hpar, Node.inPiecesAll]
          rw [if_neg hpar, expandNode, expandNode]
          split
          · have hrows := expandRows_inPieces children h 0 isNamed_none
            rw [RowGroup.inPieces_none] at hrows
            rw [hrows]
            cases expandRows data 0 none children with
            | error cause => rfl
            | ok inner => exact congrArg Except.ok (hwrap inner)
          · rw [expandAll_inPiecesAll children h]
            cases expandAll data children with
            | error cause => rfl
            | ok inner => exact congrArg Except.ok (hwrap inner)

theorem expandAll_inPiecesBetween : ∀ nodes : List Node, Node.simpleBetween nodes = true →
    expandAll data (Node.inPiecesBetween nodes)
      = (expandAll data nodes).map fun expansion =>
        ⟨Node.inPiecesBetween expansion.nodes, expansion.aliases⟩
  | [], _ => rfl
  | node :: rest, h => by
      rw [Node.inPiecesBetween, expandAll_append, expandAll,
        expandAll_inPiecesBetween rest (simpleBetween_tail h)]
      cases hnode : isRunOrMark node with
      | true =>
          rw [if_pos rfl, expandAll_spelledTexts,
            expandNode_quiet data (isQuiet_of_simpleBetween h hnode),
            ok_bind, ok_bind]
          cases expandAll data rest with
          | error cause => rfl
          | ok others =>
              refine congrArg Except.ok (congrArg₂ Expansion.mk ?_ rfl)
              show _ = Node.inPiecesBetween (node :: others.nodes)
              rw [Node.inPiecesBetween, if_pos hnode]
      | false =>
          rw [if_neg (by simp), expandAll,
            expandNode_inPieces node (hasSimpleRuns_of_simpleBetween h hnode)]
          cases hexpanded : expandNode data node with
          | error cause => rfl
          | ok first =>
              obtain ⟨expanded, hnodes, hnamed, hrun⟩ := exists_expandNode data node hexpanded
              cases expandAll data rest with
              | error cause => rfl
              | ok others =>
                  have hother : isRunOrMark expanded = false := by
                    rw [isRunOrMark, hrun, hnamed, ← isRunOrMark, hnode]
                  obtain ⟨nodes, aliases⟩ := first
                  obtain rfl : nodes = [expanded] := hnodes
                  refine congrArg Except.ok (congrArg₂ Expansion.mk ?_ ?_)
                  · show _ = Node.inPiecesBetween (expanded :: others.nodes)
                    rw [Node.inPiecesBetween, hother]
                    rfl
                  · exact congrArg (· ++ others.aliases) (List.append_nil aliases)

theorem expandAll_inPiecesAll : ∀ nodes : List Node, Node.simpleAll nodes = true →
    expandAll data (Node.inPiecesAll nodes) = (expandAll data nodes).map Expansion.inPieces
  | [], _ => rfl
  | node :: rest, h => by
      rw [Node.simpleAll, Bool.and_eq_true] at h
      rw [Node.inPiecesAll, expandAll, expandAll, expandNode_inPieces node h.1,
        expandAll_inPiecesAll rest h.2]
      cases expandNode data node with
      | error cause => rfl
      | ok first =>
          cases expandAll data rest with
          | error cause => rfl
          | ok others => exact congrArg Except.ok (first.inPieces_append others).symm

theorem expandRows_inPieces : ∀ nodes : List Node, Node.simpleAll nodes = true →
    ∀ (index : Nat) {group : RowGroup}, group.IsNamed →
      expandRows data index group.inPieces (Node.inPiecesAll nodes)
        = (expandRows data index group nodes).map Expansion.inPieces
  | [], _, index, group, hgroup => congrArg Except.ok (settleRows_inPieces hgroup)
  | node :: rest, h, index, group, hgroup => by
      rw [Node.simpleAll, Bool.and_eq_true] at h
      have hnode := expandNode_inPieces node h.1
      have hnone := expandRows_inPieces rest h.2
      have hsettled := settleRows_inPieces hgroup
      have hothers := fun index => hnone index isNamed_none
      simp only [RowGroup.inPieces_none] at hothers
      rw [Node.inPiecesAll, expandRows, expandRows, isNamed_inPieces]
      split
      · next hrow =>
          rw [analyzeRow_inPieces data index hrow h.1]
          cases hbound : analyzeRow data index node with
          | error cause => rfl
          | ok bound =>
              rw [ok_bind, ok_bind]
              cases bound with
              | none =>
                  simp only [hnode, hothers, hsettled]
                  exact bind_inPieces _ _ _
              | some binding =>
                  have hsingle := isNamed_of_analyzeRow hbound
                  match group with
                  | none => exact hnone (index + 1) (hsingle [node])
                  | some (current, rows) =>
                      rw [RowGroup.inPieces_some]
                      simp only
                      split
                      · have hrest := hnone (index + 1) (hgroup.concat node)
                        rwa [RowGroup.inPieces_some, inPiecesAll_concat] at hrest
                      · have hrest := hnone (index + 1) (hsingle [node])
                        rw [RowGroup.inPieces_some, Node.inPiecesAll, Node.inPiecesAll]
                          at hrest
                        rw [RowGroup.inPieces_some] at hsettled
                        rw [hrest, hsettled]
                        exact append_inPieces _ _
      · simp only [hnode, hothers, hsettled]
        exact bind_inPieces _ _ _

end

end

/-- **Tables are expanded alike.** -/
theorem expandTables_inPieces {tree : Node} (h : tree.hasSimpleRuns = true) (data : Value) :
    expandTables tree.inPieces data
      = (expandTables tree data).map fun expanded => (expanded.1.inPieces, expanded.2) := by
  rw [expandTables, expandTables, expandNode_inPieces data tree h]
  cases hexpanded : expandNode data tree with
  | error cause => rfl
  | ok expansion =>
      obtain ⟨expanded, hnodes, -, -⟩ := exists_expandNode data tree hexpanded
      obtain ⟨nodes, aliases⟩ := expansion
      obtain rfl : nodes = [expanded] := hnodes
      rfl

end FormLetter
