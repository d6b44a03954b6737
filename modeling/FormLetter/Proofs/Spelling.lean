import FormLetter.Merge.Rows
import FormLetter.Proofs.Fragments
import FormLetter.Proofs.ItemScope

/-!
# Text runs as pieces

Once the runs are joined, all later stages read one text node at a time, and what they read are
pieces.  So it makes no difference to them where between pieces the text of runs is divided.  This
file goes to the extreme and divides it everywhere.

* `Node.inPieces` — the tree in which the text runs of each paragraph give way to the pieces of
  their texts, each in a text node of its own.  Proofing marks give way to their texts, of which
  they should have none.
* `pieces_inPieces` — the pieces of all texts together stay the same.  So does whatever depends on
  them, such as the aliases of a copied row (`rowAliases_inPieces`).
* `inPieces_bindRow` — copying a row and going to pieces can be done in either order, for the copy
  of a text is read as the redirected pieces of the text.
-/

namespace FormLetter

/-! ## Pieces on their own -/

/-- A piece on its own is read as itself. -/
lemma pieces_text {p : Piece} {t : Text} (h : p ∈ pieces t) : pieces p.text = [p] := by
  cases p with
  | char c =>
      by_cases hc : c = '@'
      · subst hc
        rfl
      · simp [Piece.text, pieces, readPieces, hc, ReaderState.text]
  | token token =>
      have hsound : (Piece.token token).IsSound := meaning_of_mem_pieces h
      have hspell : pieces ([Piece.token token].flatMap Piece.text) = [.token token] :=
        pieces_spell (by simpa using hsound)
      rwa [List.flatMap_singleton] at hspell

/-- Each piece of a text in a text node of its own. -/
def spelled (t : Text) : List Node := (pieces t).map fun p => .text p.text

lemma textsOf_spelled (t : Text) : Node.textsOf (spelled t) = (pieces t).map Piece.text := by
  rw [textsOf_eq_flatMap, spelled, List.flatMap_map]
  induction pieces t with
  | nil => rfl
  | cons p rest ih => rw [List.flatMap_cons, ih]; rfl

lemma flatMap_pieces_text (t : Text) : ((pieces t).map Piece.text).flatMap pieces = pieces t := by
  rw [List.flatMap_map, List.flatMap_congr fun p hp => pieces_text hp, List.flatMap_singleton']

/-- A node that joining treats as part of the text of a paragraph: a text run or a proofing mark. -/
def isRunOrMark (node : Node) : Bool := isTextRun node || node.isNamed Word.proofingMark

/-- The pieces of all texts of a node. -/
def spelledTexts (node : Node) : List Node := node.texts.flatMap spelled

mutual

/-- The tree in which the text runs and proofing marks of each paragraph give way to the pieces of
their texts. -/
def Node.inPieces : Node → Node
  | .text value => .text value
  | .element tag children =>
    if tag.name == Word.paragraph then .element tag (Node.inPiecesBetween children)
    else .element tag (Node.inPiecesAll children)

/-- The children of a paragraph with text runs and proofing marks in pieces. -/
def Node.inPiecesBetween : List Node → List Node
  | [] => []
  | node :: rest =>
    (if isRunOrMark node then spelledTexts node else [Node.inPieces node])
      ++ Node.inPiecesBetween rest

/-- Several trees in pieces. -/
def Node.inPiecesAll : List Node → List Node
  | [] => []
  | node :: rest => Node.inPieces node :: Node.inPiecesAll rest

end

lemma inPiecesAll_eq_map (nodes : List Node) :
    Node.inPiecesAll nodes = nodes.map Node.inPieces := by
  induction nodes with
  | nil => rfl
  | cons node rest ih => rw [Node.inPiecesAll, ih, List.map_cons]

lemma inPiecesAll_concat (nodes : List Node) (node : Node) :
    Node.inPiecesAll (nodes ++ [node]) = Node.inPiecesAll nodes ++ [node.inPieces] := by
  rw [inPiecesAll_eq_map, inPiecesAll_eq_map, List.map_append, List.map_singleton]

lemma inPiecesBetween_append (nodes others : List Node) :
    Node.inPiecesBetween (nodes ++ others)
      = Node.inPiecesBetween nodes ++ Node.inPiecesBetween others := by
  induction nodes with
  | nil => rfl
  | cons node rest ih =>
      rw [List.cons_append, Node.inPiecesBetween, Node.inPiecesBetween, ih, List.append_assoc]

lemma isNamed_inPieces (name : String) (node : Node) :
    node.inPieces.isNamed name = node.isNamed name := by
  cases node with
  | text value => rw [Node.inPieces]
  | element tag children =>
      rw [Node.inPieces]
      split <;> rfl

/-! ## The same pieces -/

lemma textsOf_spelledTexts (node : Node) :
    Node.textsOf (spelledTexts node) = node.texts.flatMap fun t => (pieces t).map Piece.text := by
  rw [spelledTexts]
  induction node.texts with
  | nil => rfl
  | cons t rest ih =>
      rw [List.flatMap_cons, textsOf_eq_flatMap, List.flatMap_append, ← textsOf_eq_flatMap,
        ← textsOf_eq_flatMap, textsOf_spelled, ih, List.flatMap_cons]

lemma pieces_spelledTexts (node : Node) :
    (Node.textsOf (spelledTexts node)).flatMap pieces = node.texts.flatMap pieces := by
  rw [textsOf_spelledTexts, List.flatMap_assoc]
  exact List.flatMap_congr fun t _ => flatMap_pieces_text t

mutual

/-- **A tree in pieces has the pieces of the tree.** -/
theorem pieces_inPieces : ∀ node : Node,
    node.inPieces.texts.flatMap pieces = node.texts.flatMap pieces
  | .text _ => by rw [Node.inPieces]
  | .element tag children => by
      rw [Node.inPieces]
      split
      · exact pieces_inPiecesBetween children
      · exact pieces_inPiecesAll children

theorem pieces_inPiecesBetween : ∀ nodes : List Node,
    (Node.textsOf (Node.inPiecesBetween nodes)).flatMap pieces
      = (Node.textsOf nodes).flatMap pieces
  | [] => rfl
  | node :: rest => by
      rw [Node.inPiecesBetween, textsOf_eq_flatMap, List.flatMap_append, ← textsOf_eq_flatMap,
        ← textsOf_eq_flatMap, List.flatMap_append, Node.textsOf, List.flatMap_append,
        pieces_inPiecesBetween rest]
      congr 1
      split
      · exact pieces_spelledTexts node
      · rw [Node.textsOf, Node.textsOf, List.append_nil, pieces_inPieces node]

theorem pieces_inPiecesAll : ∀ nodes : List Node,
    (Node.textsOf (Node.inPiecesAll nodes)).flatMap pieces = (Node.textsOf nodes).flatMap pieces
  | [] => rfl
  | node :: rest => by
      rw [Node.inPiecesAll, Node.textsOf, Node.textsOf, List.flatMap_append, List.flatMap_append,
        pieces_inPieces node, pieces_inPiecesAll rest]

end

/-! ## Copies of rows -/

section

variable (f : Text → Text)

lemma isNamed_mapText (name : String) : ∀ node : Node,
    (node.mapText f).isNamed name = node.isNamed name
  | .text _ => rfl
  | .element _ _ => rfl

lemma mapTextOf_eq_map : ∀ nodes : List Node, Node.mapTextOf f nodes = nodes.map (·.mapText f)
  | [] => rfl
  | node :: rest => by rw [Node.mapTextOf, mapTextOf_eq_map rest, List.map_cons]

lemma isTextRun_mapText (node : Node) : isTextRun (node.mapText f) = isTextRun node := by
  cases node with
  | text value => rfl
  | element tag children =>
      rw [isTextRun, isTextRun, isNamed_mapText, Node.mapText, Node.children, Node.children,
        mapTextOf_eq_map, List.all_map]
      congr 2
      funext child
      simp only [Function.comp_apply, isRunContent, isNamed_mapText]

lemma isRunOrMark_mapText (node : Node) : isRunOrMark (node.mapText f) = isRunOrMark node := by
  rw [isRunOrMark, isRunOrMark, isTextRun_mapText, isNamed_mapText]

end

section

variable {scope : RowScope}

lemma mapPlaceholders_text (hseg : isName scope.segment = true) {p : Piece} {t : Text}
    (h : p ∈ pieces t) : mapPlaceholders scope.token p.text = (scope.redirect p).text := by
  rw [← spelled_pieces (mapPlaceholders scope.token p.text), pieces_bound hseg, pieces_text h]
  simp

lemma spelledTexts_bindRow (hseg : isName scope.segment = true) (node : Node) :
    spelledTexts (bindRow scope node) = (spelledTexts node).map (bindRow scope) := by
  rw [spelledTexts, spelledTexts, bindRow, texts_mapText, List.flatMap_map, List.map_flatMap]
  refine List.flatMap_congr fun t _ => ?_
  rw [spelled, spelled, pieces_bound hseg, List.map_map, List.map_map]
  refine List.map_congr_left fun p hp => ?_
  rw [Function.comp_apply, Function.comp_apply, bindRow, Node.mapText, mapPlaceholders_text hseg hp]

mutual

/-- **The copy of a row in pieces is the copy of the row, in pieces.** -/
theorem inPieces_bindRow (hseg : isName scope.segment = true) : ∀ node : Node,
    (bindRow scope node).inPieces = bindRow scope node.inPieces
  | .text _ => by rw [bindRow, Node.mapText, Node.inPieces, Node.inPieces, bindRow, Node.mapText]
  | .element tag children => by
      rw [bindRow, Node.mapText, Node.inPieces, Node.inPieces]
      split
      · rw [inPiecesBetween_bindRow hseg children]
        rfl
      · rw [inPiecesAll_bindRow hseg children]
        rfl

theorem inPiecesBetween_bindRow (hseg : isName scope.segment = true) : ∀ nodes : List Node,
    Node.inPiecesBetween (Node.mapTextOf (mapPlaceholders scope.token) nodes)
      = Node.mapTextOf (mapPlaceholders scope.token) (Node.inPiecesBetween nodes)
  | [] => rfl
  | node :: rest => by
      rw [Node.mapTextOf, Node.inPiecesBetween, Node.inPiecesBetween, isRunOrMark_mapText,
        inPiecesBetween_bindRow hseg rest, mapTextOf_eq_map, mapTextOf_eq_map, List.map_append]
      congr 1
      split
      · exact spelledTexts_bindRow hseg node
      · exact congrArg (fun n => [n]) (inPieces_bindRow hseg node)

theorem inPiecesAll_bindRow (hseg : isName scope.segment = true) : ∀ nodes : List Node,
    Node.inPiecesAll (Node.mapTextOf (mapPlaceholders scope.token) nodes)
      = Node.mapTextOf (mapPlaceholders scope.token) (Node.inPiecesAll nodes)
  | [] => rfl
  | node :: rest => by
      rw [Node.mapTextOf, Node.inPiecesAll, Node.inPiecesAll, Node.mapTextOf,
        inPiecesAll_bindRow hseg rest]
      exact congrArg (· :: _) (inPieces_bindRow hseg node)

end

end

/-- What a function of the spelling and the path makes of a piece that is a placeholder. -/
def Piece.asks {α : Type} (f : Text → Path → Option α) : Piece → Option α
  | .char _ => none
  | .token t =>
    match t.meaning with
    | .placeholder path => f t.text path
    | _ => none

/-- What depends on the spellings and the paths of placeholders depends on pieces only. -/
lemma filterMap_placeholders {α : Type} (f : Text → Path → Option α) (t : Text) :
    (placeholders t).filterMap (fun p => f p.text p.path)
      = (pieces t).filterMap (Piece.asks f) := by
  have hfrom : ∀ (start : Nat) (ps : List Piece),
      ((tokensFrom start ps).filterMap fun entry =>
          entry.2.placeholder? entry.1).filterMap (fun p => f p.text p.path)
        = ps.filterMap (Piece.asks f) := by
    intro start ps
    induction ps generalizing start with
    | nil => rfl
    | cons p rest ih =>
        cases p with
        | char c => exact ih _
        | token token =>
            obtain ⟨body, meaning⟩ := token
            cases meaning with
            | placeholder path =>
                have hasked : (Piece.token ⟨body, .placeholder path⟩).asks f
                    = f (Token.text ⟨body, .placeholder path⟩) path := rfl
                rw [tokensFrom, List.filterMap_cons_some (by rfl), List.filterMap_cons,
                  List.filterMap_cons, ih, hasked]
            | opening path => exact ih _
            | alternative => exact ih _
            | closing => exact ih _
  exact hfrom 0 (pieces t)

lemma rowAliases_eq (scope : RowScope) (row : Node) :
    rowAliases scope row = (row.texts.flatMap pieces).filterMap
      (Piece.asks fun spelling path =>
        some ('@' :: (scope.resolve path).dotted ++ ['@'], spelling)) := by
  rw [rowAliases, List.filterMap_flatMap]
  refine List.flatMap_congr fun t _ => ?_
  rw [← filterMap_placeholders, List.filterMap_eq_map']
  rfl

lemma rowAliases_inPieces (scope : RowScope) (row : Node) :
    rowAliases scope row.inPieces = rowAliases scope row := by
  rw [rowAliases_eq, rowAliases_eq, pieces_inPieces]

end FormLetter
