import FormLetter.Proofs.Drafts

/-!
# Documents with sections over whole children

If every conditional marker of a document stands alone in its paragraph, sections run over whole
children, at any depth of tables and cells.  Resolving them replaces each section by the branch that
its condition selects.

* `Node.loneSign?` — what the marker means of a paragraph that shows nothing else.
* `Node.isBlockForm` — a tree in which all markers are of this kind, and the markers among the
  children of each parent pair.
* `exists_blocks` — such a tree reads as a draft with no section inside a paragraph
  (`Draft.isBlocks`).  In the meaning of such a draft every paragraph that bounds no section is kept
  as it was.
* **Sections have their meaning.** `resolveSections_blocks` — resolving gives the meaning of the
  draft if all conditions that it depends on can be evaluated, and fails with one of them otherwise.
* `resolveSections_blocks_signal` — a condition on a number that signals is not reported as one that
  cannot be evaluated.
-/

namespace FormLetter

/-! ## Paragraphs that show nothing but a marker -/

/-- The text without the blank characters at its ends. -/
def Text.strip (t : Text) : Text :=
  ((t.dropWhile isBlankChar).reverse.dropWhile isBlankChar).reverse

lemma Text.exists_strip (t : Text) :
    ∃ front back : Text, t = front ++ (Text.strip t ++ back)
      ∧ front.isBlank = true ∧ back.isBlank = true := by
  refine ⟨t.takeWhile isBlankChar,
    ((t.dropWhile isBlankChar).reverse.takeWhile isBlankChar).reverse, ?_, List.all_takeWhile, ?_⟩
  · rw [Text.strip, ← List.reverse_append, List.takeWhile_append_dropWhile, List.reverse_reverse,
      List.takeWhile_append_dropWhile]
  · rw [Text.isBlank, List.all_reverse]
    exact List.all_takeWhile

namespace Node

/-- What the marker of a paragraph means that shows nothing else: its text without blanks at the
ends is the marker, and it holds no content element. -/
def loneSign? (node : Node) : Option Meaning :=
  if node.isNamed Word.paragraph && !hasContentElement node then
    match pieces (Text.strip node.content) with
    | [piece] => piece.sign?
    | _ => none
  else none

/-- The conditional markers in the paragraphs among some children. -/
def markersOf (children : List Node) : List Marker :=
  children.flatMap fun child =>
    if child.isNamed Word.paragraph then markers child.content else []

mutual

/-- Whether each conditional marker stands alone in its paragraph, and the markers among the
children of each parent pair. -/
def isBlockForm : Node → Bool
  | .text value => (markers value).isEmpty
  | .element tag children =>
    if tag.name == Word.paragraph then
      (markers (Node.element tag children).content).isEmpty
        || (loneSign? (.element tag children)).isSome
    else (pair (markersOf children)).isOk && isBlockFormAll children

/-- Whether several trees are of this form. -/
def isBlockFormAll : List Node → Bool
  | [] => true
  | node :: rest => isBlockForm node && isBlockFormAll rest

end

lemma isBlockFormAll_eq_true {nodes : List Node} :
    isBlockFormAll nodes = true ↔ ∀ node ∈ nodes, node.isBlockForm = true := by
  induction nodes with
  | nil => simp [isBlockFormAll]
  | cons node rest ih => simp [isBlockFormAll, ih]

end Node

/-- A paragraph that shows nothing but a marker can bound a section. -/
lemma exists_boundary {node : Node} {meaning : Meaning} (h : node.loneSign? = some meaning) :
    ∃ b : Boundary meaning, b.node = node ∧ (Piece.token b.token).sign? = some meaning := by
  rw [Node.loneSign?] at h
  split at h
  · next hnode =>
      rw [Bool.and_eq_true, Bool.not_eq_true'] at hnode
      obtain ⟨front, back, hcontent, hfront, hback⟩ := Text.exists_strip node.content
      split at h
      · next piece hpiece =>
          obtain ⟨body, rfl⟩ := Phrases.eq_token_of_sign? h
          have hsound : Meaning.ofBody? body = some meaning :=
            meaning_of_mem_pieces (hpiece ▸ List.mem_singleton_self _)
          have hstrip : Text.strip node.content = Token.text ⟨body, meaning⟩ := by
            rw [← spelled_pieces (Text.strip node.content), hpiece, List.flatMap_singleton]
            rfl
          exact ⟨⟨node, body, front, back, hnode.1, hsound, hstrip ▸ hcontent, hfront, hback,
            hnode.2⟩, rfl, h⟩
      · simp at h
  · simp at h

namespace Node

lemma map_meaning_markers_of_loneSign? {node : Node} {meaning : Meaning}
    (h : node.loneSign? = some meaning) :
    (markers node.content).map Marker.meaning = [meaning] := by
  obtain ⟨b, rfl, hsign⟩ := exists_boundary h
  have hsigns := map_meaning_markersFrom 0 b.node.content
  rw [b.pieces_content, List.filterMap_append, sign?_of_isBlank, List.nil_append,
    List.filterMap_cons_some hsign, sign?_of_isBlank] at hsigns
  exact hsigns

/-- In block form the markers among children are those of the paragraphs that show nothing else. -/
lemma map_meaning_markersOf {nodes : List Node} (h : ∀ node ∈ nodes, node.isBlockForm = true) :
    (markersOf nodes).map Marker.meaning = nodes.filterMap loneSign? := by
  have hnode : ∀ node ∈ nodes,
      (if node.isNamed Word.paragraph then markers node.content else []).map Marker.meaning
        = (loneSign? node).toList := by
    intro node hmem
    cases hsign : node.loneSign? with
    | some meaning =>
        obtain ⟨b, rfl, -⟩ := exists_boundary hsign
        rw [if_pos b.isParagraph, map_meaning_markers_of_loneSign? hsign]
        rfl
    | none =>
        have hform := h node hmem
        cases node with
        | text value => rfl
        | element tag children =>
            rw [isBlockForm, hsign] at hform
            split
            · next hpar =>
                rw [if_pos (by exact hpar), Option.isSome_none, Bool.or_false] at hform
                rw [List.isEmpty_iff.mp hform]
                rfl
            · rfl
  rw [markersOf, List.map_flatMap, List.flatMap_congr hnode, List.filterMap_eq_flatMap_toList]

end Node

/-! ## Reading the children -/

/-- A paragraph without markers. -/
def Line.ofBare (node : Node) (hpar : node.isNamed Word.paragraph = true)
    (h : ∀ p ∈ pieces node.content, p.sign? = none) : Line where
  node := node
  phrases := Phrases.prepend (pieces node.content) h .nil
  isParagraph := hpar
  reads := by rw [Phrases.pieces_prepend, Phrases.pieces, List.append_nil]
  sound := Or.inl (Phrases.isPlain_prepend _ h .nil)

namespace Draft

/-- Whether no section stands inside a paragraph. -/
def isBlocks : Draft → Bool
  | nil => true
  | loose _ _ rest => rest.isBlocks
  | paragraph line rest => line.phrases.isPlain && rest.isBlocks
  | element _ _ children rest => children.isBlocks && rest.isBlocks
  | plain _ _ branch _ rest => branch.isBlocks && rest.isBlocks
  | divided _ _ first _ second _ rest => first.isBlocks && second.isBlocks && rest.isBlocks

lemma isBlocks_append (draft others : Draft) :
    (draft.append others).isBlocks = (draft.isBlocks && others.isBlocks) := by
  induction draft with
  | nil => rfl
  | loose value bare rest ih => exact ih
  | paragraph line rest ih => simp [append, isBlocks, ih, Bool.and_assoc]
  | element tag nested children rest _ ih => simp [append, isBlocks, ih, Bool.and_assoc]
  | plain path opening branch closing rest _ ih => simp [append, isBlocks, ih, Bool.and_assoc]
  | divided path opening first middle second closing rest _ _ ih =>
      simp [append, isBlocks, ih, Bool.and_assoc]

lemma eq_nil_of_nodes {draft : Draft} (h : draft.nodes = []) : draft = nil := by
  cases draft <;> simp_all [nodes]

/-- Children that can be read one by one can be read together. -/
lemma exists_bare {nodes : List Node}
    (h : ∀ node ∈ nodes, ∃ draft : Draft, draft.nodes = [node] ∧ draft.isBlocks = true) :
    ∃ draft : Draft, draft.nodes = nodes ∧ draft.isBlocks = true := by
  induction nodes with
  | nil => exact ⟨nil, rfl, rfl⟩
  | cons node rest ih =>
      obtain ⟨hnode, hrest⟩ := List.forall_mem_cons.mp h
      obtain ⟨first, hfirst, hblocks⟩ := hnode
      obtain ⟨others, hothers, hblocks'⟩ := ih hrest
      exact ⟨first.append others, by rw [nodes_append, hfirst, hothers]; rfl,
        by rw [isBlocks_append, hblocks, hblocks']; rfl⟩

/-- **Children whose markers nest have a reading,** if those without markers have one. -/
theorem exists_nested {ms : List Marker} {blocks : List Block} (h : Nested ms blocks)
    {nodes : List Node} (hsigns : nodes.filterMap Node.loneSign? = ms.map Marker.meaning)
    (hbare : ∀ node ∈ nodes, node.loneSign? = none →
      ∃ draft : Draft, draft.nodes = [node] ∧ draft.isBlocks = true) :
    ∃ draft : Draft, draft.nodes = nodes ∧ draft.isBlocks = true := by
  induction h generalizing nodes with
  | nil =>
      have hnone : ∀ node ∈ nodes, node.loneSign? = none := List.filterMap_eq_nil_iff.mp hsigns
      exact exists_bare fun node hnode => hbare node hnode (hnone node hnode)
  | @plain _ _ condition _ _ _ _ _ _ ihinner ihrest =>
      rw [List.map_cons, List.filterMap_eq_cons_iff] at hsigns
      obtain ⟨front, o, tail, rfl, hfront, ho, htail⟩ := hsigns
      rw [List.map_append, List.map_cons] at htail
      obtain ⟨branch, c, back, rfl, hc, hbranch, hback⟩ := exists_split htail
      simp only [List.forall_mem_append, List.forall_mem_cons] at hbare
      obtain ⟨hbarefront, -, hbarebranch, -, hbareback⟩ := hbare
      obtain ⟨opening, rfl, -⟩ := exists_boundary ho
      obtain ⟨closing, rfl, -⟩ := exists_boundary hc
      obtain ⟨before, rfl, hbefore⟩ := exists_bare fun node hnode =>
        hbarefront node hnode (hfront node hnode)
      obtain ⟨inner, rfl, hinner⟩ := ihinner hbranch hbarebranch
      obtain ⟨rest, rfl, hrest⟩ := ihrest hback hbareback
      exact ⟨before.append (.plain condition.path opening inner closing rest), nodes_append _ _,
        by simp [isBlocks_append, isBlocks, hbefore, hinner, hrest]⟩
  | @divided _ _ _ condition _ _ _ _ _ _ _ _ _ ihfirst ihsecond ihrest =>
      rw [List.map_cons, List.filterMap_eq_cons_iff] at hsigns
      obtain ⟨front, o, tail, rfl, hfront, ho, htail⟩ := hsigns
      rw [List.map_append, List.map_cons] at htail
      obtain ⟨branch, a, behind, rfl, ha, hbranch, hbehind⟩ := exists_split htail
      rw [List.map_append, List.map_cons] at hbehind
      obtain ⟨branch', c, back, rfl, hc, hbranch', hback⟩ := exists_split hbehind
      simp only [List.forall_mem_append, List.forall_mem_cons] at hbare
      obtain ⟨hbarefront, -, hbarebranch, -, hbarebranch', -, hbareback⟩ := hbare
      obtain ⟨opening, rfl, -⟩ := exists_boundary ho
      obtain ⟨middle, rfl, -⟩ := exists_boundary ha
      obtain ⟨closing, rfl, -⟩ := exists_boundary hc
      obtain ⟨before, rfl, hbefore⟩ := exists_bare fun node hnode =>
        hbarefront node hnode (hfront node hnode)
      obtain ⟨first, rfl, hfirst⟩ := ihfirst hbranch hbarebranch
      obtain ⟨second, rfl, hsecond⟩ := ihsecond hbranch' hbarebranch'
      obtain ⟨rest, rfl, hrest⟩ := ihrest hback hbareback
      exact ⟨before.append (.divided condition.path opening first middle second closing rest),
        nodes_append _ _, by simp [isBlocks_append, isBlocks, hbefore, hfirst, hsecond, hrest]⟩

/-- **A child in block form has a reading** unless it is a marker. -/
theorem exists_child : ∀ node : Node, node.isBlockForm = true → node.loneSign? = none →
    ∃ draft : Draft, draft.nodes = [node] ∧ draft.isBlocks = true
  | .text value, h, _ => ⟨.loose value (List.isEmpty_iff.mp h) .nil, rfl, rfl⟩
  | .element tag children, h, hbare => by
      rw [Node.isBlockForm, hbare, Option.isSome_none, Bool.or_false] at h
      split at h
      · next hpar =>
          have hsigns := map_meaning_markersFrom 0 (Node.element tag children).content
          rw [← markers_eq_markersFrom, List.isEmpty_iff.mp h, List.map_nil, eq_comm,
            List.filterMap_eq_nil_iff] at hsigns
          refine ⟨.paragraph (.ofBare (.element tag children) hpar hsigns) .nil, rfl, ?_⟩
          rw [isBlocks, isBlocks, Bool.and_true]
          exact Phrases.isPlain_prepend _ hsigns .nil
      · next hpar =>
          rw [Bool.and_eq_true, Node.isBlockFormAll_eq_true] at h
          obtain ⟨blocks, hblocks⟩ := isOk_eq_true.mp h.1
          obtain ⟨inner, rfl, hinner⟩ := exists_nested (nested_of_pair hblocks)
            (Node.map_meaning_markersOf h.2).symm fun node hnode =>
              exists_child node (h.2 node hnode)
          exact ⟨.element tag (by simpa using hpar) inner .nil, rfl, by simp [isBlocks, hinner]⟩
termination_by node => sizeOf node
decreasing_by
  have := List.sizeOf_lt_of_mem hnode
  simp
  omega

end Draft

/-! ## Sections have their meaning -/

/-- **Sections over whole children have their meaning.**  The children of a tree in block form have
a reading without sections inside paragraphs.  Whatever reading they are given, if all conditions
that its meaning depends on can be evaluated, resolving the sections leaves this meaning, and
otherwise it fails with such a condition. -/
theorem resolveSections_blocks {tree : Node} (hroot : tree.isNamed Word.paragraph = false)
    (h : tree.isBlockForm = true) (data : Value) :
    (∃ draft : Draft, draft.nodes = tree.children ∧ draft.isBlocks = true)
      ∧ ∀ draft : Draft, draft.nodes = tree.children →
        ((∀ path ∈ draft.reached (truth data), Decided data path) →
            resolveSections tree data = .ok (tree.withChildren (draft.eval (truth data))))
          ∧ ((∃ path ∈ draft.reached (truth data), ¬ Decided data path) →
            ∃ path ∈ draft.reached (truth data), ∃ reason, isTruthy data path = .error reason
              ∧ resolveSections tree data = .error (.ofReason (.ofPath path) reason)) := by
  cases tree with
  | text value =>
      have hbare : markers (flatText (.text value)) = [] := by
        rw [flatText_text]
        exact List.isEmpty_iff.mp h
      refine ⟨⟨.nil, rfl, rfl⟩, fun draft hdraft => ⟨fun _ => ?_, ?_⟩⟩
      · exact (Course.still hbare (truth data)).resolveSections_ok () (by simp [Course.still])
      · obtain rfl := draft.eq_nil_of_nodes hdraft
        simp [Draft.reached]
  | element tag children =>
      have htag : tag.name ≠ Word.paragraph := by simpa [Node.isNamed] using hroot
      rw [Node.isBlockForm, if_neg (by simpa using htag), Bool.and_eq_true,
        Node.isBlockFormAll_eq_true] at h
      obtain ⟨blocks, hblocks⟩ := isOk_eq_true.mp h.1
      refine ⟨Draft.exists_nested (nested_of_pair hblocks) (Node.map_meaning_markersOf h.2).symm
        fun node hnode => Draft.exists_child node (h.2 node hnode), ?_⟩
      rintro draft rfl
      exact ⟨(Draft.course htag (truth data)).resolveSections_ok draft,
        (Draft.course htag (truth data)).resolveSections_error draft⟩

/-- A paragraph with one run. -/
def plainParagraph (t : Text) : Node := .element ⟨Word.paragraph, [], []⟩ [Word.makeRun t none]

lemma content_plainParagraph (t : Text) : (plainParagraph t).content = t := by
  simp [plainParagraph, Word.makeRun, Node.content, Node.texts, Node.textsOf]

/-- A paragraph of one run that shows a marker with blanks around it. -/
def Boundary.ofSpelling {meaning : Meaning} (front body back : Text)
    (sound : Meaning.ofBody? body = some meaning) (hfront : front.isBlank = true)
    (hback : back.isBlank = true) : Boundary meaning where
  node := plainParagraph (front ++ (Token.text ⟨body, meaning⟩ ++ back))
  body := body
  front := front
  back := back
  isParagraph := rfl
  sound := sound
  content := content_plainParagraph _
  blank_front := hfront
  blank_back := hback
  bare := rfl

/-- A paragraph of one run without markers. -/
def Line.ofText (t : Text) (h : ∀ p ∈ pieces t, p.sign? = none) : Line :=
  .ofBare (plainParagraph t) rfl (by rwa [content_plainParagraph])

/-- A table with one cell. -/
def cellTable (content : List Node) : Node :=
  .element ⟨Word.table, [], []⟩
    [.element ⟨Word.row, [], []⟩ [.element ⟨Word.named "tc", [], []⟩ content]]

theorem resolveSections_blocks_nested :
    let body (children : List Node) : Node := .element ⟨Word.named "body", [], []⟩ children
    let shown (t : String) := plainParagraph t.toList
    let tree := body [shown "@if:a@ ",
      cellTable [shown "@IF:b@", shown "x", shown "@else@", shown "y", shown "@endif@"],
      shown "@endif@", shown "z"]
    let data := flags [("a", true), ("b", false)]
    tree.isNamed Word.paragraph = false ∧ tree.isBlockForm = true
      ∧ resolveSections tree data = .ok (body [cellTable [shown "y"], shown "z"]) := by
  intro body shown tree data
  have hform : tree.isBlockForm = true := by decide +kernel
  let line (t : String) (h : ∀ p ∈ pieces t.toList, p.sign? = none) := Line.ofText t.toList h
  let cell : Draft := .divided [['b']] (.ofSpelling [] "IF:b".toList [] rfl rfl rfl)
    (.paragraph (line "x" (by decide +kernel)) .nil)
    (.ofSpelling [] "else".toList [] rfl rfl rfl)
    (.paragraph (line "y" (by decide +kernel)) .nil)
    (.ofSpelling [] "endif".toList [] rfl rfl rfl) .nil
  let table : Draft := .element ⟨Word.table, [], []⟩ (by decide)
    (.element ⟨Word.row, [], []⟩ (by decide)
      (.element ⟨Word.named "tc", [], []⟩ (by decide) cell .nil) .nil) .nil
  let draft : Draft := .plain [['a']] (.ofSpelling [] "if:a".toList [' '] rfl rfl rfl) table
    (.ofSpelling [] "endif".toList [] rfl rfl rfl)
    (.paragraph (line "z" (by decide +kernel)) .nil)
  have hdraft : draft.nodes = tree.children := by decide +kernel
  have hdecided : ∀ path ∈ draft.reached (truth data), Decided data path := by decide +kernel
  have hmeaning : tree.withChildren (draft.eval (truth data))
      = body [cellTable [shown "y"], shown "z"] := by decide +kernel
  exact ⟨rfl, hform, hmeaning ▸ ((resolveSections_blocks rfl hform data).2 draft hdraft).1 hdecided⟩

/-- A condition on a number that signals cannot be evaluated, but the failure does not say so: it is
one of arithmetic. -/
theorem resolveSections_blocks_signal :
    let tree := plainBody ["@if:a@", "x", "@endif@"]
    let data : Value := .mapping [(.text ['a'], .decimal (.nan false true 0))]
    tree.isBlockForm = true ∧ isTruthy data [['a']] = .error .signal
      ∧ resolveSections tree data = .error .signal := by
  decide +kernel

end FormLetter
