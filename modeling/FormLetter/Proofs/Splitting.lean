import Mathlib.Logic.Relation
import FormLetter.Proofs.JoinedRuns
import FormLetter.Proofs.Passes

/-!
# Where runs are split

An editor splits the runs of a paragraph wherever it likes, and leaves proofing marks in between.
Merging does not depend on it.

* `SplitStep` — a simple run of a paragraph is split in two.  `SplitStep.reading_eq` — that is not
  a matter of reading, and `SplitStep.hasSimpleRuns` — it leaves runs simple.
* `shown_mergeTree` — what a merged template without sections shows, or how it fails, is a matter
  of reading.
* **Merging does not see splits.** `renderTree_splits` — a template without sections and the
  template with any number of its runs split merge to documents that show the same, or fail alike.
  It needs runs whose text elements hold nothing but text: paragraphs inside them are missed, which
  `renderTree_splits_nested` shows.
-/

namespace FormLetter

/-! ## Splitting a run -/

/-- A simple run of a paragraph is split in two simple runs that show its text between them, with
any number of textless proofing marks in between.  The runs may differ in format; in particular both
may have that of the run. -/
inductive SplitStep : Node → Node → Prop
  | split {tag : StartTag} {before after marks : List Node} {run first second : Node}
      (hparagraph : (tag.name == Word.paragraph) = true) (hrun : isSimpleRun run = true)
      (hfirst : isSimpleRun first = true) (hsecond : isSimpleRun second = true)
      (hmarks : ∀ mark ∈ marks, mark.isNamed Word.proofingMark = true ∧ mark.content = [])
      (htext : runContent run = runContent first ++ runContent second) :
      SplitStep (.element tag (before ++ run :: after))
        (.element tag (before ++ first :: (marks ++ second :: after)))
  | inside {tag : StartTag} {before after : List Node} {node divided : Node}
      (h : SplitStep node divided) :
      SplitStep (.element tag (before ++ node :: after)) (.element tag (before ++ divided :: after))

lemma isTextRun_of_paragraph {node : Node} (h : node.isNamed Word.paragraph = true) :
    isTextRun node = false := by
  cases node with
  | text value => rfl
  | element tag children =>
      have hother : (Word.paragraph == Word.run) = false := by decide +kernel
      rw [Node.isNamed, beq_iff_eq] at h
      rw [isTextRun, Node.isNamed, h, hother, Bool.false_and]

namespace SplitStep

variable {node divided : Node}

lemma isNamed_eq (h : SplitStep node divided) (name : String) :
    divided.isNamed name = node.isNamed name := by
  cases h <;> rfl

/-- Splitting runs keeps the text. -/
lemma content_eq (h : SplitStep node divided) : divided.content = node.content := by
  induction h with
  | @split tag before after marks run first second _ hrun hfirst hsecond hmarks htext =>
      have hnone : Node.contentOf marks = [] := by
        rw [Node.contentOf, textsOf_eq_flatMap, List.flatten_eq_nil_iff]
        intro t ht
        obtain ⟨mark, hmark, hmem⟩ := List.mem_flatMap.mp ht
        exact content_eq_nil_iff.mp (hmarks mark hmark).2 t hmem
      simp [content_element, contentOf_append, content_of_isSimpleRun, hrun, hfirst, hsecond,
        hnone, htext]
  | inside _ ih => simp [content_element, contentOf_append, ih]

lemma isTextRun_eq (h : SplitStep node divided) : isTextRun divided = isTextRun node := by
  cases h with
  | split hparagraph _ _ _ _ _ =>
      rw [isTextRun_of_paragraph (by exact hparagraph),
        isTextRun_of_paragraph (by exact hparagraph)]
  | inside h =>
      simp only [FormLetter.isTextRun, Node.children, List.all_append, List.all_cons, isRunContent,
        h.isNamed_eq]
      rfl

/-- What a text run shows stays the same when it is split inside. -/
lemma runContent_eq (h : SplitStep node divided) (hrun : isTextRun node = true) :
    runContent divided = runContent node := by
  cases h with
  | split hparagraph _ _ _ _ _ =>
      rw [isTextRun_of_paragraph (by exact hparagraph)] at hrun
      exact absurd hrun (by simp)
  | @inside tag before after node divided h =>
      simp only [runContent, Node.childrenNamed, Node.children, List.filter_append,
        List.filter_cons, h.isNamed_eq, contentOf_append]
      split <;> simp [h.content_eq]

/-! ## Reading and splitting -/

lemma readingFrom_congr {nodes others : List Node}
    (h : ∀ waiting, Node.readingFrom waiting nodes = Node.readingFrom waiting others)
    (before : List Node) (waiting : Text) :
    Node.readingFrom waiting (before ++ nodes) = Node.readingFrom waiting (before ++ others) := by
  induction before generalizing waiting with
  | nil => exact h waiting
  | cons node rest ih =>
      rw [List.cons_append, List.cons_append, Node.readingFrom, Node.readingFrom, ih, ih, ih]

lemma readingFrom_marks {marks : List Node}
    (h : ∀ mark ∈ marks, mark.isNamed Word.proofingMark = true ∧ mark.content = [])
    (waiting : Text) (nodes : List Node) :
    Node.readingFrom waiting (marks ++ nodes) = Node.readingFrom waiting nodes := by
  induction marks with
  | nil => rfl
  | cons mark rest ih =>
      obtain ⟨⟨hmark, -⟩, hrest⟩ := List.forall_mem_cons.mp h
      rw [List.cons_append, Node.readingFrom, if_neg (by simp [isTextRun_of_proofingMark hmark]),
        if_pos hmark, ih hrest]

lemma readingAll_eq_map (nodes : List Node) :
    Node.readingAll nodes = nodes.map Node.reading := by
  induction nodes with
  | nil => rfl
  | cons node rest ih => rw [Node.readingAll, ih, List.map_cons]

/-- **Where runs are split is not a matter of reading.** -/
theorem reading_eq (h : SplitStep node divided) : divided.reading = node.reading := by
  induction h with
  | @split tag before after marks run first second hparagraph hrun hfirst hsecond hmarks htext =>
      rw [Node.reading, Node.reading, if_pos hparagraph, if_pos hparagraph]
      refine congrArg _ (readingFrom_congr (fun waiting => ?_) before [])
      rw [Node.readingFrom, if_pos (isTextRun_of_isSimpleRun hfirst), readingFrom_marks hmarks,
        Node.readingFrom, if_pos (isTextRun_of_isSimpleRun hsecond), Node.readingFrom,
        if_pos (isTextRun_of_isSimpleRun hrun), htext, List.append_assoc]
  | @inside tag before after node divided h ih =>
      have hfrom : ∀ waiting, Node.readingFrom waiting (divided :: after)
          = Node.readingFrom waiting (node :: after) := fun waiting => by
        rw [Node.readingFrom, Node.readingFrom, h.isTextRun_eq, h.isNamed_eq, ih]
        split
        · next hrun => rw [h.runContent_eq hrun]
        · rfl
      rw [Node.reading, Node.reading, readingFrom_congr hfrom, readingAll_eq_map,
        readingAll_eq_map, List.map_append, List.map_append, List.map_cons, List.map_cons, ih]

/-! ## Splitting leaves runs simple -/

/-- A run to split is an element, and so are the elements around it. -/
lemma exists_isElement (h : SplitStep node divided) : ∃ child ∈ node.children, child.isElement := by
  cases h with
  | @split tag before after marks run _ _ _ hrun _ _ _ _ =>
      refine ⟨run, by simp [Node.children], ?_⟩
      cases run with
      | text value => simp [FormLetter.isSimpleRun, FormLetter.isTextRun, Node.isNamed] at hrun
      | element tag children => rfl
  | @inside tag before after node divided h =>
      refine ⟨node, by simp [Node.children], ?_⟩
      cases h <;> rfl

/-- A text element of a simple run has nothing to split. -/
lemma not_runText {run : Node} (hrun : FormLetter.isSimpleRun run = true)
    (hchild : node ∈ run.children) (h : SplitStep node divided) :
    node.isNamed Word.runText = false := by
  rw [Bool.eq_false_iff]
  intro hname
  obtain ⟨child, hmem, helement⟩ := h.exists_isElement
  rcases children_of_isSimpleRun hrun (List.mem_filter.mpr ⟨hchild, hname⟩) with
    hnone | ⟨value, hone⟩
  · simp [hnone] at hmem
  · rw [hone, List.mem_singleton] at hmem
    simp [hmem, Node.isElement] at helement

/-- A simple run stays simple when a run inside its format is split. -/
lemma isSimpleRun (h : SplitStep node divided) (hrun : FormLetter.isSimpleRun node = true) :
    FormLetter.isSimpleRun divided = true := by
  have htextRun := isTextRun_of_isSimpleRun hrun
  have hdivided := h.isTextRun_eq.trans htextRun
  cases h with
  | split hparagraph _ _ _ _ _ =>
      rw [isTextRun_of_paragraph (by exact hparagraph)] at htextRun
      exact absurd htextRun (by simp)
  | @inside tag before after node divided h =>
      have hother := h.not_runText hrun (by simp [Node.children])
      have htexts : (Node.element tag (before ++ divided :: after)).childrenNamed Word.runText
          = (Node.element tag (before ++ node :: after)).childrenNamed Word.runText := by
        simp [Node.childrenNamed, Node.children, h.isNamed_eq, hother]
      have hformats : ((Node.element tag (before ++ divided :: after)).childrenNamed
            Word.runProperties).all (·.content.isEmpty)
          = ((Node.element tag (before ++ node :: after)).childrenNamed
            Word.runProperties).all (·.content.isEmpty) := by
        simp only [Node.childrenNamed, Node.children, List.all_filter, List.all_append,
          List.all_cons, h.isNamed_eq, h.content_eq]
      rw [FormLetter.isSimpleRun, htextRun] at hrun
      rwa [FormLetter.isSimpleRun, hdivided, htexts, hformats]

lemma simpleAll_eq_all (nodes : List Node) :
    Node.simpleAll nodes = nodes.all Node.hasSimpleRuns := by
  induction nodes with
  | nil => rfl
  | cons node rest ih => rw [Node.simpleAll, ih, List.all_cons]

lemma simpleBetween_marks {marks : List Node}
    (h : ∀ mark ∈ marks, mark.isNamed Word.proofingMark = true ∧ mark.content = []) :
    Node.simpleBetween marks = true := by
  induction marks with
  | nil => rfl
  | cons mark rest ih =>
      obtain ⟨hmark, hrest⟩ := List.forall_mem_cons.mp h
      exact simpleBetween_cons.mpr ⟨Or.inr (Or.inl hmark), ih hrest⟩

/-- **Splitting a run leaves all runs simple.** -/
theorem hasSimpleRuns (h : SplitStep node divided) (hsimple : node.hasSimpleRuns = true) :
    divided.hasSimpleRuns = true := by
  induction h with
  | @split tag before after marks run first second hparagraph hrun hfirst hsecond hmarks htext =>
      rw [Node.hasSimpleRuns, if_pos hparagraph, simpleBetween_append, Bool.and_eq_true,
        simpleBetween_cons] at hsimple ⊢
      refine ⟨hsimple.1, Or.inl hfirst, ?_⟩
      rw [simpleBetween_append, simpleBetween_marks hmarks, Bool.true_and, simpleBetween_cons]
      exact ⟨Or.inl hsecond, hsimple.2.2⟩
  | @inside tag before after node divided h ih =>
      rw [Node.hasSimpleRuns] at hsimple ⊢
      split at hsimple
      · next hparagraph =>
          rw [if_pos hparagraph]
          rw [simpleBetween_append, Bool.and_eq_true, simpleBetween_cons] at hsimple ⊢
          refine ⟨hsimple.1, ?_, hsimple.2.2⟩
          rcases hsimple.2.1 with hrun | ⟨hmark, hbare⟩ | ⟨hother, hinner⟩
          · exact Or.inl (h.isSimpleRun hrun)
          · exact Or.inr (Or.inl ⟨by rwa [h.isNamed_eq], by rwa [h.content_eq]⟩)
          · exact Or.inr (Or.inr
              ⟨by rwa [isRunOrMark, h.isTextRun_eq, h.isNamed_eq, ← isRunOrMark], ih hinner⟩)
      · next hother =>
          rw [if_neg hother]
          rw [simpleAll_eq_all, List.all_append, List.all_cons, Bool.and_eq_true, Bool.and_eq_true]
            at hsimple ⊢
          exact ⟨hsimple.1, ih hsimple.2.1, hsimple.2.2⟩

end SplitStep

/-! ## Merging -/

/-- **What a merged template without sections shows** is a matter of reading. -/
theorem shown_mergeTree {tree : Node} (hmarkers : markers (flatText tree) = [])
    (hsimple : tree.hasSimpleRuns = true) (data : Value) :
    (mergeTree tree data).map shown = (finish tree.reading data).map shown := by
  have hresolved : resolveSections (joinRuns tree) data = .ok (joinRuns tree) :=
    resolveSections_eq_ok.mpr ⟨.start _, by rwa [flatText_joinRuns hsimple]⟩
  rw [mergeTree, hresolved, ← inPieces_joinRuns tree hsimple,
    finish_inPieces (hasSimpleRuns_joinRuns tree hsimple)]
  rfl

lemma map_shown_renderTree (tree : Node) (data : Value) (part : Option String) :
    (renderTree tree data part).map shown
      = ((mergeTree tree data).map shown).mapError (·.inPart part) :=
  (mapError_map ..).symm

/-- **Merging does not see splits:** a template without sections, and the template with any number
of its runs split, merge to documents that show the same, or fail alike. -/
theorem renderTree_splits {tree divided : Node} (hmarkers : markers (flatText tree) = [])
    (hsimple : tree.hasSimpleRuns = true)
    (hsplits : Relation.ReflTransGen SplitStep tree divided) (data : Value)
    (part : Option String) :
    (renderTree divided data part).map shown = (renderTree tree data part).map shown := by
  have hdivided : divided.hasSimpleRuns = true ∧ divided.reading = tree.reading := by
    induction hsplits with
    | refl => exact ⟨hsimple, rfl⟩
    | tail _ hstep ih => exact ⟨hstep.hasSimpleRuns ih.1, hstep.reading_eq.trans ih.2⟩
  have hflat : flatText divided = flatText tree := by
    rw [← flatText_reading hdivided.1, hdivided.2, flatText_reading hsimple]
  rw [map_shown_renderTree, map_shown_renderTree, shown_mergeTree (by rwa [hflat]) hdivided.1,
    shown_mergeTree hmarkers hsimple, hdivided.2]

/-- A letter with a table of one template row. -/
def letterOf (greeting row : List Node) : Node :=
  .element ⟨Word.named "body", [], []⟩
    [.element ⟨Word.paragraph, [], []⟩ greeting,
      .element ⟨Word.table, [], []⟩ [.element ⟨Word.row, [], []⟩
        [.element ⟨Word.paragraph, [], []⟩ row]]]

theorem renderTree_splits_letter :
    let mark : Node := .element ⟨Word.proofingMark, [], []⟩ []
    let letter := letterOf [dividedRun ["Dear @name@"]] [dividedRun ["@items.title@"]]
    let edited := letterOf [dividedRun ["Dear @na"], mark, dividedRun ["me@"]]
      [dividedRun ["@items.ti"], dividedRun ["tle@"]]
    let item (title : String) : Value := .mapping [(.text "title".toList, .text title.toList)]
    let data : Value := .mapping [(.text "name".toList, .text "Ada".toList),
      (.text "items".toList, .list [item "Notes", item "Letters"])]
    markers (flatText letter) = []
      ∧ letter.hasSimpleRuns = true
      ∧ Relation.ReflTransGen SplitStep letter edited
      ∧ (renderTree edited data none).map shown = (renderTree letter data none).map shown
      ∧ ((renderTree letter data none).map shown).toOption
        = some ("Dear Ada\nNotes\nLetters".toList, [2]) := by
  intro mark letter edited item data
  have hmarkers : markers (flatText letter) = [] := by decide +kernel
  have hsimple : letter.hasSimpleRuns = true := by decide +kernel
  have hgreeting : SplitStep letter
      (letterOf [dividedRun ["Dear @na"], mark, dividedRun ["me@"]]
        [dividedRun ["@items.title@"]]) :=
    @SplitStep.inside _ [] _ _ _ (@SplitStep.split _ [] [] [mark] _ _ _
      (by decide +kernel) (by decide +kernel) (by decide +kernel) (by decide +kernel)
      (by decide +kernel) (by decide +kernel))
  have hrow : SplitStep (letterOf [dividedRun ["Dear @na"], mark, dividedRun ["me@"]]
        [dividedRun ["@items.title@"]]) edited :=
    @SplitStep.inside _ [_] [] _ _ (@SplitStep.inside _ [] [] _ _ (@SplitStep.inside _ [] [] _ _
      (@SplitStep.split _ [] [] [] _ _ _
        (by decide +kernel) (by decide +kernel) (by decide +kernel) (by decide +kernel)
        (by simp) (by decide +kernel))))
  have hsplits : Relation.ReflTransGen SplitStep letter edited :=
    (Relation.ReflTransGen.single hgreeting).tail hrow
  exact ⟨hmarkers, hsimple, hsplits, renderTree_splits hmarkers hsimple hsplits data none,
    by decide +kernel⟩

/-- Whether a run has one text element at most, which holds one text node at most, whatever else it
holds. -/
def hasOneText (run : Node) : Bool :=
  (run.childrenNamed Word.runText).length ≤ 1
    && (run.childrenNamed Word.runText).all fun shown =>
      (shown.children.filter fun child => !child.isElement).length ≤ 1

mutual

/-- Whether each text run of a paragraph has one text at most, and formats and proofing marks hold
none. -/
def Node.hasOneTexts : Node → Bool
  | .text _ => true
  | .element tag children =>
    (tag.name != Word.paragraph || children.all fun child => !isTextRun child || hasOneText child)
      && (tag.name != Word.runProperties && tag.name != Word.proofingMark
        || (Node.contentOf children).isEmpty)
      && Node.hasOneTextsAll children

/-- Whether this holds of several trees. -/
def Node.hasOneTextsAll : List Node → Bool
  | [] => true
  | node :: rest => Node.hasOneTexts node && Node.hasOneTextsAll rest

end

/-- A paragraph whose only run has a text element around another paragraph. -/
def wrapped (inner : Node) : Node :=
  .element ⟨Word.paragraph, [], []⟩
    [.element ⟨Word.run, [], []⟩ [.element ⟨Word.runText, [], []⟩ [inner]]]

/-- Every paragraph is to be joined, wherever it stands.  Joining passes over text runs, though, and
takes a run for one that holds nothing but text if its children are text elements, whatever these
hold.  So a paragraph inside the text element of a run stays split, and merging sees the split. -/
theorem renderTree_splits_nested :
    let tree := wrapped (paragraphOf [["@name@"]])
    let divided := wrapped (paragraphOf [["@na"], ["me@"]])
    markers (flatText tree) = []
      ∧ tree.hasOneTexts = true
      ∧ SplitStep tree divided
      ∧ (renderTree tree (.mapping []) none).isOk = false
      ∧ (renderTree divided (.mapping []) none).isOk = true := by
  refine ⟨by decide +kernel, by decide +kernel, ?_, by decide +kernel, by decide +kernel⟩
  exact @SplitStep.inside _ [] [] _ _ (@SplitStep.inside _ [] [] _ _ (@SplitStep.inside _ [] [] _ _
    (@SplitStep.split _ [] [] [] _ _ _
      (by decide +kernel) (by decide +kernel) (by decide +kernel) (by decide +kernel)
      (by simp) (by decide +kernel))))

end FormLetter
