import FormLetter.Proofs.Shown

/-!
# Joined runs, read

Joining the runs of a paragraph is a matter of groups and borders.  What comes of it can be said
without them, once the text is in pieces.

* `Node.reading` — a tree as a reader takes it in: in each paragraph the text of neighbouring runs
  is read as one, proofing marks or not, and stands there in pieces.
* `readingFrom_of_finished` — a group that is finished is read apart from what follows it.
* `inPieces_joinRuns` — a joined tree in pieces is the tree in reading, if its runs are simple.
  They stay so (`hasSimpleRuns_joinRuns`), and the flat text stays the same
  (`flatText_joinRuns`).
-/

namespace FormLetter

/-! ## Reading a tree -/

mutual

/-- A tree with the text of neighbouring runs read together and in pieces. -/
def Node.reading : Node → Node
  | .text value => .text value
  | .element tag children =>
    if tag.name == Word.paragraph then .element tag (Node.readingFrom [] children)
    else .element tag (Node.readingAll children)

/-- The remaining children of a paragraph in reading, when the text of the runs before them is still
to be read. -/
def Node.readingFrom (waiting : Text) : List Node → List Node
  | [] => spelled waiting
  | node :: rest =>
    if isTextRun node then Node.readingFrom (waiting ++ runContent node) rest
    else if node.isNamed Word.proofingMark then Node.readingFrom waiting rest
    else spelled waiting ++ Node.reading node :: Node.readingFrom [] rest

/-- Several trees in reading. -/
def Node.readingAll : List Node → List Node
  | [] => []
  | node :: rest => Node.reading node :: Node.readingAll rest

end

/-! ## Finished texts -/

lemma spelled_append {t : Text} (h : isUnfinished t = false) (u : Text) :
    spelled (t ++ u) = spelled t ++ spelled u := by
  rw [spelled, pieces_append_of_finished h, List.map_append]
  rfl

/-- A finished text is read apart from what follows it. -/
lemma readingFrom_append {t : Text} (h : isUnfinished t = false) (u : Text) (nodes : List Node) :
    Node.readingFrom (t ++ u) nodes = spelled t ++ Node.readingFrom u nodes := by
  induction nodes generalizing u with
  | nil => exact spelled_append h u
  | cons node rest ih =>
      rw [Node.readingFrom, Node.readingFrom]
      split
      · rw [List.append_assoc, ih]
      · split
        · exact ih u
        · rw [spelled_append h, List.append_assoc]

lemma readingFrom_of_finished {t : Text} (h : isUnfinished t = false) (nodes : List Node) :
    Node.readingFrom t nodes = spelled t ++ Node.readingFrom [] nodes := by
  have happend := readingFrom_append h [] nodes
  rwa [List.append_nil] at happend

/-! ## Simple runs in pieces -/

/-- A part of a list from which nothing comes can be left out. -/
lemma flatMap_filter_of_nil {α β : Type} {p : α → Bool} {f : α → List β} {l : List α}
    (h : ∀ x ∈ l, p x = false → f x = []) : (l.filter p).flatMap f = l.flatMap f := by
  induction l with
  | nil => rfl
  | cons x rest ih =>
      obtain ⟨hx, hrest⟩ := List.forall_mem_cons.mp h
      rw [List.flatMap_cons, ← ih hrest]
      cases hp : p x with
      | true => rw [List.filter_cons_of_pos hp, List.flatMap_cons]
      | false => rw [List.filter_cons_of_neg (by simp [hp]), hx hp, List.nil_append]

/-- A simple run shows one text, or none. -/
lemma runTexts_of_isSimpleRun {run : Node} (h : isSimpleRun run = true) :
    runTexts run = [] ∨ ∃ value, runTexts run = [value] := by
  have hinner : runTexts run
      = Node.textsOf ((run.childrenNamed Word.runText).flatMap Node.children) := by
    rw [runTexts, textsOf_eq_flatMap, textsOf_eq_flatMap, List.flatMap_assoc]
    refine List.flatMap_congr fun child hchild => ?_
    cases child with
    | text value => simp [Node.childrenNamed, Node.isNamed] at hchild
    | element tag inner => exact textsOf_eq_flatMap inner
  rw [isSimpleRun, Bool.and_eq_true] at h
  have htexts := h.2
  split at htexts
  · next hnone => exact Or.inl (by rw [hinner, hnone]; rfl)
  · next value hone => exact Or.inr ⟨value, by rw [hinner, hone]; rfl⟩
  · simp at htexts

/-- What a function makes of the texts of a simple run, it makes of the text that the run shows. -/
lemma flatMap_texts_of_isSimpleRun {α : Type} {f : Text → List α} (hf : f [] = []) {run : Node}
    (h : isSimpleRun run = true) : run.texts.flatMap f = f (runContent run) := by
  have hshown : run.texts.flatMap f = (runTexts run).flatMap f := by
    cases run with
    | text value => simp [isSimpleRun, isTextRun, Node.isNamed] at h
    | element tag children =>
        rw [Node.texts, runTexts, textsOf_eq_flatMap, textsOf_eq_flatMap, List.flatMap_assoc,
          List.flatMap_assoc]
        refine (flatMap_filter_of_nil fun child hchild hother => ?_).symm
        rcases child_of_isSimpleRun h hchild with hbare | ⟨inner, value, rfl, hname⟩
        · exact List.flatMap_eq_nil_iff.mpr fun t ht => by rw [content_eq_nil_iff.mp hbare t ht, hf]
        · simp [Node.isNamed, hname] at hother
  rw [hshown, runContent_eq_flatten]
  rcases runTexts_of_isSimpleRun h with hnone | ⟨value, hone⟩
  · rw [hnone]
    exact hf.symm
  · rw [hone, List.flatMap_singleton, List.flatten_singleton]

lemma spelledTexts_of_isSimpleRun {run : Node} (h : isSimpleRun run = true) :
    spelledTexts run = spelled (runContent run) :=
  flatMap_texts_of_isSimpleRun rfl h

lemma content_of_isSimpleRun {run : Node} (h : isSimpleRun run = true) :
    run.content = runContent run := by
  rw [Node.content, ← List.flatMap_id]
  exact flatMap_texts_of_isSimpleRun rfl h

lemma spelledTexts_bare {node : Node} (h : node.content = []) : spelledTexts node = [] :=
  List.flatMap_eq_nil_iff.mpr fun t ht => by rw [content_eq_nil_iff.mp h t ht]; rfl

/-! ## Settled groups -/

lemma isSimpleRun_makeRun {text : Text} {format : Option Node}
    (h : ∀ f ∈ format, f.isNamed Word.runProperties = true ∧ f.content = []) :
    isSimpleRun (Word.makeRun text format) = true := by
  have hname : ∀ f ∈ format, f.isNamed Word.runProperties = true := fun f hf => (h f hf).1
  have hformats : ((Word.makeRun text format).childrenNamed Word.runProperties).all
      (·.content.isEmpty) = true := by
    rw [List.all_eq_true]
    intro f hf
    obtain ⟨hchild, hproperties⟩ := List.mem_filter.mp hf
    rcases List.mem_append.mp hchild with hformat | hshown
    · exact List.isEmpty_iff.mpr (h f (Option.mem_toList.mp hformat)).2
    · have hother : ¬ (Word.runText == Word.runProperties) = true := by decide +kernel
      rw [List.mem_singleton.mp hshown] at hproperties
      exact absurd hproperties hother
  rw [isSimpleRun, isTextRun_makeRun hname, hformats, textElements_makeRun hname]
  rfl

/-- The format on which simple runs agree has no text. -/
lemma content_of_sharedFormat {runs : List Node} {format : Node}
    (hruns : ∀ run ∈ runs, isSimpleRun run = true) (h : sharedFormat runs = some format) :
    format.content = [] := by
  unfold sharedFormat at h
  split at h
  · simp at h
  · next first rest hmap =>
      split at h
      · subst h
        obtain ⟨run, others, rfl, hrun, -⟩ := List.map_eq_cons_iff.mp hmap
        have hsimple := hruns run List.mem_cons_self
        rw [isSimpleRun, Bool.and_eq_true, Bool.and_eq_true, List.all_eq_true] at hsimple
        exact List.isEmpty_iff.mp (hsimple.1.2 format
          (List.mem_filter.mpr ⟨List.mem_of_find?_eq_some hrun, List.find?_some hrun⟩))
      · simp at h

lemma isSimpleRun_settleGroup {runs : List Node} (h : ∀ run ∈ runs, isSimpleRun run = true) :
    ∀ run ∈ settleGroup runs, isSimpleRun run = true := by
  intro run hrun
  unfold settleGroup at hrun
  split at hrun
  · rw [List.mem_singleton.mp hrun]
    exact isSimpleRun_makeRun fun f hf =>
      ⟨isNamed_of_sharedFormat hf, content_of_sharedFormat h hf⟩
  · exact h run hrun

lemma inPiecesBetween_runs {runs : List Node} (h : ∀ run ∈ runs, isSimpleRun run = true) :
    Node.inPiecesBetween runs = runs.flatMap fun run => spelled (runContent run) := by
  induction runs with
  | nil => rfl
  | cons run rest ih =>
      obtain ⟨hrun, hrest⟩ := List.forall_mem_cons.mp h
      rw [Node.inPiecesBetween, if_pos (isRunOrMark_of_isSimpleRun hrun),
        spelledTexts_of_isSimpleRun hrun, ih hrest, List.flatMap_cons]

/-- **A settled group in pieces is its text in pieces.** -/
lemma inPiecesBetween_settleGroup {runs : List Node} (h : ∀ run ∈ runs, isSimpleRun run = true) :
    Node.inPiecesBetween (settleGroup runs) = spelled (groupText runs) := by
  have hapart := runsApart_settleGroup runs
  rw [RunsApart, groupText_settleGroup] at hapart
  rw [inPiecesBetween_runs (isSimpleRun_settleGroup h), spelled, hapart, List.map_flatMap]
  rfl

/-! ## Joined trees in pieces -/

lemma runContent_bare {node : Node} (h : ∀ t ∈ node.texts, t = []) : runContent node = [] := by
  cases node with
  | text value => rfl
  | element tag children =>
      rw [runContent_eq_flatten, List.flatten_eq_nil_iff, runTexts, textsOf_eq_flatMap]
      intro t ht
      obtain ⟨child, hchild, htext⟩ := List.mem_flatMap.mp ht
      refine h t ?_
      rw [Node.texts, textsOf_eq_flatMap]
      exact List.mem_flatMap.mpr ⟨child, List.mem_of_mem_filter hchild, htext⟩

mutual

/-- There is nothing to join in a node without text. -/
lemma joinRuns_bare : ∀ node : Node, (∀ t ∈ node.texts, t = []) → joinRuns node = node
  | .text _, _ => by rw [joinRuns]
  | .element tag children, h => by
      rw [joinRuns, joinParagraph_bare children h, joinRunsOf_bare children h, ite_self]

lemma joinRunsOf_bare : ∀ nodes : List Node, (∀ t ∈ Node.textsOf nodes, t = []) →
    joinRunsOf nodes = nodes
  | [], _ => rfl
  | node :: rest, h => by
      rw [Node.textsOf, List.forall_mem_append] at h
      rw [joinRunsOf, joinRuns_bare node h.1, joinRunsOf_bare rest h.2]

lemma joinParagraph_bare : ∀ nodes : List Node, (∀ t ∈ Node.textsOf nodes, t = []) →
    joinParagraph [] nodes = nodes
  | [], _ => rfl
  | node :: rest, h => by
      rw [Node.textsOf, List.forall_mem_append] at h
      rw [joinParagraph, runContent_bare h.1, joinRuns_bare node h.1, joinParagraph_bare rest h.2]
      simp [settleGroup, isSpanned, bordersFrom]

end

mutual

/-- **Joining the runs achieves the reading:** in pieces, the joined tree is the tree in reading. -/
theorem inPieces_joinRuns : ∀ node : Node, node.hasSimpleRuns = true →
    (joinRuns node).inPieces = node.reading
  | .text _, _ => by rw [joinRuns, Node.inPieces, Node.reading]
  | .element tag children, h => by
      rw [Node.hasSimpleRuns] at h
      rw [joinRuns, Node.reading]
      split at h
      · next hpar =>
          rw [if_pos hpar, if_pos hpar, Node.inPieces, if_pos hpar,
            inPieces_joinParagraph children (by simp) h]
          rfl
      · next hpar =>
          rw [if_neg hpar, if_neg hpar, Node.inPieces, if_neg hpar, inPieces_joinRunsOf children h]

theorem inPieces_joinRunsOf : ∀ nodes : List Node, Node.simpleAll nodes = true →
    Node.inPiecesAll (joinRunsOf nodes) = Node.readingAll nodes
  | [], _ => rfl
  | node :: rest, h => by
      rw [Node.simpleAll, Bool.and_eq_true] at h
      rw [joinRunsOf, Node.inPiecesAll, Node.readingAll, inPieces_joinRuns node h.1,
        inPieces_joinRunsOf rest h.2]

theorem inPieces_joinParagraph : ∀ (nodes : List Node) {waiting : List Node},
    (∀ run ∈ waiting, isSimpleRun run = true) → Node.simpleBetween nodes = true →
      Node.inPiecesBetween (joinParagraph waiting nodes)
        = Node.readingFrom (groupText waiting) nodes
  | [], waiting, hwaiting, _ => by
      rw [joinParagraph, inPiecesBetween_settleGroup hwaiting, Node.readingFrom]
  | node :: rest, waiting, hwaiting, h => by
      obtain ⟨hnode, hrest⟩ := simpleBetween_cons.mp h
      have hnext : Node.inPiecesBetween (joinParagraph [] rest) = Node.readingFrom [] rest :=
        inPieces_joinParagraph rest (by simp) hrest
      rw [joinParagraph, Node.readingFrom]
      rcases hnode with hnode | ⟨hmark, hbare⟩ | ⟨hother, hsimple⟩
      · have hgroup : ∀ run ∈ waiting ++ [node], isSimpleRun run = true := by
          simpa [or_imp, forall_and, hnode] using hwaiting
        have htext : groupText (waiting ++ [node]) = groupText waiting ++ runContent node := by
          simp [groupText]
        rw [if_pos (isTextRun_of_isSimpleRun hnode), if_pos (isTextRun_of_isSimpleRun hnode),
          ← htext]
        split
        · next hplain =>
            -- a run without at-signs is finished at once
            rw [Bool.and_eq_true] at hplain
            obtain rfl := List.isEmpty_iff.mp hplain.1
            have hfinished : isUnfinished (groupText [node]) = false :=
              isUnfinished_of_no_at (by simpa [groupText] using hplain.2)
            rw [Node.inPiecesBetween, if_pos (isRunOrMark_of_isSimpleRun hnode),
              spelledTexts_of_isSimpleRun hnode, hnext, List.nil_append,
              readingFrom_of_finished hfinished]
            simp [groupText]
        · simp only
          split
          · exact inPieces_joinParagraph rest hgroup hrest
          · next hfinished =>
              rw [inPiecesBetween_append, inPiecesBetween_settleGroup hgroup, hnext,
                readingFrom_of_finished (Bool.eq_false_iff.mpr hfinished)]
      · have hrun : ¬ isTextRun node = true := by simp [isTextRun_of_proofingMark hmark]
        rw [if_neg hrun, if_neg hrun, if_pos hmark]
        split
        · exact inPieces_joinParagraph rest hwaiting hrest
        · next hnone =>
            obtain rfl : waiting = [] := by simpa [hmark] using hnone
            rw [joinRuns_bare node (content_eq_nil_iff.mp hbare), inPiecesBetween_append,
              inPiecesBetween_settleGroup hwaiting, Node.inPiecesBetween,
              if_pos (by rw [isRunOrMark, hmark, Bool.or_true]), spelledTexts_bare hbare, hnext]
            rfl
      · have hjoined : isRunOrMark (joinRuns node) = false := by
          rwa [isRunOrMark, isTextRun_joinRuns, isNamed_joinRuns, ← isRunOrMark]
        rw [isRunOrMark, Bool.or_eq_false_iff] at hother
        rw [hother.1, hother.2, Bool.and_false, if_neg (by simp), if_neg (by simp),
          if_neg (by simp), if_neg (by simp), inPiecesBetween_append,
          inPiecesBetween_settleGroup hwaiting, Node.inPiecesBetween,
          if_neg (by simp [hjoined]), inPieces_joinRuns node hsimple, hnext]
        rfl

end

/-! ## Joining leaves runs simple -/

lemma simpleBetween_append (nodes others : List Node) :
    Node.simpleBetween (nodes ++ others)
      = (Node.simpleBetween nodes && Node.simpleBetween others) := by
  induction nodes with
  | nil => rfl
  | cons node rest ih =>
      rw [List.cons_append, Node.simpleBetween, Node.simpleBetween, ih, Bool.and_assoc]

lemma simpleBetween_runs {runs : List Node} (h : ∀ run ∈ runs, isSimpleRun run = true) :
    Node.simpleBetween runs = true := by
  induction runs with
  | nil => rfl
  | cons run rest ih =>
      obtain ⟨hrun, hrest⟩ := List.forall_mem_cons.mp h
      exact simpleBetween_cons.mpr ⟨Or.inl hrun, ih hrest⟩

lemma simpleBetween_settled {waiting nodes : List Node}
    (hwaiting : ∀ run ∈ waiting, isSimpleRun run = true) (h : Node.simpleBetween nodes = true) :
    Node.simpleBetween (settleGroup waiting ++ nodes) = true := by
  rw [simpleBetween_append, simpleBetween_runs (isSimpleRun_settleGroup hwaiting), h]
  rfl

mutual

/-- Joining leaves the runs of a tree simple. -/
theorem hasSimpleRuns_joinRuns : ∀ node : Node, node.hasSimpleRuns = true →
    (joinRuns node).hasSimpleRuns = true
  | .text _, h => by rwa [joinRuns]
  | .element tag children, h => by
      rw [Node.hasSimpleRuns] at h
      rw [joinRuns]
      split at h
      · next hpar =>
          rw [if_pos hpar, Node.hasSimpleRuns, if_pos hpar]
          exact simpleBetween_joinParagraph children (by simp) h
      · next hpar =>
          rw [if_neg hpar, Node.hasSimpleRuns, if_neg hpar]
          exact simpleAll_joinRunsOf children h

theorem simpleAll_joinRunsOf : ∀ nodes : List Node, Node.simpleAll nodes = true →
    Node.simpleAll (joinRunsOf nodes) = true
  | [], _ => rfl
  | node :: rest, h => by
      rw [Node.simpleAll, Bool.and_eq_true] at h
      rw [joinRunsOf, Node.simpleAll, hasSimpleRuns_joinRuns node h.1,
        simpleAll_joinRunsOf rest h.2]
      rfl

theorem simpleBetween_joinParagraph : ∀ (nodes : List Node) {waiting : List Node},
    (∀ run ∈ waiting, isSimpleRun run = true) → Node.simpleBetween nodes = true →
      Node.simpleBetween (joinParagraph waiting nodes) = true
  | [], waiting, hwaiting, _ => by
      rw [joinParagraph]
      exact simpleBetween_runs (isSimpleRun_settleGroup hwaiting)
  | node :: rest, waiting, hwaiting, h => by
      obtain ⟨hnode, hrest⟩ := simpleBetween_cons.mp h
      have hnext : Node.simpleBetween (joinParagraph [] rest) = true :=
        simpleBetween_joinParagraph rest (by simp) hrest
      rw [joinParagraph]
      rcases hnode with hrun | ⟨hmark, hbare⟩ | ⟨hother, hsimple⟩
      · have hgroup : ∀ run ∈ waiting ++ [node], isSimpleRun run = true := by
          simpa [or_imp, forall_and, hrun] using hwaiting
        rw [if_pos (isTextRun_of_isSimpleRun hrun)]
        split
        · exact simpleBetween_cons.mpr ⟨Or.inl hrun, hnext⟩
        · simp only
          split
          · exact simpleBetween_joinParagraph rest hgroup hrest
          · exact simpleBetween_settled hgroup hnext
      · rw [if_neg (by simp [isTextRun_of_proofingMark hmark])]
        split
        · exact simpleBetween_joinParagraph rest hwaiting hrest
        · rw [joinRuns_bare node (content_eq_nil_iff.mp hbare)]
          exact simpleBetween_settled hwaiting
            (simpleBetween_cons.mpr ⟨Or.inr (Or.inl ⟨hmark, hbare⟩), hnext⟩)
      · have hjoined : isRunOrMark (joinRuns node) = false := by
          rwa [isRunOrMark, isTextRun_joinRuns, isNamed_joinRuns, ← isRunOrMark]
        rw [isRunOrMark, Bool.or_eq_false_iff] at hother
        rw [hother.1, hother.2, Bool.and_false, if_neg (by simp), if_neg (by simp)]
        exact simpleBetween_settled hwaiting (simpleBetween_cons.mpr
          ⟨Or.inr (Or.inr ⟨hjoined, hasSimpleRuns_joinRuns node hsimple⟩), hnext⟩)

end

/-! ## The text of a tree in reading -/

lemma contentOf_append (nodes others : List Node) :
    Node.contentOf (nodes ++ others) = Node.contentOf nodes ++ Node.contentOf others := by
  induction nodes with
  | nil => rfl
  | cons node rest ih =>
      rw [List.cons_append, contentOf_cons, contentOf_cons, ih, List.append_assoc]

lemma contentOf_spelled (t : Text) : Node.contentOf (spelled t) = t := by
  rw [Node.contentOf, textsOf_spelled, ← List.flatMap_def]
  exact spelled_pieces t

mutual

/-- Reading a tree keeps its text. -/
lemma content_reading : ∀ node : Node, node.hasSimpleRuns = true →
    node.reading.content = node.content
  | .text _, _ => by rw [Node.reading]
  | .element tag children, h => by
      rw [Node.hasSimpleRuns] at h
      rw [Node.reading]
      split at h
      · next hpar =>
          rw [if_pos hpar]
          exact contentOf_readingFrom children [] h
      · next hpar =>
          rw [if_neg hpar]
          exact contentOf_readingAll children h

lemma contentOf_readingFrom : ∀ (nodes : List Node) (waiting : Text),
    Node.simpleBetween nodes = true →
      Node.contentOf (Node.readingFrom waiting nodes) = waiting ++ Node.contentOf nodes
  | [], waiting, _ => by
      rw [Node.readingFrom, contentOf_spelled]
      exact (List.append_nil waiting).symm
  | node :: rest, waiting, h => by
      obtain ⟨hnode, hrest⟩ := simpleBetween_cons.mp h
      rw [Node.readingFrom, contentOf_cons]
      rcases hnode with hrun | ⟨hmark, hbare⟩ | ⟨hother, hsimple⟩
      · rw [if_pos (isTextRun_of_isSimpleRun hrun), contentOf_readingFrom rest _ hrest,
          content_of_isSimpleRun hrun, List.append_assoc]
      · rw [if_neg (by simp [isTextRun_of_proofingMark hmark]), if_pos hmark,
          contentOf_readingFrom rest _ hrest, hbare, List.nil_append]
      · rw [isRunOrMark, Bool.or_eq_false_iff] at hother
        rw [hother.1, hother.2, if_neg (by simp), if_neg (by simp), contentOf_append,
          contentOf_spelled, contentOf_cons, content_reading node hsimple,
          contentOf_readingFrom rest _ hrest, List.nil_append]

lemma contentOf_readingAll : ∀ nodes : List Node, Node.simpleAll nodes = true →
    Node.contentOf (Node.readingAll nodes) = Node.contentOf nodes
  | [], _ => rfl
  | node :: rest, h => by
      rw [Node.simpleAll, Bool.and_eq_true] at h
      rw [Node.readingAll, contentOf_cons, contentOf_cons, content_reading node h.1,
        contentOf_readingAll rest h.2]

end

mutual

lemma leafTexts_reading : ∀ node : Node, node.hasSimpleRuns = true →
    leafTexts [node.reading] = leafTexts [node]
  | .text _, _ => by rw [Node.reading]
  | .element tag children, h => by
      have hcontent := content_reading (.element tag children) h
      rw [Node.hasSimpleRuns] at h
      rw [Node.reading] at hcontent ⊢
      split at h
      · next hpar =>
          rw [if_pos hpar] at hcontent ⊢
          rw [leafTexts_paragraph (by exact hpar), leafTexts_paragraph (by exact hpar), hcontent]
      · next hpar =>
          rw [if_neg hpar, leafTexts_element hpar, leafTexts_element hpar]
          exact leafTexts_readingAll children h

lemma leafTexts_readingAll : ∀ nodes : List Node, Node.simpleAll nodes = true →
    leafTexts (Node.readingAll nodes) = leafTexts nodes
  | [], _ => rfl
  | node :: rest, h => by
      rw [Node.simpleAll, Bool.and_eq_true] at h
      rw [Node.readingAll, leafTexts_cons, leafTexts_cons node, leafTexts_reading node h.1,
        leafTexts_readingAll rest h.2]

end

lemma flatText_reading {node : Node} (h : node.hasSimpleRuns = true) :
    flatText node.reading = flatText node := by
  have hleaves := leafTexts_reading node h
  simp only [leafTexts, List.flatMap_singleton] at hleaves
  rw [flatText_eq, flatText_eq, hleaves]

lemma flatText_joinRuns {node : Node} (h : node.hasSimpleRuns = true) :
    flatText (joinRuns node) = flatText node := by
  rw [← flatText_inPieces, inPieces_joinRuns node h, flatText_reading h]

end FormLetter
