import FormLetter.Merge.Runs
import FormLetter.Proofs.Cutting
import FormLetter.Proofs.Reading

/-!
# What joining runs promises

Later steps read one text node at a time, so a token must not be spread over several of them.
Joining decides by the borders between runs, and what it promises is about runs.

* **Finished texts.** `pieces_append_of_finished` — a text that does not end inside an unfinished
  token does not influence how the text after it is read, stray at-signs or not.  So a group may
  be settled as soon as it is finished.
* **Runs apart.** `RunsApart` — the runs of a row, each read for itself, have the tokens of the
  whole row.  `runsApart_settleGroup` holds group by group, `runsApart_joinParagraph` for every
  stretch of neighbouring runs of a joined paragraph.
* **Texts inside a run.** `tokens_joinRuns` — a token of a stretch lies inside one run, and inside
  one text node of it, except in a run that the template holds as it is, with several text nodes.
  Such a run has no border inside, so nothing makes joining look into it
  (`tokens_joinRuns_divided_run`).
-/

namespace FormLetter

/-! ## Texts that do not influence what follows -/

/-- What comes before further characters in the start of a body is the start of one, too. -/
lemma isBodyStart_of_append {body more : Text} (h : isBodyStart (body ++ more) = true) :
    isBodyStart body = true := by
  rw [isBodyStart] at h
  split at h
  · next rest hrest =>
      rw [List.all_eq_true] at h
      obtain ⟨i, f, hbody, hi, hf⟩ := afterIf?_eq_some hrest
      match body, hbody with
      | [], _ => rfl
      | [b], hbody =>
          obtain ⟨rfl, -⟩ := List.cons.inj hbody
          simp [isBodyStart, afterIf?, hi]
      | [b, b'], hbody =>
          simp only [List.cons_append, List.nil_append, List.cons.injEq] at hbody
          obtain ⟨rfl, rfl, -⟩ := hbody
          simp [isBodyStart, afterIf?, hi, hf]
      | b :: b' :: colon :: tail, hbody =>
          simp only [List.cons_append, List.cons.injEq] at hbody
          obtain ⟨rfl, rfl, rfl, rfl⟩ := hbody
          have hkey : afterIf? (b :: b' :: ':' :: tail) = some tail := by
            simp only [List.cons_append, afterIf?] at hrest ⊢
            split at hrest
            · next hif => rw [if_pos hif]
            · simp at hrest
          simp only [isBodyStart, hkey, List.all_eq_true]
          exact fun c hc => h c (List.mem_append_left _ hc)
  · rw [List.all_append, Bool.and_eq_true] at h
    have hkey : afterIf? body = none := by
      cases hbody : afterIf? body with
      | none => rfl
      | some rest =>
          obtain ⟨i, f, rfl, -, -⟩ := afterIf?_eq_some hbody
          exact absurd (List.all_eq_true.mp h.1 ':' (by simp)) (by decide)
    rw [isBodyStart, hkey]
    exact h.1

/-- A body that further characters complete to that of a token is the start of one. -/
lemma isBodyStart_of_ofBody? {body more : Text} {meaning : Meaning}
    (h : Meaning.ofBody? (body ++ more) = some meaning) : isBodyStart body = true := by
  refine @isBodyStart_of_append body more ?_
  rcases isPathChar_of_ofBody? h with ⟨rest, hrest, hall⟩ | ⟨hnone, hall⟩
  · rw [isBodyStart, hrest]
    exact List.all_eq_true.mpr hall
  · rw [isBodyStart, hnone]
    exact List.all_eq_true.mpr hall

/-- The pieces of a text followed by another one: those of the two, or a token that begins in the
first and ends in the second. -/
lemma pieces_append_cases (t u : Text) :
    pieces (t ++ u) = pieces t ++ pieces u
      ∨ ∃ before token after, pieces (t ++ u) = before ++ .token token :: after
        ∧ spelledLength before < t.length ∧ t.length < spelledLength before + token.text.length
        ∧ isUnfinished t = true := by
  have ht : pieces t = (readPieces none t).1 ++ (readPieces none t).2.text.map .char := rfl
  have hlen := congrArg List.length (spelled_readPieces none t)
  rw [pieces_eq_piecesFrom (t ++ u), piecesFrom_append]
  cases hstate : (readPieces none t).2 with
  | none => exact Or.inl (by rw [ht, hstate]; simp [ReaderState.text, pieces_eq_piecesFrom])
  | some body =>
      rcases piecesFrom_some body u with h | ⟨w, rest, meaning, rfl, hm, h⟩
      · exact Or.inl (by rw [h, ht, hstate, List.append_assoc])
      · refine Or.inr ⟨_, _, _, by rw [h], ?_, ?_, ?_⟩
        · simp only [hstate, ReaderState.text, List.length_append, List.length_cons,
            List.length_nil, List.length_reverse] at hlen
          simp only [spelledLength]
          omega
        · simp only [hstate, ReaderState.text, List.length_append, List.length_cons,
            List.length_nil, List.length_reverse] at hlen
          simp only [spelledLength, Token.length_text, List.length_append, List.length_reverse]
          omega
        · rw [isUnfinished, hstate]
          exact isBodyStart_of_ofBody? hm

/-- **A finished text does not influence how the text after it is read.** -/
theorem pieces_append_of_finished {t : Text} (h : isUnfinished t = false) (u : Text) :
    pieces (t ++ u) = pieces t ++ pieces u := by
  rcases pieces_append_cases t u with heq | ⟨_, _, _, _, _, _, hopen⟩
  · exact heq
  · exact absurd hopen (by simp [h])

lemma isUnfinished_of_no_at {t : Text} (h : '@' ∉ t) : isUnfinished t = false := by
  have hread : ∀ u : Text, '@' ∉ u → (readPieces none u).2 = none := by
    intro u hu
    induction u with
    | nil => rfl
    | cons c rest ih =>
        rw [List.mem_cons, not_or] at hu
        rw [readPieces, if_neg (Ne.symm hu.1)]
        exact ih hu.2
  rw [isUnfinished, hread t h]

/-- If no token of two texts together crosses the border between them, they are read apart. -/
lemma pieces_append_of_not_crossed {start : Nat} {t u : Text}
    (h : ∀ position token, (position, token) ∈ tokensFrom start (pieces (t ++ u)) →
      ¬ (position < start + t.length ∧ start + t.length < position + token.text.length)) :
    pieces (t ++ u) = pieces t ++ pieces u := by
  rcases pieces_append_cases t u with heq | ⟨before, token, after, hps, hlow, hhigh, -⟩
  · exact heq
  · refine absurd ?_ (h (start + spelledLength before) token ?_)
    · omega
    · exact mem_tokensFrom.mpr ⟨before, after, hps, rfl⟩

/-! ## Runs apart -/

/-- The runs of a row, each read for itself, have the pieces of the whole row. -/
def RunsApart (runs : List Node) : Prop :=
  pieces (groupText runs) = runs.flatMap fun run => pieces (runContent run)

lemma runsApart_nil : RunsApart [] := rfl

lemma runsApart_singleton (run : Node) : RunsApart [run] := by simp [RunsApart, groupText]

lemma groupText_append (runs others : List Node) :
    groupText (runs ++ others) = groupText runs ++ groupText others := by
  simp [groupText]

/-- A finished row of runs stays apart from the runs after it. -/
lemma RunsApart.append {runs others : List Node} (hfinished : isUnfinished (groupText runs) = false)
    (h : RunsApart runs) (h' : RunsApart others) : RunsApart (runs ++ others) := by
  rw [RunsApart, groupText_append, pieces_append_of_finished hfinished, h, h', List.flatMap_append]

/-- The positions between runs, when no token crosses them. -/
lemma runsApart_of_not_crossed (start : Nat) {runs : List Node}
    (h : ∀ position token, (position, token) ∈ tokensFrom start (pieces (groupText runs)) →
      ∀ border ∈ bordersFrom start runs,
        ¬ (position < border ∧ border < position + token.text.length)) :
    RunsApart runs := by
  induction runs generalizing start with
  | nil => exact runsApart_nil
  | cons run rest ih =>
      cases rest with
      | nil => exact runsApart_singleton run
      | cons second others =>
          have hsplit : pieces (runContent run ++ groupText (second :: others))
              = pieces (runContent run) ++ pieces (groupText (second :: others)) :=
            pieces_append_of_not_crossed fun position token htoken =>
              h position token htoken _ List.mem_cons_self
          have hrest := ih (start + (runContent run).length) fun position token ht border hb =>
            h position token
              (by
                rw [groupText, List.flatMap_cons, ← groupText, hsplit, tokensFrom_append,
                  spelledLength_pieces]
                exact List.mem_append_right _ ht)
              border (List.mem_cons_of_mem _ hb)
          rw [RunsApart, groupText, List.flatMap_cons, ← groupText, hsplit, hrest]
          rfl

/-- Runs that no token spans are apart. -/
lemma runsApart_of_not_spanned {runs : List Node} (h : isSpanned runs = false) :
    RunsApart runs := by
  refine runsApart_of_not_crossed 0 fun position token htoken border hborder hcross => ?_
  have : isSpanned runs = true := by
    simp only [isSpanned, List.any_eq_true, Bool.and_eq_true, decide_eq_true_eq]
    exact ⟨(position, token), htoken, border, hborder, hcross⟩
  exact Bool.noConfusion (this.symm.trans h)

/-! ## Settled groups -/

lemma isNamed_of_sharedFormat {runs : List Node} {format : Node}
    (h : sharedFormat runs = some format) : format.isNamed Word.runProperties = true := by
  unfold sharedFormat at h
  split at h
  · simp at h
  · next first rest hmap =>
      split at h
      · subst h
        obtain ⟨run, -, -, hrun, -⟩ := List.map_eq_cons_iff.mp hmap
        exact List.find?_some hrun
      · simp at h

/-- The text nodes of a run. -/
def runTexts (run : Node) : List Text := Node.textsOf (run.childrenNamed Word.runText)

lemma runContent_eq_flatten (run : Node) : runContent run = (runTexts run).flatten := rfl

/-- A run that was made has one text element, around one text node. -/
lemma textElements_makeRun {text : Text} {format : Option Node}
    (h : ∀ f ∈ format, f.isNamed Word.runProperties = true) :
    (Word.makeRun text format).childrenNamed Word.runText
      = [.element ⟨Word.runText, [(Word.spaceAttribute, "preserve")], []⟩ [.text text]] := by
  have hformat : (format.toList).filter (Node.isNamed Word.runText) = [] := by
    refine List.filter_eq_nil_iff.mpr fun f hf => ?_
    have hname := h f (Option.mem_toList.mp hf)
    cases f with
    | text value => simp [Node.isNamed]
    | element tag children =>
        have hother : ¬ (Word.runProperties == Word.runText) = true := by decide +kernel
        rw [Node.isNamed, beq_iff_eq] at hname ⊢
        rw [hname]
        exact fun heq => hother (beq_iff_eq.mpr heq)
  rw [Node.childrenNamed, Word.makeRun, Node.children, List.filter_append, hformat]
  simp [Node.isNamed]

/-- A run that was made shows its text in one text node. -/
lemma runTexts_makeRun {text : Text} {format : Option Node}
    (h : ∀ f ∈ format, f.isNamed Word.runProperties = true) :
    runTexts (Word.makeRun text format) = [text] := by
  rw [runTexts, textElements_makeRun h]
  rfl

lemma isTextRun_makeRun {text : Text} {format : Option Node}
    (h : ∀ f ∈ format, f.isNamed Word.runProperties = true) :
    isTextRun (Word.makeRun text format) = true := by
  cases format with
  | none => simp [isTextRun, Word.makeRun, Node.isNamed, Node.children, isRunContent]
  | some f =>
      have hcontent : isRunContent f = true := by rw [isRunContent, h f rfl, Bool.true_or]
      rw [isTextRun, Word.makeRun, Node.children, Option.toList_some, List.singleton_append,
        List.all_cons, hcontent]
      simp [Node.isNamed, isRunContent]

/-- A run that a group leaves behind is one of the group, or it has been made. -/
lemma mem_settleGroup {runs : List Node} {run : Node} (h : run ∈ settleGroup runs) :
    run ∈ runs ∨ ∃ text, runTexts run = [text] := by
  unfold settleGroup at h
  split at h
  · rw [List.mem_singleton.mp h]
    exact Or.inr ⟨_, runTexts_makeRun fun f hf => isNamed_of_sharedFormat hf⟩
  · exact Or.inl h

lemma isTextRun_settleGroup {runs : List Node} (h : ∀ run ∈ runs, isTextRun run = true) :
    ∀ run ∈ settleGroup runs, isTextRun run = true := by
  intro run hrun
  unfold settleGroup at hrun
  split at hrun
  · rw [List.mem_singleton.mp hrun]
    exact isTextRun_makeRun fun f hf => isNamed_of_sharedFormat hf
  · exact h run hrun

lemma groupText_settleGroup (runs : List Node) : groupText (settleGroup runs) = groupText runs := by
  unfold settleGroup
  split
  · simp [groupText, runContent_eq_flatten,
      runTexts_makeRun fun f hf => isNamed_of_sharedFormat hf]
  · rfl

/-- **A settled group keeps each token inside a run.** -/
lemma runsApart_settleGroup (runs : List Node) : RunsApart (settleGroup runs) := by
  unfold settleGroup
  split
  · exact runsApart_singleton _
  · next h => exact runsApart_of_not_spanned (Bool.eq_false_iff.mpr h)

/-! ## Stretches of runs -/

/-- The maximal stretches of neighbouring text runs among children; some may be empty. -/
def stretches (children : List Node) : List (List Node) :=
  children.splitOnP fun node => !isTextRun node

lemma stretches_run_cons {run : Node} (h : isTextRun run = true) (rest : List Node) :
    stretches (run :: rest) = (stretches rest).modifyHead (run :: ·) := by
  rw [stretches, List.splitOnP_cons_eq_if_modifyHead, if_neg (by simp [h])]
  rfl

lemma stretches_other_cons {node : Node} (h : isTextRun node = false) (rest : List Node) :
    stretches (node :: rest) = [] :: stretches rest := by
  rw [stretches, List.splitOnP_cons_eq_if_modifyHead, if_pos (by simp [h])]
  rfl

lemma exists_stretches_eq_cons (children : List Node) :
    ∃ first others, stretches children = first :: others :=
  List.exists_cons_of_ne_nil (List.splitOnP_ne_nil _ _)

lemma stretches_runs_append {runs : List Node} (h : ∀ run ∈ runs, isTextRun run = true)
    (rest : List Node) :
    stretches (runs ++ rest) = (stretches rest).modifyHead (runs ++ ·) := by
  induction runs with
  | nil =>
      obtain ⟨first, others, hs⟩ := exists_stretches_eq_cons rest
      simp [hs]
  | cons run runs ih =>
      obtain ⟨first, others, hs⟩ := exists_stretches_eq_cons rest
      obtain ⟨hrun, hruns⟩ := List.forall_mem_cons.mp h
      rw [List.cons_append, stretches_run_cons hrun, ih hruns, hs]
      rfl

/-- What holds of the first stretch behind some runs together with these runs, and of the other
stretches, holds of the stretches of the whole. -/
lemma forall_stretches_append {P : List Node → Prop} {runs rest : List Node}
    (hruns : ∀ run ∈ runs, isTextRun run = true) (hrest : ∀ stretch ∈ stretches rest, P stretch)
    (happend : ∀ stretch, P stretch → P (runs ++ stretch)) :
    ∀ stretch ∈ stretches (runs ++ rest), P stretch := by
  obtain ⟨first, others, hs⟩ := exists_stretches_eq_cons rest
  rw [stretches_runs_append hruns, hs]
  rw [hs] at hrest
  obtain ⟨hfirst, hothers⟩ := List.forall_mem_cons.mp hrest
  exact List.forall_mem_cons.mpr ⟨happend first hfirst, hothers⟩

/-- Joining the runs inside an element leaves its name alone. -/
lemma isNamed_joinRuns (name : String) : ∀ node : Node,
    (joinRuns node).isNamed name = node.isNamed name
  | .text _ => by rw [joinRuns]
  | .element tag children => by
      rw [joinRuns]
      split <;> rfl

lemma all_isRunContent_joinRunsOf (nodes : List Node) :
    (joinRunsOf nodes).all isRunContent = nodes.all isRunContent := by
  induction nodes with
  | nil => rfl
  | cons node rest ih =>
      rw [joinRunsOf, List.all_cons, List.all_cons, ih, isRunContent, isNamed_joinRuns,
        isNamed_joinRuns, ← isRunContent]

/-- Joining turns nothing into a text run that was none. -/
lemma isTextRun_joinRuns (node : Node) : isTextRun (joinRuns node) = isTextRun node := by
  cases node with
  | text value => rw [joinRuns]
  | element tag children =>
      rw [joinRuns]
      split
      · next h =>
          have hother : Word.paragraph ≠ Word.run := by decide +kernel
          have hname : tag.name ≠ Word.run := by
            rw [beq_iff_eq.mp h]
            exact hother
          have hnot : (tag.name == Word.run) = false := by simpa using hname
          simp only [isTextRun, Node.isNamed, hnot, Bool.false_and]
      · rw [isTextRun, isTextRun, Node.children, Node.children, all_isRunContent_joinRunsOf]
        rfl

/-- The runs of a settled group that something other than a run follows are a stretch. -/
lemma stretches_settled {waiting : List Node} (hwaiting : ∀ run ∈ waiting, isTextRun run = true)
    {node : Node} (hnode : isTextRun node = false) (rest : List Node) :
    stretches (settleGroup waiting ++ joinRuns node :: rest)
      = settleGroup waiting :: stretches rest := by
  rw [stretches_runs_append (isTextRun_settleGroup hwaiting),
    stretches_other_cons (by rw [isTextRun_joinRuns, hnode])]
  simp

/-- **Each stretch of a joined paragraph keeps its tokens inside runs.** -/
theorem runsApart_joinParagraph : ∀ (nodes : List Node) {waiting : List Node},
    (∀ run ∈ waiting, isTextRun run = true) →
      ∀ stretch ∈ stretches (joinParagraph waiting nodes), RunsApart stretch
  | [], waiting, hwaiting => by
      rw [joinParagraph, ← List.append_nil (settleGroup waiting),
        stretches_runs_append (isTextRun_settleGroup hwaiting), stretches, List.splitOnP_nil]
      simpa using runsApart_settleGroup waiting
  | node :: rest, waiting, hwaiting => by
      have hnext : ∀ stretch ∈ stretches (joinParagraph [] rest), RunsApart stretch :=
        runsApart_joinParagraph rest (by simp)
      rw [joinParagraph]
      split
      · next hnode =>
          split
          · next hplain =>
              -- a run without at-signs is finished at once
              have hfinished : isUnfinished (groupText [node]) = false := by
                rw [Bool.and_eq_true] at hplain
                refine isUnfinished_of_no_at ?_
                simpa [groupText] using hplain.2
              have hsingle : ∀ run ∈ [node], isTextRun run = true := by simpa using hnode
              exact forall_stretches_append hsingle hnext
                fun stretch h => (runsApart_singleton node).append hfinished h
          · have hgroup : ∀ run ∈ waiting ++ [node], isTextRun run = true := by
              simpa [or_imp, forall_and, hnode] using hwaiting
            simp only
            split
            · exact runsApart_joinParagraph rest hgroup
            · next hfinished =>
                refine forall_stretches_append (isTextRun_settleGroup hgroup) hnext
                  fun stretch h => (runsApart_settleGroup _).append ?_ h
                rw [groupText_settleGroup]
                exact Bool.eq_false_iff.mpr hfinished
      · next hnode =>
          split
          · exact runsApart_joinParagraph rest hwaiting
          · rw [stretches_settled hwaiting (Bool.eq_false_iff.mpr hnode)]
            exact List.forall_mem_cons.mpr ⟨runsApart_settleGroup waiting, hnext⟩

/-! ## The runs of a joined paragraph -/

/-- A text run of a joined paragraph stood there before, or it has been made. -/
lemma mem_joinParagraph : ∀ (nodes : List Node) {waiting : List Node} {run : Node},
    run ∈ joinParagraph waiting nodes → isTextRun run = true →
      run ∈ waiting ∨ run ∈ nodes ∨ ∃ text, runTexts run = [text]
  | [], waiting, run, h, _ => by
      rw [joinParagraph] at h
      exact (mem_settleGroup h).imp_right Or.inr
  | node :: rest, waiting, run, h, hrun => by
      have hnext : run ∈ joinParagraph [] rest →
          run ∈ waiting ∨ run ∈ node :: rest ∨ ∃ text, runTexts run = [text] := fun h =>
        (mem_joinParagraph rest h hrun).elim (fun h => absurd h List.not_mem_nil)
          fun h => Or.inr (h.imp_left (List.mem_cons_of_mem node))
      have hgroup : run ∈ waiting ++ [node] →
          run ∈ waiting ∨ run ∈ node :: rest ∨ ∃ text, runTexts run = [text] := fun h =>
        (List.mem_append.mp h).imp_right fun h => Or.inl (by simp [List.mem_singleton.mp h])
      rw [joinParagraph] at h
      split at h
      · split at h
        · rcases List.mem_cons.mp h with rfl | h
          · exact Or.inr (Or.inl List.mem_cons_self)
          · exact hnext h
        · simp only at h
          split at h
          · rcases mem_joinParagraph rest h hrun with h | h | h
            · exact hgroup h
            · exact Or.inr (Or.inl (List.mem_cons_of_mem node h))
            · exact Or.inr (Or.inr h)
          · rcases List.mem_append.mp h with h | h
            · rcases mem_settleGroup h with h | h
              · exact hgroup h
              · exact Or.inr (Or.inr h)
            · exact hnext h
      · next hnode =>
          split at h
          · exact (mem_joinParagraph rest h hrun).imp_right
              fun h => h.imp_left (List.mem_cons_of_mem node)
          · rcases List.mem_append.mp h with h | h
            · exact (mem_settleGroup h).imp_right Or.inr
            · rcases List.mem_cons.mp h with rfl | h
              · exact absurd ((isTextRun_joinRuns node).symm.trans hrun) hnode
              · exact hnext h

/-- The members of a stretch are text runs among the children. -/
lemma mem_of_mem_stretches {children stretch : List Node} (h : stretch ∈ stretches children) :
    ∀ run ∈ stretch, run ∈ children ∧ isTextRun run = true := by
  induction children generalizing stretch with
  | nil =>
      rw [stretches, List.splitOnP_nil, List.mem_singleton] at h
      simp [h]
  | cons node rest ih =>
      obtain ⟨first, others, hs⟩ := exists_stretches_eq_cons rest
      have hbehind : ∀ {stretch}, stretch ∈ first :: others → ∀ run ∈ stretch,
          run ∈ node :: rest ∧ isTextRun run = true := fun h run hrun =>
        (ih (hs ▸ h) run hrun).imp_left (List.mem_cons_of_mem node)
      cases hnode : isTextRun node with
      | true =>
          rw [stretches_run_cons hnode, hs, List.modifyHead_cons, List.mem_cons] at h
          rcases h with rfl | h
          · exact List.forall_mem_cons.mpr
              ⟨⟨List.mem_cons_self, hnode⟩, hbehind List.mem_cons_self⟩
          · exact hbehind (List.mem_cons_of_mem first h)
      | false =>
          rw [stretches_other_cons hnode, hs, List.mem_cons] at h
          rcases h with rfl | h
          · simp
          · exact hbehind h

/-! ## Paragraphs of a joined tree -/

mutual

/-- The paragraphs of a tree whose runs are joined: the outermost ones and those inside them, except
inside their text runs. -/
def Node.paragraphs : Node → List Node
  | .text _ => []
  | .element tag children =>
    if tag.name == Word.paragraph then .element tag children :: Node.paragraphsBetween children
    else Node.paragraphsOf children

/-- The paragraphs of several trees. -/
def Node.paragraphsOf : List Node → List Node
  | [] => []
  | node :: rest => Node.paragraphs node ++ Node.paragraphsOf rest

/-- The paragraphs among the children of a paragraph, which are not looked for in its text runs. -/
def Node.paragraphsBetween : List Node → List Node
  | [] => []
  | node :: rest =>
    (if isTextRun node then [] else Node.paragraphs node) ++ Node.paragraphsBetween rest

end

lemma paragraphsBetween_append (nodes others : List Node) :
    Node.paragraphsBetween (nodes ++ others)
      = Node.paragraphsBetween nodes ++ Node.paragraphsBetween others := by
  induction nodes with
  | nil => rfl
  | cons node rest ih => simp [Node.paragraphsBetween, ih]

lemma paragraphsBetween_runs {runs : List Node} (h : ∀ run ∈ runs, isTextRun run = true) :
    Node.paragraphsBetween runs = [] := by
  induction runs with
  | nil => rfl
  | cons run rest ih =>
      obtain ⟨hrun, hrest⟩ := List.forall_mem_cons.mp h
      rw [Node.paragraphsBetween, if_pos hrun, ih hrest, List.append_nil]

/-- The paragraph is another one with its runs joined. -/
def IsJoined (source joined : Node) : Prop :=
  joined.children = joinParagraph [] source.children

mutual

/-- Each paragraph of a joined tree is a paragraph of the tree with its runs joined. -/
theorem exists_source : ∀ (tree : Node) {joined : Node}, joined ∈ (joinRuns tree).paragraphs →
    ∃ source ∈ tree.paragraphs, IsJoined source joined
  | .text _, joined, h => by simp [joinRuns, Node.paragraphs] at h
  | .element tag children, joined, h => by
      rw [joinRuns] at h
      rw [Node.paragraphs]
      split at h
      · next hp =>
          rw [Node.paragraphs, if_pos hp] at h
          rw [if_pos hp]
          rcases List.mem_cons.mp h with rfl | h
          · exact ⟨_, List.mem_cons_self, rfl⟩
          · obtain ⟨source, hs, hj⟩ := exists_source_between children (by simp) h
            exact ⟨source, List.mem_cons_of_mem _ hs, hj⟩
      · next hp =>
          rw [Node.paragraphs, if_neg hp] at h
          rw [if_neg hp]
          exact exists_sourceOf children h

theorem exists_sourceOf : ∀ (nodes : List Node) {joined : Node},
    joined ∈ Node.paragraphsOf (joinRunsOf nodes) →
    ∃ source ∈ Node.paragraphsOf nodes, IsJoined source joined
  | [], _, h => by simp [joinRunsOf, Node.paragraphsOf] at h
  | node :: rest, joined, h => by
      rw [joinRunsOf, Node.paragraphsOf, List.mem_append] at h
      rw [Node.paragraphsOf]
      rcases h with h | h
      · obtain ⟨source, hs, hj⟩ := exists_source node h
        exact ⟨source, List.mem_append_left _ hs, hj⟩
      · obtain ⟨source, hs, hj⟩ := exists_sourceOf rest h
        exact ⟨source, List.mem_append_right _ hs, hj⟩

theorem exists_source_between : ∀ (nodes : List Node) {waiting : List Node} {joined : Node},
    (∀ run ∈ waiting, isTextRun run = true) →
    joined ∈ Node.paragraphsBetween (joinParagraph waiting nodes) →
    ∃ source ∈ Node.paragraphsBetween nodes, IsJoined source joined
  | [], waiting, joined, hwaiting, h => by
      rw [joinParagraph, paragraphsBetween_runs (isTextRun_settleGroup hwaiting)] at h
      simp at h
  | node :: rest, waiting, joined, hwaiting, h => by
      have hsettled := paragraphsBetween_runs (isTextRun_settleGroup hwaiting)
      rw [joinParagraph] at h
      rw [Node.paragraphsBetween]
      split at h
      · next hnode =>
          rw [if_pos hnode, List.nil_append]
          have hgroup : ∀ run ∈ waiting ++ [node], isTextRun run = true := by
            simpa [or_imp, forall_and, hnode] using hwaiting
          split at h
          · rw [Node.paragraphsBetween, if_pos hnode, List.nil_append] at h
            exact exists_source_between rest (by simp) h
          · simp only at h
            split at h
            · exact exists_source_between rest hgroup h
            · rw [paragraphsBetween_append,
                paragraphsBetween_runs (isTextRun_settleGroup hgroup), List.nil_append] at h
              exact exists_source_between rest (by simp) h
      · next hnode =>
          rw [if_neg hnode]
          have hjoined : ¬ isTextRun (joinRuns node) = true := by rwa [isTextRun_joinRuns]
          split at h
          · obtain ⟨source, hs, hj⟩ := exists_source_between rest hwaiting h
            exact ⟨source, List.mem_append_right _ hs, hj⟩
          · rw [paragraphsBetween_append, hsettled, List.nil_append, Node.paragraphsBetween,
              if_neg hjoined, List.mem_append] at h
            rcases h with h | h
            · obtain ⟨source, hs, hj⟩ := exists_source node h
              exact ⟨source, List.mem_append_left _ hs, hj⟩
            · obtain ⟨source, hs, hj⟩ := exists_source_between rest (by simp) h
              exact ⟨source, List.mem_append_right _ hs, hj⟩

end

/-! ## Tokens inside runs and inside texts -/

/-- Whether the positions from `start` up to `stop` all lie inside one of some texts that follow one
another. -/
def liesInOne (start stop : Nat) : List Text → Bool
  | [] => false
  | t :: rest =>
    stop ≤ t.length || t.length ≤ start && liesInOne (start - t.length) (stop - t.length) rest

/-- A token of a text that a single text node holds lies inside it. -/
lemma liesInOne_of_le_one {ts : List Text} (h : ts.length ≤ 1) {position : Nat} {token : Token}
    (ht : (position, token) ∈ tokens ts.flatten) :
    liesInOne position (position + token.text.length) ts = true := by
  match ts, h with
  | [], _ => simp [tokens, pieces, readPieces, ReaderState.text, tokensFrom] at ht
  | [t], _ =>
      obtain ⟨before, after, hps, hpos⟩ := mem_tokensFrom.mp ht
      have hlen := spelledLength_pieces [t].flatten
      rw [hps] at hlen
      simp only [spelledLength_append, spelledLength_cons, Piece.text, List.flatten_singleton]
        at hlen
      have hle : position + token.text.length ≤ t.length := by omega
      simp [liesInOne, hle]

/-- A token of a row of runs that are apart is a token of one of them. -/
lemma RunsApart.exists_run {runs : List Node} (h : RunsApart runs) {start : Nat} {token : Token}
    (ht : (start, token) ∈ tokens (groupText runs)) :
    ∃ before run after position, runs = before ++ run :: after
      ∧ start = (groupText before).length + position
      ∧ (position, token) ∈ tokens (runContent run) := by
  obtain ⟨front, back, hps, hstart⟩ := mem_tokensFrom.mp ht
  rw [h] at hps
  clear h ht
  -- the runs before the one that holds the token have their pieces in front of it
  induction runs generalizing front start with
  | nil => simp at hps
  | cons run rest ih =>
      rw [List.flatMap_cons, List.append_eq_append_iff] at hps
      rcases hps with ⟨others, rfl, hothers⟩ | ⟨others, hrun, hothers⟩
      · obtain ⟨before, holder, after, position, rfl, hpos, hmem⟩ := ih others hothers rfl
        refine ⟨run :: before, holder, after, position, rfl, ?_, hmem⟩
        simp only [spelledLength_append, spelledLength_pieces] at hstart
        simp only [groupText, List.flatMap_cons, List.length_append] at hpos ⊢
        omega
      · cases others with
        | nil =>
            rw [List.append_nil] at hrun
            obtain ⟨before, holder, after, position, rfl, hpos, hmem⟩ :=
              ih [] hothers.symm (show 0 = spelledLength [] by simp)
            refine ⟨run :: before, holder, after, position, rfl, ?_, hmem⟩
            rw [← hrun, spelledLength_pieces] at hstart
            simp only [groupText, List.flatMap_cons, List.length_append] at hpos ⊢
            omega
        | cons p others =>
            obtain ⟨rfl, -⟩ := List.cons.inj hothers
            refine ⟨[], run, rest, start, rfl, by simp [groupText], ?_⟩
            exact mem_tokensFrom.mpr ⟨front, others, hrun, hstart⟩

/-- **After joining, each token of a stretch of runs lies inside one run,** and there inside one
text node, unless the template itself holds the run, with several text nodes.  The paragraphs are
those that joining gets to: it does not look into text runs, so the paragraphs inside the text of a
run are left out, and their tokens may lie in several runs. -/
theorem tokens_joinRuns {tree joined : Node} (h : joined ∈ (joinRuns tree).paragraphs) :
    ∃ source ∈ tree.paragraphs, IsJoined source joined
      ∧ ∀ stretch ∈ stretches joined.children,
        ∀ start token, (start, token) ∈ tokens (groupText stretch) →
          ∃ before run after position, stretch = before ++ run :: after
            ∧ start = (groupText before).length + position
            ∧ (position, token) ∈ tokens (runContent run)
            ∧ (liesInOne position (position + token.text.length) (runTexts run) = true
              ∨ run ∈ source.children ∧ 1 < (runTexts run).length) := by
  obtain ⟨source, hsource, hjoined⟩ := exists_source tree h
  refine ⟨source, hsource, hjoined, fun stretch hstretch start token htoken => ?_⟩
  rw [hjoined] at hstretch
  obtain ⟨before, run, after, position, rfl, hstart, hmem⟩ :=
    (runsApart_joinParagraph _ (by simp) _ hstretch).exists_run htoken
  refine ⟨before, run, after, position, rfl, hstart, hmem, ?_⟩
  obtain ⟨hchild, hrun⟩ := mem_of_mem_stretches hstretch run (by simp)
  by_cases hone : (runTexts run).length ≤ 1
  · exact Or.inl (liesInOne_of_le_one hone hmem)
  · rcases mem_joinParagraph _ hchild hrun with hno | hold | ⟨text, hmade⟩
    · exact absurd hno List.not_mem_nil
    · exact Or.inr ⟨hold, Nat.lt_of_not_le hone⟩
    · exact absurd (Nat.le_of_eq (congrArg List.length hmade)) hone

/-- A run that shows the given texts, each in an element of its own. -/
def dividedRun (texts : List String) : Node :=
  .element ⟨Word.run, [], []⟩ <| texts.map fun t =>
    .element ⟨Word.runText, [], []⟩ [.text t.toList]

/-- A paragraph of runs that show the given texts. -/
def paragraphOf (runs : List (List String)) : Node :=
  .element ⟨Word.paragraph, [], []⟩ (runs.map dividedRun)

theorem tokens_joinRuns_fragmented :
    let tree := paragraphOf [["Dear @na"], ["me@"], ["@", "x@"]]
    let joined : Node := .element ⟨Word.paragraph, [], []⟩
      [Word.makeRun "Dear @name@".toList none, dividedRun ["@", "x@"]]
    joined ∈ (joinRuns tree).paragraphs
      ∧ ∃ source ∈ tree.paragraphs, IsJoined source joined
        ∧ ∀ stretch ∈ stretches joined.children,
          ∀ start token, (start, token) ∈ tokens (groupText stretch) →
            ∃ before run after position, stretch = before ++ run :: after
              ∧ start = (groupText before).length + position
              ∧ (position, token) ∈ tokens (runContent run)
              ∧ (liesInOne position (position + token.text.length) (runTexts run) = true
                ∨ run ∈ source.children ∧ 1 < (runTexts run).length) :=
  ⟨by decide +kernel, tokens_joinRuns (by decide +kernel)⟩

/-- A run that holds a token across two of its text elements has no border inside, so joining leaves
it as it is. -/
theorem tokens_joinRuns_divided_run :
    let paragraph := paragraphOf [["@na", "me@"]]
    let token : Token := ⟨"name".toList, .placeholder ["name".toList]⟩
    paragraph ∈ (joinRuns paragraph).paragraphs
      ∧ stretches paragraph.children = [[dividedRun ["@na", "me@"]]]
      ∧ (0, token) ∈ tokens (groupText [dividedRun ["@na", "me@"]])
      ∧ liesInOne 0 token.text.length (runTexts (dividedRun ["@na", "me@"])) = false := by
  decide +kernel

end FormLetter
