import FormLetter.Package.Template
import FormLetter.Proofs.Fragments

/-!
# Joining runs twice

A template keeps its trees with the runs joined, and every merge joins them again.  The second time
nothing happens: the groups that the first pass has settled are found again, and each is settled as
it stands.

* **Waiting groups.** `IsWaiting` — the groups that can be open while a paragraph is read.  Every
  beginning of such a group is unfinished, so a second pass that meets the same runs keeps all of
  them waiting (`IsWaiting.again`).
* **Settled groups.** What a group leaves behind is the group itself or a single run with its text.
  Either is settled to itself again, where the next run would have been taken up
  (`joinParagraph_finished`) as well as where something else ended the group
  (`joinParagraph_broken`).
* **Kept trees.** `joinRuns_joinRuns` — joining is idempotent.  So merging and inspecting a joined
  tree is merging and inspecting the tree (`joined_tree_stands_for_tree`), and a template does not
  show whether its trees are joined (`Template.render_joinTrees`).
-/

namespace FormLetter

/-! ## Settling a group again -/

lemma runContent_makeRun {text : Text} {format : Option Node}
    (h : ∀ f ∈ format, f.isNamed Word.runProperties = true) :
    runContent (Word.makeRun text format) = text := by
  simp [runContent_eq_flatten, runTexts_makeRun h]

lemma groupText_singleton (run : Node) : groupText [run] = runContent run := by
  simp [groupText]

@[simp] lemma settleGroup_nil : settleGroup [] = [] := by
  simp [settleGroup, isSpanned, bordersFrom]

/-- A single run has no border that a token could cross. -/
@[simp] lemma settleGroup_singleton (run : Node) : settleGroup [run] = [run] := by
  simp [settleGroup, isSpanned, bordersFrom]

/-- A group leaves itself behind, or one run with its text. -/
lemma settleGroup_cases (runs : List Node) :
    settleGroup runs = runs ∨ ∃ run, settleGroup runs = [run] ∧ isTextRun run = true
      ∧ runContent run = groupText runs := by
  cases hspanned : isSpanned runs with
  | false => exact Or.inl (by simp [settleGroup, hspanned])
  | true =>
      have hformat : ∀ f ∈ sharedFormat runs, f.isNamed Word.runProperties = true :=
        fun f hf => isNamed_of_sharedFormat hf
      refine Or.inr ⟨Word.makeRun (groupText runs) (sharedFormat runs), ?_, ?_, ?_⟩
      · simp [settleGroup, hspanned]
      · exact isTextRun_makeRun hformat
      · exact runContent_makeRun hformat

/-! ## Waiting groups -/

/-- The runs of an open group: text runs, each of which left the text so far unfinished. -/
inductive IsWaiting : List Node → Prop
  | nil : IsWaiting []
  | concat {group : List Node} {run : Node} (h : IsWaiting group) (hrun : isTextRun run = true)
      (hopen : isUnfinished (groupText (group ++ [run])) = true) : IsWaiting (group ++ [run])

/-- A run that is not passed over at once is added to the group, which then waits or is settled. -/
lemma joinParagraph_run {group rest : List Node} {run : Node} (hrun : isTextRun run = true)
    (htaken : ¬ (group.isEmpty && !(runContent run).contains '@') = true) :
    joinParagraph group (run :: rest)
      = if isUnfinished (groupText (group ++ [run])) then joinParagraph (group ++ [run]) rest
        else settleGroup (group ++ [run]) ++ joinParagraph [] rest := by
  rw [joinParagraph, if_pos hrun, if_neg htaken]

/-- A run after which the text is unfinished is not passed over. -/
lemma taken_of_unfinished {group : List Node} {run : Node}
    (hopen : isUnfinished (groupText (group ++ [run])) = true) :
    ¬ (group.isEmpty && !(runContent run).contains '@') = true := by
  intro hpassed
  simp only [Bool.and_eq_true, List.isEmpty_iff, Bool.not_eq_true', List.contains_eq_mem,
    decide_eq_false_iff_not] at hpassed
  obtain ⟨rfl, hno⟩ := hpassed
  rw [List.nil_append, groupText_singleton, isUnfinished_of_no_at hno] at hopen
  exact Bool.noConfusion hopen

/-- **A waiting group that is met again waits again.** -/
theorem IsWaiting.again {group : List Node} (h : IsWaiting group) (rest : List Node) :
    joinParagraph [] (group ++ rest) = joinParagraph group rest := by
  induction h generalizing rest with
  | nil => rfl
  | @concat group run h hrun hopen ih =>
      rw [List.append_assoc, List.singleton_append, ih,
        joinParagraph_run hrun (taken_of_unfinished hopen), if_pos hopen]

/-! ## Settled groups in a second pass -/

/-- What ends an open group whatever its text is: the end of the paragraph, or a child that is no
text run and that a waiting group does not swallow. -/
def Breaks (group : List Node) : List Node → Prop
  | [] => True
  | node :: _ =>
    isTextRun node = false ∧ (group = [] ∨ node.isNamed Word.proofingMark = false)

lemma Breaks.settles {group rest : List Node} (h : Breaks group rest) :
    joinParagraph group rest = settleGroup group ++ joinParagraph [] rest := by
  cases rest with
  | nil => simp [joinParagraph]
  | cons node rest =>
      obtain ⟨hrun, hmark⟩ := h
      have hended : ¬ (!group.isEmpty && node.isNamed Word.proofingMark) = true := by
        rcases hmark with rfl | hmark
        · simp
        · simp [hmark]
      simp [joinParagraph, hrun, hended]

lemma Breaks.mono {group other rest : List Node} (h : Breaks group rest) (hne : group ≠ []) :
    Breaks other rest := by
  cases rest with
  | nil => trivial
  | cons node rest => exact ⟨h.1, Or.inr (h.2.resolve_left hne)⟩

/-- What a group leaves behind that something else ended is settled to itself. -/
lemma joinParagraph_broken {group rest : List Node} (h : IsWaiting group)
    (hbreaks : Breaks group rest) :
    joinParagraph [] (settleGroup group ++ rest)
      = settleGroup group ++ joinParagraph [] rest := by
  rcases settleGroup_cases group with hsame | ⟨run, hmade, hrun, htext⟩
  · rw [hsame, h.again, hbreaks.settles, hsame]
  · have hne : group ≠ [] := by
      rintro rfl
      simp at hmade
    have hbreaks' : Breaks [run] rest := hbreaks.mono hne
    have hopen : isUnfinished (groupText [run]) = true := by
      rw [groupText_singleton, htext]
      cases h with
      | nil => exact absurd rfl hne
      | concat _ _ hopen => exact hopen
    have hwaiting : IsWaiting [run] := .concat .nil hrun hopen
    rw [hmade, hwaiting.again, hbreaks'.settles, settleGroup_singleton]

/-- What a group leaves behind that its last run finished is settled to itself. -/
lemma joinParagraph_finished {group rest : List Node} {run : Node} (h : IsWaiting group)
    (hrun : isTextRun run = true)
    (htaken : ¬ (group.isEmpty && !(runContent run).contains '@') = true)
    (hfinished : isUnfinished (groupText (group ++ [run])) = false) :
    joinParagraph [] (settleGroup (group ++ [run]) ++ rest)
      = settleGroup (group ++ [run]) ++ joinParagraph [] rest := by
  rcases settleGroup_cases (group ++ [run]) with hsame | ⟨made, hmade, hmadeRun, htext⟩
  · rw [hsame, List.append_assoc, List.singleton_append, h.again,
      joinParagraph_run hrun htaken, if_neg (by simp [hfinished]), hsame, List.append_assoc,
      List.singleton_append]
  · rw [hmade, List.singleton_append, List.singleton_append]
    by_cases hpassed : (([] : List Node).isEmpty && !(runContent made).contains '@') = true
    · rw [joinParagraph, if_pos hmadeRun, if_pos hpassed]
    · have hdone : isUnfinished (groupText [made]) = false := by
        rw [groupText_singleton, htext, hfinished]
      rw [joinParagraph_run hmadeRun hpassed, List.nil_append]
      simp [hdone]

/-! ## Joining twice -/

mutual

/-- **Joining the runs of a joined tree changes nothing.** -/
theorem joinRuns_joinRuns : ∀ node : Node, joinRuns (joinRuns node) = joinRuns node
  | .text value => by simp [joinRuns]
  | .element tag children => by
      rw [joinRuns]
      split
      · next h => rw [joinRuns, if_pos h, joinParagraph_joinParagraph children .nil]
      · next h => rw [joinRuns, if_neg h, joinRunsOf_joinRunsOf children]

theorem joinRunsOf_joinRunsOf : ∀ nodes : List Node,
    joinRunsOf (joinRunsOf nodes) = joinRunsOf nodes
  | [] => rfl
  | node :: rest => by
      rw [joinRunsOf, joinRunsOf, joinRuns_joinRuns node, joinRunsOf_joinRunsOf rest]

/-- What the first pass makes of the rest of a paragraph, with a group still open, the second pass
leaves alone. -/
theorem joinParagraph_joinParagraph : ∀ (nodes : List Node) {group : List Node},
    IsWaiting group → joinParagraph [] (joinParagraph group nodes) = joinParagraph group nodes
  | [], group, h => by
      have hend : Breaks group [] := trivial
      have hbroken := joinParagraph_broken h hend
      rw [joinParagraph]
      simpa [joinParagraph] using hbroken
  | node :: rest, group, h => by
      by_cases hrun : isTextRun node = true
      · by_cases hpassed : (group.isEmpty && !(runContent node).contains '@') = true
        · rw [joinParagraph, if_pos hrun, if_pos hpassed]
          have hgroup : group = [] := by
            rw [Bool.and_eq_true, List.isEmpty_iff] at hpassed
            exact hpassed.1
          subst hgroup
          rw [joinParagraph, if_pos hrun, if_pos hpassed, joinParagraph_joinParagraph rest .nil]
        · rw [joinParagraph_run hrun hpassed]
          split
          · next hopen => exact joinParagraph_joinParagraph rest (h.concat hrun hopen)
          · next hfinished =>
              rw [joinParagraph_finished h hrun hpassed (Bool.eq_false_iff.mpr hfinished),
                joinParagraph_joinParagraph rest .nil]
      · rw [joinParagraph, if_neg hrun]
        split
        · exact joinParagraph_joinParagraph rest h
        · next hended =>
            -- what stands here is neither a run nor a mark inside a waiting group, joined or not
            have hother : isTextRun (joinRuns node) = false := by
              rw [isTextRun_joinRuns]
              exact Bool.eq_false_iff.mpr hrun
            have hbreaks : Breaks group (joinRuns node :: joinParagraph [] rest) := by
              refine ⟨hother, ?_⟩
              rw [isNamed_joinRuns]
              cases group with
              | nil => exact Or.inl rfl
              | cons run others => exact Or.inr (by simpa using hended)
            have hagain : Breaks [] (joinRuns node :: joinParagraph [] rest) := ⟨hother, Or.inl rfl⟩
            rw [joinParagraph_broken h hbreaks, joinParagraph, if_neg (by simp [hother]),
              if_neg (by simp), settleGroup_nil, List.nil_append, joinRuns_joinRuns node,
              joinParagraph_joinParagraph rest .nil]

end

/-! ## Templates keep joined trees -/

lemma renderTree_joinRuns (tree : Node) (data : Value) (part : Option String) :
    renderTree (joinRuns tree) data part = renderTree tree data part := by
  rw [renderTree, renderTree, mergeTree, mergeTree, joinRuns_joinRuns]

lemma renderProperties_joinRuns (tree : Node) (data : Value) (part : Option String) :
    renderProperties (joinRuns tree) data part = renderProperties tree data part := by
  rw [renderProperties, renderProperties, joinRuns_joinRuns]

lemma inspectTree_joinRuns (tree : Node) (location : String) :
    inspectTree (joinRuns tree) location = inspectTree tree location := by
  simp only [inspectTree, joinRuns_joinRuns]

lemma boundedRender_joinRuns (tree : Node) (data : Value) (part : Option String) :
    boundedRender (joinRuns tree) data part = boundedRender tree data part := by
  simp only [boundedRender, mergeRefusal?, mergeTree, joinRuns_joinRuns]

lemma boundedProperties_joinRuns (tree : Node) (data : Value) (part : Option String) :
    boundedProperties (joinRuns tree) data part = boundedProperties tree data part := by
  simp only [boundedProperties, joinRuns_joinRuns]

namespace Template

/-- The trees of a template with their runs joined. -/
def joinTrees (trees : List (String × Node)) : List (String × Node) :=
  trees.map fun (name, tree) => (name, joinRuns tree)

lemma renderParts_joinTrees (data : Value) (trees : List (String × Node)) :
    renderParts data (joinTrees trees) = renderParts data trees := by
  induction trees with
  | nil => rfl
  | cons first rest ih =>
      obtain ⟨name, tree⟩ := first
      have hnamed : renderNamed data name (joinRuns tree) = renderNamed data name tree := by
        simp only [renderNamed, boundedRender_joinRuns, boundedProperties_joinRuns]
      simp only [joinTrees, List.map_cons, renderParts, List.mapM_cons] at ih ⊢
      rw [hnamed, ih]

/-- A template may keep its trees joined or as they were read: it merges to the same archive, or
fails in the same way, and asks for the same. -/
theorem render_joinTrees (lib : Libraries) (source : lib.Archive) (trees : List (String × Node)) :
    (∀ data, render lib ⟨source, joinTrees trees⟩ data = render lib ⟨source, trees⟩ data)
      ∧ inspect ⟨source, joinTrees trees⟩ = inspect ⟨source, trees⟩ := by
  constructor
  · intro data
    simp only [render, renderParts_joinTrees]
  · simp [inspect, joinTrees, Function.comp_def, inspectTree_joinRuns]

end Template

/-- **A joined tree stands for the tree.**  Joining its runs again changes nothing, so merging it as
a document part or as a property part and inspecting it give the same result or the same failure as
for the tree, whatever the data, the part and the location. -/
theorem joined_tree_stands_for_tree (tree : Node) :
    joinRuns (joinRuns tree) = joinRuns tree
      ∧ (∀ data part, renderTree (joinRuns tree) data part = renderTree tree data part
        ∧ renderProperties (joinRuns tree) data part = renderProperties tree data part)
      ∧ ∀ location, inspectTree (joinRuns tree) location = inspectTree tree location :=
  ⟨joinRuns_joinRuns tree,
    fun data part => ⟨renderTree_joinRuns tree data part, renderProperties_joinRuns tree data part⟩,
    inspectTree_joinRuns tree⟩

end FormLetter
