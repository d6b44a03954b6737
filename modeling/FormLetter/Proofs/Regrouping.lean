import FormLetter.Merge.Outline
import FormLetter.Proofs.JoinedRuns
import FormLetter.Proofs.JoinedTrees
import FormLetter.Proofs.Rejoining

/-!
# What joining runs keeps

Joining looks at the children of a paragraph one by one and keeps some of them back.  Whatever the
order in which it meets runs, proofing marks and other children, no text gets lost on the way.

* **Regrouping.** `Regrouped` — the ways in which children of a paragraph may come out: as they are,
  joined inside, dropped if they are proofing marks, or, together with their neighbours, as one run
  with their text and their common format.  `regrouped_joinParagraph` — joining does nothing else.
* **What follows from it.** Everything that is neither a text run nor a proofing mark stays, in its
  order (`Regrouped.fixed`), and no text moves past it (`Regrouped.split`, `Regrouped.contentOf`).
* **Whole trees.** `joinRuns_keeps_text` — if formats and proofing marks are without text, joining
  keeps the flat text with its segments, and each paragraph is regrouped.  This does not extend into
  text runs, which are units (`joinRuns_keeps_text_run`).
-/

namespace FormLetter

/-! ## Parts of a tree -/

mutual

/-- The nodes of a tree, with the tree itself, in document order. -/
def Node.parts : Node → List Node
  | .text value => [.text value]
  | .element tag children => .element tag children :: Node.partsOf children

/-- The nodes of several trees. -/
def Node.partsOf : List Node → List Node
  | [] => []
  | node :: rest => Node.parts node ++ Node.partsOf rest

end

/-- No proofing mark and no format in the tree holds text. -/
def IsBare (tree : Node) : Prop :=
  ∀ node ∈ tree.parts,
    (node.isNamed Word.proofingMark || node.isNamed Word.runProperties) = true → node.content = []

instance (tree : Node) : Decidable (IsBare tree) :=
  inferInstanceAs (Decidable (∀ node ∈ tree.parts,
    (node.isNamed Word.proofingMark || node.isNamed Word.runProperties) = true →
      node.content = []))

/-- The nodes of a tree at which joining arrives: it goes into all elements but the text runs of a
paragraph. -/
inductive Node.Reaches (tree : Node) : Node → Prop
  | self : Reaches tree tree
  | child {tag : StartTag} {children : List Node} {node : Node}
      (h : Reaches tree (.element tag children)) (hmem : node ∈ children)
      (hrun : tag.name = Word.paragraph → isTextRun node = false) : Reaches tree node

lemma self_mem_parts (node : Node) : node ∈ node.parts := by
  cases node <;> simp [Node.parts]

lemma mem_partsOf {node child : Node} : ∀ {nodes : List Node}, child ∈ nodes →
    node ∈ child.parts → node ∈ Node.partsOf nodes
  | first :: rest, hchild, hnode => by
      rw [Node.partsOf, List.mem_append]
      rcases List.mem_cons.mp hchild with rfl | hchild
      · exact Or.inl hnode
      · exact Or.inr (mem_partsOf hchild hnode)

lemma IsBare.child {tag : StartTag} {children : List Node} (h : IsBare (.element tag children))
    {node : Node} (hnode : node ∈ children) : IsBare node :=
  fun part hpart => h part (List.mem_cons_of_mem _ (mem_partsOf hnode hpart))

lemma IsBare.reached {tree node : Node} (h : IsBare tree) (hreach : tree.Reaches node) :
    IsBare node := by
  induction hreach with
  | self => exact h
  | child _ hmem _ ih => exact ih.child hmem

lemma IsBare.content_mark {node : Node} (h : IsBare node)
    (hmark : node.isNamed Word.proofingMark = true) : node.content = [] :=
  h node (self_mem_parts node) (by rw [hmark, Bool.true_or])

lemma IsBare.content_format {node : Node} (h : IsBare node)
    (hformat : node.isNamed Word.runProperties = true) : node.content = [] :=
  h node (self_mem_parts node) (by rw [hformat, Bool.or_true])

/-! ## Regrouped children -/

/-- The text runs among some nodes. -/
def textRuns (nodes : List Node) : List Node := nodes.filter isTextRun

/-- The format of a run, if it has one. -/
def formatOf (run : Node) : Option Node := run.firstNamed? Word.runProperties

/-- The format for one run in the place of several: theirs if all of them agree on it, where having
none is a format, and none if two of them differ. -/
def IsCommonFormat (runs : List Node) (format : Option Node) : Prop :=
  (format ∈ runs.map formatOf ∧ ∀ run ∈ runs, sameFormat (formatOf run) format = true)
    ∨ format = none
      ∧ ∃ run ∈ runs, ∃ other ∈ runs, sameFormat (formatOf run) (formatOf other) = false

/-- **How children of a paragraph may come out** when its runs are joined. -/
inductive Regrouped : List Node → List Node → Prop
  | nil : Regrouped [] []
  | run {run : Node} {rest others : List Node} (h : isTextRun run = true)
      (hrest : Regrouped rest others) : Regrouped (run :: rest) (run :: others)
  | other {node : Node} {rest others : List Node} (h : isTextRun node = false)
      (hrest : Regrouped rest others) : Regrouped (node :: rest) (joinRuns node :: others)
  | dropped {mark : Node} {rest others : List Node}
      (h : mark.isNamed Word.proofingMark = true) (hrest : Regrouped rest others) :
      Regrouped (mark :: rest) others
  | merged {group rest others : List Node} {format : Option Node}
      (hgroup : ∀ node ∈ group, isRunOrMark node = true)
      (hspanned : isSpanned (textRuns group) = true)
      (hformat : IsCommonFormat (textRuns group) format) (hrest : Regrouped rest others) :
      Regrouped (group ++ rest) (Word.makeRun (groupText (textRuns group)) format :: others)

lemma textRuns_append (nodes others : List Node) :
    textRuns (nodes ++ others) = textRuns nodes ++ textRuns others :=
  List.filter_append nodes others

lemma textRuns_run {run : Node} (h : isTextRun run = true) (nodes : List Node) :
    textRuns (run :: nodes) = run :: textRuns nodes := List.filter_cons_of_pos h

lemma textRuns_other {node : Node} (h : isTextRun node = false) (nodes : List Node) :
    textRuns (node :: nodes) = textRuns nodes := List.filter_cons_of_neg (by simp [h])

lemma isTextRun_textRuns {nodes : List Node} : ∀ run ∈ textRuns nodes, isTextRun run = true :=
  fun _ hrun => (List.mem_filter.mp hrun).2

lemma isRunOrMark_of_isTextRun {node : Node} (h : isTextRun node = true) :
    isRunOrMark node = true := by
  rw [isRunOrMark, h, Bool.true_or]

lemma isRunOrMark_of_mark {node : Node} (h : node.isNamed Word.proofingMark = true) :
    isRunOrMark node = true := by
  rw [isRunOrMark, h, Bool.or_true]

lemma isRunOrMark_joinRuns (node : Node) : isRunOrMark (joinRuns node) = isRunOrMark node := by
  rw [isRunOrMark, isTextRun_joinRuns, isNamed_joinRuns, ← isRunOrMark]

lemma sameFormat_self (format : Option Node) : sameFormat format format = true := by
  cases format with
  | none => rfl
  | some node => exact Node.same_iff.mpr rfl

/-- The format that a merged group gets is the common one. -/
lemma isCommonFormat_sharedFormat {runs : List Node} (hne : runs ≠ []) :
    IsCommonFormat runs (sharedFormat runs) := by
  cases runs with
  | nil => exact absurd rfl hne
  | cons first rest =>
      have hshared : sharedFormat (first :: rest)
          = if rest.all fun run => sameFormat (formatOf run) (formatOf first) then formatOf first
            else none := by
        simp only [sharedFormat, List.map_cons, List.all_map]
        rfl
      rw [hshared]
      split
      · next hagree =>
          refine Or.inl ⟨List.mem_cons_self, List.forall_mem_cons.mpr ⟨sameFormat_self _, ?_⟩⟩
          exact List.all_eq_true.mp hagree
      · next hdiffer =>
          rw [List.all_eq_true] at hdiffer
          push Not at hdiffer
          obtain ⟨run, hrun, hne⟩ := hdiffer
          exact Or.inr ⟨rfl, run, List.mem_cons_of_mem first hrun, first, List.mem_cons_self,
            Bool.eq_false_iff.mpr hne⟩

lemma Regrouped.append {nodes others nodes' others' : List Node} (h : Regrouped nodes others)
    (h' : Regrouped nodes' others') : Regrouped (nodes ++ nodes') (others ++ others') := by
  induction h with
  | nil => exact h'
  | run hrun _ ih => exact .run hrun ih
  | other hrun _ ih => exact .other hrun ih
  | dropped hmark _ ih => exact .dropped hmark ih
  | merged hgroup hspanned hformat _ ih =>
      rw [List.append_assoc]
      exact .merged hgroup hspanned hformat ih

/-- The members of a group that is not merged stay, without the proofing marks. -/
lemma Regrouped.unmerged {rest others : List Node} (h : Regrouped rest others) :
    ∀ {group : List Node}, (∀ node ∈ group, isRunOrMark node = true) →
      Regrouped (group ++ rest) (textRuns group ++ others)
  | [], _ => h
  | node :: group, hgroup => by
      obtain ⟨hnode, hgroup⟩ := List.forall_mem_cons.mp hgroup
      have hrest := Regrouped.unmerged h hgroup
      cases hrun : isTextRun node with
      | true =>
          rw [textRuns_run hrun]
          exact .run hrun hrest
      | false =>
          rw [textRuns_other hrun]
          rw [isRunOrMark, hrun, Bool.false_or] at hnode
          exact .dropped hnode hrest

/-- A group that is settled is merged or stays. -/
lemma Regrouped.settled {rest others group : List Node} (h : Regrouped rest others)
    (hgroup : ∀ node ∈ group, isRunOrMark node = true) :
    Regrouped (group ++ rest) (settleGroup (textRuns group) ++ others) := by
  cases hspanned : isSpanned (textRuns group) with
  | false =>
      rw [settleGroup, if_neg (by simp [hspanned])]
      exact h.unmerged hgroup
  | true =>
      rw [settleGroup, if_pos hspanned]
      refine .merged hgroup hspanned (isCommonFormat_sharedFormat ?_) h
      intro hnil
      rw [hnil] at hspanned
      simp [isSpanned, bordersFrom] at hspanned

lemma regrouped_settleGroup {group : List Node} (h : ∀ node ∈ group, isRunOrMark node = true) :
    Regrouped group (settleGroup (textRuns group)) := by
  have hsettled := Regrouped.nil.settled h
  rwa [List.append_nil, List.append_nil] at hsettled

/-- What joining does with a text run: it waits with the others of its group as long as their text
is unfinished.  A run that is passed over at once is a finished group by itself. -/
lemma joinParagraph_textRun {group rest : List Node} {run : Node} (hrun : isTextRun run = true) :
    joinParagraph group (run :: rest)
      = if isUnfinished (groupText (group ++ [run])) then joinParagraph (group ++ [run]) rest
        else settleGroup (group ++ [run]) ++ joinParagraph [] rest := by
  by_cases hpassed : (group.isEmpty && !(runContent run).contains '@') = true
  · have hplain := hpassed
    rw [Bool.and_eq_true, List.isEmpty_iff] at hplain
    obtain ⟨rfl, hno⟩ := hplain
    have hfinished : isUnfinished (groupText [run]) = false := by
      rw [groupText_singleton]
      exact isUnfinished_of_no_at (by simpa using hno)
    rw [joinParagraph, if_pos hrun, if_pos hpassed, List.nil_append, if_neg (by simp [hfinished]),
      settleGroup_singleton]
    rfl
  · exact joinParagraph_run hrun hpassed

/-- **Joining regroups the children of a paragraph.**  Children from which the waiting runs come,
marks included, have not come out yet. -/
theorem regrouped_joinParagraph : ∀ (nodes : List Node) {group : List Node},
    (∀ node ∈ group, isRunOrMark node = true) →
      Regrouped (group ++ nodes) (joinParagraph (textRuns group) nodes)
  | [], group, hgroup => by
      rw [joinParagraph, List.append_nil]
      exact regrouped_settleGroup hgroup
  | node :: rest, group, hgroup => by
      have hnext : Regrouped rest (joinParagraph [] rest) :=
        @regrouped_joinParagraph rest [] (by simp)
      have hwith : isRunOrMark node = true → ∀ member ∈ group ++ [node],
          isRunOrMark member = true := fun hnode =>
        List.forall_mem_append.mpr ⟨hgroup, by simpa using hnode⟩
      have hsplit : group ++ node :: rest = group ++ [node] ++ rest := by simp
      cases hrun : isTextRun node with
      | true =>
          have hmembers := hwith (isRunOrMark_of_isTextRun hrun)
          have hruns : textRuns group ++ [node] = textRuns (group ++ [node]) := by
            simp [textRuns, hrun]
          rw [joinParagraph_textRun hrun, hsplit, hruns]
          split
          · exact regrouped_joinParagraph rest hmembers
          · exact hnext.settled hmembers
      | false =>
          rw [joinParagraph, if_neg (by simp [hrun])]
          split
          · next hmark =>
              rw [Bool.and_eq_true] at hmark
              have hruns : textRuns group = textRuns (group ++ [node]) := by
                simp [textRuns, hrun]
              rw [hsplit, hruns]
              exact regrouped_joinParagraph rest (hwith (isRunOrMark_of_mark hmark.2))
          · exact (Regrouped.other hrun hnext).settled hgroup

lemma regrouped_joined (children : List Node) : Regrouped children (joinParagraph [] children) :=
  @regrouped_joinParagraph children [] (by simp)

/-! ## What regrouping keeps -/

/-- The children that are neither text runs nor proofing marks stay, in their order. -/
lemma Regrouped.fixed {nodes others : List Node} (h : Regrouped nodes others) :
    others.filter (!isRunOrMark ·) = (nodes.filter (!isRunOrMark ·)).map joinRuns := by
  induction h with
  | nil => rfl
  | run hrun _ ih => simp [isRunOrMark_of_isTextRun hrun, ih]
  | @other node rest others hrun _ ih =>
      cases hfixed : isRunOrMark node with
      | true => simp [isRunOrMark_joinRuns, hfixed, ih]
      | false => simp [isRunOrMark_joinRuns, hfixed, ih]
  | dropped hmark _ ih => simp [isRunOrMark_of_mark hmark, ih]
  | @merged group rest others format hgroup _ hformat _ ih =>
      have hmade : isRunOrMark (Word.makeRun (groupText (textRuns group)) format) = true := by
        refine isRunOrMark_of_isTextRun (isTextRun_makeRun fun f hf => ?_)
        rcases hformat with ⟨hmem, -⟩ | ⟨hnone, -⟩
        · obtain ⟨run, -, hrun⟩ := List.mem_map.mp hmem
          exact List.find?_some (hrun.trans hf)
        · simp [hnone] at hf
      have hnone : group.filter (!isRunOrMark ·) = [] :=
        List.filter_eq_nil_iff.mpr fun node hnode => by simp [hgroup node hnode]
      rw [List.filter_cons_of_neg (by simp [hmade]), List.filter_append, hnone, ih,
        List.nil_append]

/-- What comes out before and behind a child that is neither a text run nor a proofing mark, comes
from what stands before and behind it. -/
lemma Regrouped.split {nodes others : List Node} (h : Regrouped nodes others) {node : Node}
    (hfixed : isRunOrMark node = false) {before after : List Node}
    (hnodes : nodes = before ++ node :: after) :
    ∃ front back, others = front ++ joinRuns node :: back ∧ Regrouped before front
      ∧ Regrouped after back := by
  have hne : ∀ {member : Node}, isRunOrMark member = true → member ≠ node := fun hmember heq =>
    Bool.noConfusion (hmember.symm.trans (heq ▸ hfixed))
  induction h generalizing before with
  | nil => simp at hnodes
  | @run first rest others hrun hrest ih =>
      cases before with
      | nil => exact absurd (List.cons.inj hnodes).1 (hne (isRunOrMark_of_isTextRun hrun))
      | cons first' before =>
          obtain ⟨rfl, hrest⟩ := List.cons.inj hnodes
          obtain ⟨front, back, rfl, hfront, hback⟩ := ih hrest
          exact ⟨first :: front, back, rfl, .run hrun hfront, hback⟩
  | @other first rest others hrun hregrouped ih =>
      cases before with
      | nil =>
          obtain ⟨rfl, rfl⟩ := List.cons.inj hnodes
          exact ⟨[], others, rfl, .nil, hregrouped⟩
      | cons first' before =>
          obtain ⟨rfl, hrest⟩ := List.cons.inj hnodes
          obtain ⟨front, back, rfl, hfront, hback⟩ := ih hrest
          exact ⟨joinRuns first :: front, back, rfl, .other hrun hfront, hback⟩
  | @dropped mark rest others hmark hrest ih =>
      cases before with
      | nil => exact absurd (List.cons.inj hnodes).1 (hne (isRunOrMark_of_mark hmark))
      | cons first' before =>
          obtain ⟨rfl, hrest⟩ := List.cons.inj hnodes
          obtain ⟨front, back, rfl, hfront, hback⟩ := ih hrest
          exact ⟨front, back, rfl, .dropped hmark hfront, hback⟩
  | @merged group rest others format hgroup hspanned hformat hrest ih =>
      rcases List.append_eq_append_iff.mp hnodes with
        ⟨middle, rfl, hrest⟩ | ⟨middle, hmiddle, hsplit⟩
      · obtain ⟨front, back, rfl, hfront, hback⟩ := ih hrest
        exact ⟨_ :: front, back, rfl, .merged hgroup hspanned hformat hfront, hback⟩
      · cases middle with
        | nil =>
            rw [List.append_nil] at hmiddle
            obtain ⟨front, back, rfl, hfront, hback⟩ := @ih [] hsplit.symm
            have hmerged := Regrouped.merged hgroup hspanned hformat hfront
            rw [List.append_nil] at hmerged
            exact ⟨_ :: front, back, rfl, hmiddle ▸ hmerged, hback⟩
        | cons member middle =>
            obtain ⟨rfl, -⟩ := List.cons.inj hsplit
            have hmember := hgroup _ (hmiddle ▸ List.mem_append_right _ List.mem_cons_self)
            exact absurd rfl (hne hmember)

/-! ## The text of regrouped children -/

lemma contentOf_filter {p : Node → Bool} : ∀ {nodes : List Node},
    (∀ node ∈ nodes, p node = false → node.content = []) →
      Node.contentOf (nodes.filter p) = Node.contentOf nodes
  | [], _ => rfl
  | node :: rest, h => by
      obtain ⟨hnode, hrest⟩ := List.forall_mem_cons.mp h
      have ih := contentOf_filter hrest
      cases hp : p node with
      | true => rw [List.filter_cons_of_pos hp, contentOf_cons, contentOf_cons, ih]
      | false =>
          rw [List.filter_cons_of_neg (by simp [hp]), contentOf_cons, hnode hp, List.nil_append, ih]

/-- A text run holds the text that it shows, and no other. -/
lemma content_of_isTextRun {run : Node} (h : IsBare run) (hrun : isTextRun run = true) :
    run.content = runContent run := by
  cases run with
  | text value => simp [isTextRun, Node.isNamed] at hrun
  | element tag children =>
      rw [isTextRun, Bool.and_eq_true, List.all_eq_true] at hrun
      rw [content_element, runContent, Node.childrenNamed, Node.children, contentOf_filter]
      intro child hchild htext
      have hformat := hrun.2 child hchild
      rw [isRunContent, htext, Bool.or_false] at hformat
      exact (h.child hchild).content_format hformat

/-- A group holds the text of its runs. -/
lemma contentOf_group {group : List Node} (hbare : ∀ node ∈ group, IsBare node)
    (hgroup : ∀ node ∈ group, isRunOrMark node = true) :
    Node.contentOf group = groupText (textRuns group) := by
  have hruns : Node.contentOf (textRuns group) = Node.contentOf group := by
    refine contentOf_filter fun node hnode hrun => (hbare node hnode).content_mark ?_
    simpa [isRunOrMark, hrun] using hgroup node hnode
  have hshown : ∀ {runs : List Node}, (∀ run ∈ runs, IsBare run ∧ isTextRun run = true) →
      Node.contentOf runs = groupText runs := by
    intro runs h
    induction runs with
    | nil => rfl
    | cons run rest ih =>
        obtain ⟨⟨hrun, htext⟩, hrest⟩ := List.forall_mem_cons.mp h
        rw [contentOf_cons, content_of_isTextRun hrun htext, ih hrest]
        rfl
  rw [← hruns]
  exact hshown fun run hrun =>
    ⟨hbare run (List.mem_of_mem_filter hrun), isTextRun_textRuns run hrun⟩

lemma content_makeRun {text : Text} {format : Option Node} (h : ∀ f ∈ format, f.content = []) :
    (Word.makeRun text format).content = text := by
  cases format with
  | none => simp [Word.makeRun, content_element, content_text]
  | some f => simp [Word.makeRun, content_element, content_text, h f rfl]

/-- Regrouping keeps the text, as long as joining keeps that of each single child. -/
lemma Regrouped.contentOf {nodes others : List Node} (h : Regrouped nodes others)
    (hbare : ∀ node ∈ nodes, IsBare node)
    (hjoined : ∀ node ∈ nodes, (joinRuns node).content = node.content) :
    Node.contentOf others = Node.contentOf nodes := by
  induction h with
  | nil => rfl
  | run _ _ ih =>
      obtain ⟨-, hbare⟩ := List.forall_mem_cons.mp hbare
      obtain ⟨-, hjoined⟩ := List.forall_mem_cons.mp hjoined
      rw [contentOf_cons, contentOf_cons, ih hbare hjoined]
  | other _ _ ih =>
      obtain ⟨-, hbare⟩ := List.forall_mem_cons.mp hbare
      obtain ⟨hnode, hjoined⟩ := List.forall_mem_cons.mp hjoined
      rw [contentOf_cons, contentOf_cons, hnode, ih hbare hjoined]
  | dropped hmark _ ih =>
      obtain ⟨hnode, hbare⟩ := List.forall_mem_cons.mp hbare
      obtain ⟨-, hjoined⟩ := List.forall_mem_cons.mp hjoined
      rw [contentOf_cons, hnode.content_mark hmark, List.nil_append, ih hbare hjoined]
  | @merged group rest others format hgroup _ hformat _ ih =>
      obtain ⟨hmembers, hbare⟩ := List.forall_mem_append.mp hbare
      obtain ⟨-, hjoined⟩ := List.forall_mem_append.mp hjoined
      have hplain : ∀ f ∈ format, f.content = [] := by
        intro f hf
        rcases hformat with ⟨hmem, -⟩ | ⟨hnone, -⟩
        · obtain ⟨run, hrun, heq⟩ := List.mem_map.mp hmem
          have hfound : run.firstNamed? Word.runProperties = some f := heq.trans hf
          have hbareRun := hmembers run (List.mem_of_mem_filter hrun)
          cases run with
          | text value => simp [Node.firstNamed?, Node.children] at hfound
          | element tag children =>
              exact (hbareRun.child (List.mem_of_find?_eq_some hfound)).content_format
                (List.find?_some hfound)
        · simp [hnone] at hf
      rw [contentOf_cons, content_makeRun hplain, ih hbare hjoined, contentOf_append,
        contentOf_group hmembers hgroup]

mutual

/-- Joining keeps the text of a tree. -/
theorem content_joinRuns : ∀ node : Node, IsBare node → (joinRuns node).content = node.content
  | .text _, _ => by rw [joinRuns]
  | .element tag children, h => by
      have hchildren : ∀ node ∈ children, IsBare node := fun node hnode => h.child hnode
      rw [joinRuns]
      split
      · rw [content_element, content_element]
        exact (regrouped_joined children).contentOf hchildren
          (content_joinRuns_of_mem children hchildren)
      · rw [content_element, content_element]
        exact contentOf_joinRunsOf children hchildren

theorem content_joinRuns_of_mem : ∀ nodes : List Node, (∀ node ∈ nodes, IsBare node) →
    ∀ node ∈ nodes, (joinRuns node).content = node.content
  | [], _, _, hnode => absurd hnode List.not_mem_nil
  | first :: rest, h, node, hnode => by
      rcases List.mem_cons.mp hnode with heq | hnode
      · rw [heq]
        exact content_joinRuns first (h first List.mem_cons_self)
      · exact content_joinRuns_of_mem rest (fun n hn => h n (List.mem_cons_of_mem _ hn)) node hnode

theorem contentOf_joinRunsOf : ∀ nodes : List Node, (∀ node ∈ nodes, IsBare node) →
    Node.contentOf (joinRunsOf nodes) = Node.contentOf nodes
  | [], _ => rfl
  | first :: rest, h => by
      obtain ⟨hfirst, hrest⟩ := List.forall_mem_cons.mp h
      rw [joinRunsOf, contentOf_cons, contentOf_cons, content_joinRuns first hfirst,
        contentOf_joinRunsOf rest hrest]

end

/-! ## Whole trees -/

mutual

/-- Joining keeps the segments of the flat text. -/
theorem outlineAt_joinRuns : ∀ (place : Place) (node : Node), IsBare node →
    outlineAt place (joinRuns node) = outlineAt place node
  | _, .text _, _ => by rw [joinRuns]
  | place, .element tag children, h => by
      have hcontent := content_joinRuns (.element tag children) h
      rw [joinRuns] at hcontent ⊢
      split
      · next hparagraph =>
          rw [if_pos hparagraph] at hcontent
          rw [outlineAt, outlineAt, if_pos hparagraph, if_pos hparagraph, hcontent]
      · next hparagraph =>
          rw [outlineAt, outlineAt, if_neg hparagraph, if_neg hparagraph]
          exact outlineFrom_joinRunsOf place 0 children fun node hnode => h.child hnode

theorem outlineFrom_joinRunsOf : ∀ (place : Place) (index : Nat) (nodes : List Node),
    (∀ node ∈ nodes, IsBare node) →
      outlineFrom place index (joinRunsOf nodes) = outlineFrom place index nodes
  | _, _, [], _ => rfl
  | place, index, node :: rest, h => by
      obtain ⟨hnode, hrest⟩ := List.forall_mem_cons.mp h
      rw [joinRunsOf, outlineFrom, outlineFrom, outlineAt_joinRuns _ node hnode,
        outlineFrom_joinRunsOf place _ rest hrest]

end

/-- What joining makes of the children of a paragraph. -/
structure IsRegrouping (children others : List Node) : Prop where
  /-- Only text runs and proofing marks do not come out one by one. -/
  groups : Regrouped children others
  /-- The text of the paragraph stays. -/
  content : Node.contentOf others = Node.contentOf children
  /-- What is neither a text run nor a proofing mark stays, joined inside, in its order. -/
  fixed : others.filter (!isRunOrMark ·) = (children.filter (!isRunOrMark ·)).map joinRuns
  /-- No text moves past such a child. -/
  apart : ∀ before node after, children = before ++ node :: after → isRunOrMark node = false →
    ∃ front back, others = front ++ joinRuns node :: back
      ∧ Regrouped before front ∧ Node.contentOf front = Node.contentOf before
      ∧ Regrouped after back ∧ Node.contentOf back = Node.contentOf after

/-- What joining does to a node: the children of a paragraph are regrouped, and nothing else
happens. -/
def Node.IsKept : Node → Prop
  | .text value => joinRuns (.text value) = .text value
  | .element tag children =>
    if tag.name = Word.paragraph then
      ∃ others, joinRuns (.element tag children) = .element tag others
        ∧ IsRegrouping children others
    else joinRuns (.element tag children) = .element tag (children.map joinRuns)

lemma joinRunsOf_eq_map (nodes : List Node) : joinRunsOf nodes = nodes.map joinRuns := by
  induction nodes with
  | nil => rfl
  | cons node rest ih => rw [joinRunsOf, ih, List.map_cons]

lemma isRegrouping_joinParagraph {children : List Node} (h : ∀ node ∈ children, IsBare node) :
    IsRegrouping children (joinParagraph [] children) := by
  have hgroups := regrouped_joined children
  have hjoined := content_joinRuns_of_mem children h
  refine ⟨hgroups, hgroups.contentOf h hjoined, hgroups.fixed, ?_⟩
  rintro before node after rfl hfixed
  obtain ⟨front, back, hothers, hfront, hback⟩ := hgroups.split hfixed rfl
  obtain ⟨hbefore, hafter⟩ := List.forall_mem_append.mp h
  obtain ⟨hjoinedBefore, hjoinedAfter⟩ := List.forall_mem_append.mp hjoined
  exact ⟨front, back, hothers, hfront, hfront.contentOf hbefore hjoinedBefore, hback,
    hback.contentOf (List.forall_mem_cons.mp hafter).2 (List.forall_mem_cons.mp hjoinedAfter).2⟩

lemma isKept_of_isBare : ∀ {node : Node}, IsBare node → node.IsKept
  | .text _, _ => by rw [Node.IsKept, joinRuns]
  | .element tag children, h => by
      rw [Node.IsKept, joinRuns]
      split
      · next hparagraph =>
          rw [if_pos (by simpa using hparagraph)]
          exact ⟨_, rfl, isRegrouping_joinParagraph fun node hnode => h.child hnode⟩
      · next hparagraph =>
          rw [if_neg (by simpa using hparagraph), joinRunsOf_eq_map]

/-- **Joining runs keeps all text and all other content.**  If the proofing marks and formats of a
tree are without text, its flat text with the segments stays, and so does the text of every node at
which joining arrives, each paragraph among them.  The children of these paragraphs are regrouped,
and outside paragraphs nothing happens. -/
theorem joinRuns_keeps_text (tree : Node) (h : IsBare tree) :
    flatText (joinRuns tree) = flatText tree ∧ segments (joinRuns tree) = segments tree
      ∧ ∀ node, tree.Reaches node → (joinRuns node).content = node.content ∧ node.IsKept := by
  have houtline : outline (joinRuns tree) = outline tree := outlineAt_joinRuns [] tree h
  refine ⟨by rw [flatText, houtline, flatText], by rw [segments, houtline, segments], ?_⟩
  intro node hreach
  have hnode := h.reached hreach
  exact ⟨content_joinRuns node hnode, isKept_of_isBare hnode⟩

/-- An element of the word processing vocabulary without attributes. -/
def wordElement (localPart : String) (children : List Node) : Node :=
  .element ⟨Word.named localPart, [], []⟩ children

theorem joinRuns_keeps_text_marked :
    let tree := wordElement "body" [wordElement "p" [Word.makeRun "Hello @cust".toList none,
      wordElement "proofErr" [], Word.makeRun "omer.name@".toList none,
      wordElement "bookmarkStart" [], Word.makeRun "and @".toList none]]
    IsBare tree
      ∧ flatText (joinRuns tree) = flatText tree ∧ segments (joinRuns tree) = segments tree
      ∧ ∀ node, tree.Reaches node → (joinRuns node).content = node.content ∧ node.IsKept := by
  intro tree
  have hbare : IsBare tree := by decide +kernel
  exact ⟨hbare, joinRuns_keeps_text tree hbare⟩

/-- **Text runs are units,** and a proofing mark is dropped with all that it holds.  A paragraph
inside the text of a run has a child that is neither a text run nor a proofing mark, and this child
is not joined inside; a paragraph inside a mark goes with the mark. -/
theorem joinRuns_keeps_text_run :
    let child := wordElement "hyperlink" [paragraphOf [["@na"], ["me@"]]]
    let paragraph := wordElement "p" [child]
    let tree := wordElement "p" [wordElement "r" [wordElement "t" [paragraph]]]
    let bare := wordElement "p" [wordElement "bookmarkStart" []]
    let marked := wordElement "p" [dividedRun ["@na"], wordElement "proofErr" [bare],
      dividedRun ["me@"]]
    (IsBare tree ∧ paragraph ∈ tree.parts ∧ isRunOrMark child = false
      ∧ joinRuns child
          = wordElement "hyperlink" [wordElement "p" [Word.makeRun "@name@".toList none]]
      ∧ joinRuns child ≠ child ∧ joinRuns tree = tree)
    ∧ IsBare marked ∧ bare ∈ marked.parts
      ∧ joinRuns marked = wordElement "p" [Word.makeRun "@name@".toList none] := by
  decide +kernel

end FormLetter
