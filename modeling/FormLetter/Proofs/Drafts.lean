import FormLetter.Proofs.Lines

/-!
# Sections of a document

A row of children reads as a draft: paragraphs with sections inside their text, elements whose
children are drafts again, and sections over whole children, which boundaries enclose.

* `Draft` — such a reading.  It carries the facts that make it one, so every draft is a draft of
  the children that it stands for (`Draft.nodes`).
* `Draft.eval` — the meaning: a section over children is replaced by the meaning of the branch that
  its condition selects, a paragraph keeps the characters that the meaning of its text keeps, and
  goes if it had a marker and shows nothing any more.
* `Draft.pass` — what one pass leaves.  `Draft.exists_plan` is the plan that the pass carries out,
  and `Draft.eval_pass` says that it does not change the meaning.
* `Draft.course` — so the passes compute the meaning.
-/

namespace FormLetter

/-! ## Readings of children -/

/-- A reading of a row of children. -/
inductive Draft
  | nil
  /-- Text outside all paragraphs. -/
  | loose (value : Text) (bare : markers value = []) (rest : Draft)
  /-- A paragraph that bounds no section over children. -/
  | paragraph (line : Line) (rest : Draft)
  /-- An element with children that are read on their own. -/
  | element (tag : StartTag) (nested : tag.name ≠ Word.paragraph) (children : Draft)
      (rest : Draft)
  /-- A section of one branch. -/
  | plain (path : Path) (opening : Boundary (.opening path)) (branch : Draft)
      (closing : Boundary .closing) (rest : Draft)
  /-- A section of two branches. -/
  | divided (path : Path) (opening : Boundary (.opening path)) (first : Draft)
      (middle : Boundary .alternative) (second : Draft) (closing : Boundary .closing)
      (rest : Draft)

namespace Draft

/-- The children that are read. -/
def nodes : Draft → List Node
  | nil => []
  | loose value _ rest => .text value :: rest.nodes
  | paragraph line rest => line.node :: rest.nodes
  | element tag _ children rest => .element tag children.nodes :: rest.nodes
  | plain _ opening branch closing rest =>
    opening.node :: (branch.nodes ++ closing.node :: rest.nodes)
  | divided _ opening first middle second closing rest =>
    opening.node :: (first.nodes ++ middle.node :: (second.nodes ++ closing.node :: rest.nodes))

/-- One draft followed by another. -/
def append : Draft → Draft → Draft
  | nil, others => others
  | loose value bare rest, others => loose value bare (rest.append others)
  | paragraph line rest, others => paragraph line (rest.append others)
  | element tag nested children rest, others => element tag nested children (rest.append others)
  | plain path opening branch closing rest, others =>
    plain path opening branch closing (rest.append others)
  | divided path opening first middle second closing rest, others =>
    divided path opening first middle second closing (rest.append others)

/-- The conditions of the outermost sections, in document order. -/
def front : Draft → List Path
  | nil => []
  | loose _ _ rest => rest.front
  | paragraph line rest => line.phrases.front ++ rest.front
  | element _ _ children rest => children.front ++ rest.front
  | plain path _ _ _ rest => path :: rest.front
  | divided path _ _ _ _ _ rest => path :: rest.front

section

variable (holds : Path → Bool)

/-- **What children with sections mean:** each section is the meaning of the branch that its
condition selects, each paragraph has the meaning of its text, and everything else is kept with the
meaning of its own children. -/
def eval : Draft → List Node
  | nil => []
  | loose value _ rest => .text value :: rest.eval
  | paragraph line rest => (if line.vanishes holds then [] else [line.result holds]) ++ rest.eval
  | element tag _ children rest => .element tag children.eval :: rest.eval
  | plain path _ branch _ rest => (if holds path then branch.eval else []) ++ rest.eval
  | divided path _ first _ second _ rest =>
    (if holds path then first.eval else second.eval) ++ rest.eval

/-- The conditions that the meaning depends on: those of sections that no discarded branch
holds. -/
def reached : Draft → List Path
  | nil => []
  | loose _ _ rest => rest.reached
  | paragraph line rest => line.phrases.reached holds ++ rest.reached
  | element _ _ children rest => children.reached ++ rest.reached
  | plain path _ branch _ rest =>
    path :: ((if holds path then branch.reached else []) ++ rest.reached)
  | divided path _ first _ second _ rest =>
    path :: ((if holds path then first.reached else second.reached) ++ rest.reached)

/-- What one pass leaves: of each outermost section the branch that its condition selects, as it
was. -/
def pass : Draft → Draft
  | nil => nil
  | loose value bare rest => loose value bare rest.pass
  | paragraph line rest =>
    if line.drops holds then rest.pass else paragraph (line.pass holds) rest.pass
  | element tag nested children rest => element tag nested children.pass rest.pass
  | plain path _ branch _ rest => (if holds path then branch else nil).append rest.pass
  | divided path _ first _ second _ rest =>
    (if holds path then first else second).append rest.pass

/-! ### Readings one behind the other -/

lemma nodes_append (draft others : Draft) :
    (draft.append others).nodes = draft.nodes ++ others.nodes := by
  induction draft with
  | nil => rfl
  | loose value bare rest ih => simp [append, nodes, ih]
  | paragraph line rest ih => simp [append, nodes, ih]
  | element tag nested children rest _ ih => simp [append, nodes, ih]
  | plain path opening branch closing rest _ ih => simp [append, nodes, ih]
  | divided path opening first middle second closing rest _ _ ih => simp [append, nodes, ih]

lemma eval_append (draft others : Draft) :
    (draft.append others).eval holds = draft.eval holds ++ others.eval holds := by
  induction draft with
  | nil => rfl
  | loose value bare rest ih => simp [append, eval, ih]
  | paragraph line rest ih => simp [append, eval, ih]
  | element tag nested children rest _ ih => simp [append, eval, ih]
  | plain path opening branch closing rest _ ih => simp [append, eval, ih]
  | divided path opening first middle second closing rest _ _ ih => simp [append, eval, ih]

lemma reached_append (draft others : Draft) :
    (draft.append others).reached holds = draft.reached holds ++ others.reached holds := by
  induction draft with
  | nil => rfl
  | loose value bare rest ih => simp [append, reached, ih]
  | paragraph line rest ih => simp [append, reached, ih]
  | element tag nested children rest _ ih => simp [append, reached, ih]
  | plain path opening branch closing rest _ ih => simp [append, reached, ih]
  | divided path opening first middle second closing rest _ _ ih => simp [append, reached, ih]

/-! ### A pass keeps the meaning -/

/-- **A pass does not change the meaning.** -/
theorem eval_pass (draft : Draft) : (draft.pass holds).eval holds = draft.eval holds := by
  induction draft with
  | nil => rfl
  | loose value bare rest ih => rw [pass, eval, ih, eval]
  | paragraph line rest ih =>
      rw [pass, eval]
      cases hdrops : line.drops holds with
      | true =>
          rw [if_pos rfl, ih, line.vanishes_of_drops holds hdrops, if_pos rfl, List.nil_append]
      | false =>
          rw [if_neg (by simp), eval, ih, line.vanishes_pass holds hdrops, line.result_pass]
  | element tag nested children rest ihchildren ih => rw [pass, eval, ihchildren, ih, eval]
  | plain path opening branch closing rest _ ih =>
      rw [pass, eval_append, ih, eval]
      cases holds path <;> rfl
  | divided path opening first middle second closing rest _ _ ih =>
      rw [pass, eval_append, ih, eval]
      cases holds path <;> rfl

/-- What the meaning depends on are the outermost conditions, and what it depends on after a
pass. -/
lemma mem_reached {draft : Draft} {path : Path} :
    path ∈ draft.reached holds ↔ path ∈ draft.front ∨ path ∈ (draft.pass holds).reached holds := by
  induction draft with
  | nil => simp [reached, front, pass]
  | loose value bare rest ih => exact ih
  | paragraph line rest ih =>
      have hline : path ∈ (line.phrases.pass holds).reached holds
            ∨ path ∈ (rest.pass holds).reached holds ↔
          path ∈ (if line.drops holds then rest.pass holds
            else paragraph (line.pass holds) (rest.pass holds)).reached holds := by
        cases hdrops : line.drops holds with
        | true =>
            rw [Phrases.reached_of_isPlain holds (line.isPlain_of_drops holds hdrops)]
            simp
        | false =>
            rw [if_neg (by simp), reached, List.mem_append]
            rfl
      rw [reached, front, pass, List.mem_append, List.mem_append, ih, Phrases.mem_reached,
        or_or_or_comm, hline]
  | element tag nested children rest ihchildren ih =>
      rw [reached, front, pass, reached, List.mem_append, List.mem_append, List.mem_append,
        ihchildren, ih, or_or_or_comm]
  | plain condition opening branch closing rest _ ih =>
      have hbranch : (if holds condition then branch else nil).reached holds
          = if holds condition then branch.reached holds else [] := by split <;> rfl
      rw [reached, front, pass, reached_append, hbranch, List.mem_cons, List.mem_append,
        List.mem_cons, List.mem_append, ih, ← or_assoc, or_or_or_comm]
  | divided condition opening first middle second closing rest _ _ ih =>
      have hbranch : (if holds condition then first else second).reached holds
          = if holds condition then first.reached holds else second.reached holds := by
        split <;> rfl
      rw [reached, front, pass, reached_append, hbranch, List.mem_cons, List.mem_append,
        List.mem_cons, List.mem_append, ih, ← or_assoc, or_or_or_comm]

/-- Without sections the meaning is what stands there. -/
lemma eval_of_front_nil {draft : Draft} (h : draft.front = []) :
    draft.eval holds = draft.nodes := by
  induction draft with
  | nil => rfl
  | loose value bare rest ih => rw [eval, ih h, nodes]
  | paragraph line rest ih =>
      obtain ⟨hline, hrest⟩ := List.append_eq_nil_iff.mp h
      have hplain := Phrases.isPlain_iff_front.mpr hline
      rw [eval, ih hrest, nodes, line.result_of_isPlain holds hplain, Line.vanishes, hplain]
      rfl
  | element tag nested children rest ihchildren ih =>
      obtain ⟨hchildren, hrest⟩ := List.append_eq_nil_iff.mp h
      rw [eval, ihchildren hchildren, ih hrest, nodes]
  | plain path opening branch closing rest => simp [front] at h
  | divided path opening first middle second closing rest => simp [front] at h

/-- Without sections the meaning depends on nothing. -/
lemma reached_of_front_nil {draft : Draft} (h : draft.front = []) : draft.reached holds = [] := by
  induction draft with
  | nil => rfl
  | loose value bare rest ih => exact ih h
  | paragraph line rest ih =>
      obtain ⟨hline, hrest⟩ := List.append_eq_nil_iff.mp h
      have hplain := Phrases.isPlain_iff_front.mpr hline
      rw [reached, ih hrest, Phrases.reached_of_isPlain holds hplain, List.nil_append]
  | element tag nested children rest ihchildren ih =>
      obtain ⟨hchildren, hrest⟩ := List.append_eq_nil_iff.mp h
      rw [reached, ihchildren hchildren, ih hrest, List.nil_append]
  | plain path opening branch closing rest => simp [front] at h
  | divided path opening first middle second closing rest => simp [front] at h

end

/-! ### The plan that a pass carries out -/

lemma markers_loose {value : Text} (h : markers value = []) (s : Spot) :
    s.markers [.text value] = [] := by
  have hsigns : ∀ start, markersFrom start value = [] := fun start => by
    have hnone := map_meaning_markersFrom 0 value
    rw [← markers_eq_markersFrom, h, List.map_nil, ← map_meaning_markersFrom start] at hnone
    exact List.map_eq_nil_iff.mp hnone.symm
  rw [Spot.markers, Spot.passages, Node.leavesFrom, Node.leaves]
  split
  · rfl
  · rw [List.map_singleton, Node.leavesFrom, List.append_nil, List.map_singleton, passagesFrom,
      passagesFrom, List.flatMap_singleton]
    have hcontent : ((Leaf.under s.index ⟨[], .text value⟩).below s.parent).node.content = value :=
      content_text value
    rw [hcontent, hsigns]

variable {tree : Node}

/-- **Every draft has a plan,** which is to make one pass over it. -/
theorem exists_plan (holds : Path → Bool) : ∀ (draft : Draft) (s : Spot),
    (∀ p ∈ s.passages draft.nodes, p ∈ passages tree) →
      ∃ rulings, s.Plan tree holds draft.nodes (draft.pass holds).nodes rulings
        ∧ rulings.map (·.block.condition) = draft.front.map .ofPath
  | nil, s, _ => ⟨[], .untouched rfl, rfl⟩
  | loose value bare rest, s, h => by
      rw [nodes, Spot.passages_cons, List.forall_mem_append] at h
      obtain ⟨rulings, hplan, hfront⟩ := exists_plan holds rest _ h.2
      exact ⟨rulings, .append (.untouched (markers_loose bare s)) hplan, hfront⟩
  | paragraph line rest, s, h => by
      rw [nodes, Spot.passages_cons, List.forall_mem_append] at h
      obtain ⟨rulings, hplan, hfront⟩ := exists_plan holds rest _ h.2
      have hnext : ((paragraph line rest).pass holds).nodes
          = (if line.drops holds then [] else [line.remainder holds])
            ++ (rest.pass holds).nodes := by
        rw [pass]
        cases line.drops holds <;> rfl
      rw [hnext]
      refine ⟨_, (line.plan h.1).append hplan, ?_⟩
      rw [List.map_append, hfront, line.phrases.map_condition_rulings, front, List.map_append]
  | element tag nested children rest, s, h => by
      rw [nodes, Spot.passages_cons, List.forall_mem_append, Spot.passages_element s nested] at h
      obtain ⟨inner, hinner, hfront⟩ := exists_plan holds children _ h.1
      obtain ⟨rulings, hplan, hfront'⟩ := exists_plan holds rest _ h.2
      refine ⟨_, (hinner.element nested).append hplan, ?_⟩
      rw [List.map_append, hfront, hfront', front, List.map_append]
  | plain path opening branch closing rest, s, h => by
      have hnodes : (plain path opening branch closing rest).nodes
          = (opening.node :: (branch.nodes ++ [closing.node])) ++ rest.nodes := by simp [nodes]
      rw [hnodes, Spot.passages_append, List.forall_mem_append] at h
      have hbranch := h.1
      rw [Spot.passages_cons, List.forall_mem_append, Spot.passages_append,
        List.forall_mem_append] at hbranch
      obtain ⟨inner, hinner, -⟩ := exists_plan holds branch _ hbranch.2.1
      obtain ⟨rulings, hplan, hfront⟩ := exists_plan holds rest _ h.2
      have hnext : ((plain path opening branch closing rest).pass holds).nodes
          = (if holds path then branch.nodes else []) ++ (rest.pass holds).nodes := by
        rw [pass, nodes_append]
        cases holds path <;> rfl
      rw [hnodes, hnext]
      refine ⟨_, (plan_plain opening closing hinner.nested h.1).append hplan, ?_⟩
      rw [List.map_append, hfront]
      rfl
  | divided path opening first middle second closing rest, s, h => by
      have hnodes : (divided path opening first middle second closing rest).nodes
          = (opening.node :: (first.nodes ++ middle.node :: (second.nodes ++ [closing.node])))
            ++ rest.nodes := by simp [nodes]
      rw [hnodes, Spot.passages_append, List.forall_mem_append] at h
      have hbranch := h.1
      rw [Spot.passages_cons, List.forall_mem_append, Spot.passages_append,
        List.forall_mem_append, Spot.passages_cons (_ : Spot) middle.node, List.forall_mem_append,
        Spot.passages_append, List.forall_mem_append] at hbranch
      obtain ⟨inner, hinner, -⟩ := exists_plan holds first _ hbranch.2.1
      obtain ⟨inner', hinner', -⟩ := exists_plan holds second _ hbranch.2.2.2.1
      obtain ⟨rulings, hplan, hfront⟩ := exists_plan holds rest _ h.2
      have hnext : ((divided path opening first middle second closing rest).pass holds).nodes
          = (if holds path then first.nodes else second.nodes) ++ (rest.pass holds).nodes := by
        rw [pass, nodes_append]
        cases holds path <;> rfl
      rw [hnodes, hnext]
      refine ⟨_,
        (plan_divided opening middle closing hinner.nested hinner'.nested h.1).append hplan, ?_⟩
      rw [List.map_append, hfront]
      rfl

/-- The passes over the children of an element that is no paragraph. -/
def course {tag : StartTag} (htag : tag.name ≠ Word.paragraph) (holds : Path → Bool) :
    Course holds Draft where
  tree draft := .element tag draft.nodes
  next draft := draft.pass holds
  result draft := .element tag (draft.eval holds)
  front := front
  reached draft := draft.reached holds
  settled draft := by
    have hplaced : ∀ p ∈ Spot.root.passages draft.nodes,
        p ∈ passages (.element tag draft.nodes) := fun p hp => by
      rwa [Spot.passages_root htag] at hp
    obtain ⟨rulings, hplan, hfront⟩ := draft.exists_plan holds Spot.root hplaced
    exact ⟨rulings, hplan.settles htag, hfront⟩
  result_next draft := by rw [eval_pass]
  mem_reached draft _ := mem_reached holds
  finished draft h := ⟨by rw [eval_of_front_nil holds h], reached_of_front_nil holds h⟩

end Draft

end FormLetter
