import FormLetter.Proofs.Nesting
import FormLetter.Proofs.Passes

/-!
# Planning a pass part by part

A pass collects the edits of all sections of a tree and then applies them.  To say what becomes of
a row of neighbouring children, one needs only the sections among them and their edits, and these
can be put together from the parts of the row.

* `Spot` — where a row of children stands in the tree and in the flat text, with the passages and
  the markers of the row.
* `Spot.Plan` — a plan for a row: the rulings on its sections, their edits, and what these make of
  the row.  Plans of neighbours are a plan (`Spot.Plan.append`), and a plan for the children of an
  element is one for the element (`Spot.Plan.element`).
* `Settles` — a plan for the whole tree, such as one for the children of the root
  (`Spot.Plan.settles`).  `Settles.resolvePass` — it is what the pass does if the conditions can be
  evaluated, and `Settles.resolvePass_error` says how the pass fails if one of them cannot.
-/

namespace FormLetter

/-! ## Sections that are located and decided -/

lemma edits_of_located {tree : Node} {data : Value} {r : Ruling} (h : r.block.Located tree)
    (hholds : isTruthy data r.block.condition.path = .ok r.holds) :
    r.block.edits (segments tree) data = .ok (r.edits tree) := by
  rw [Block.edits, locate_of_located h, hholds]
  rfl

/-- Sections that are located and decided have the edits of their rulings. -/
lemma editsOfBlocks_of_located {tree : Node} {data : Value} : ∀ {rulings : List Ruling},
    (∀ r ∈ rulings, r.block.Located tree) →
    (∀ r ∈ rulings, isTruthy data r.block.condition.path = .ok r.holds) →
      editsOfBlocks (segments tree) data (rulings.map Ruling.block)
        = .ok (rulings.flatMap (Ruling.edits tree))
  | [], _, _ => rfl
  | r :: rest, hlocated, hdecided => by
      obtain ⟨hr, hrest⟩ := List.forall_mem_cons.mp hlocated
      obtain ⟨hd, hdrest⟩ := List.forall_mem_cons.mp hdecided
      rw [List.map_cons, editsOfBlocks, edits_of_located hr hd,
        editsOfBlocks_of_located hrest hdrest]
      rfl

/-- If some section that is located cannot be decided, the first one of them is reported. -/
lemma editsOfBlocks_error {tree : Node} {data : Value} : ∀ {blocks : List Block},
    (∀ b ∈ blocks, b.Located tree) →
    (∃ b ∈ blocks, ∃ reason, isTruthy data b.condition.path = .error reason) →
      ∃ b ∈ blocks, ∃ reason, isTruthy data b.condition.path = .error reason
        ∧ editsOfBlocks (segments tree) data blocks = .error (.ofReason b.condition reason)
  | [], _, h => by simp at h
  | block :: rest, hlocated, h => by
      obtain ⟨hblock, hrest⟩ := List.forall_mem_cons.mp hlocated
      cases hholds : isTruthy data block.condition.path with
      | error reason =>
          refine ⟨block, List.mem_cons_self, reason, hholds, ?_⟩
          rw [editsOfBlocks, Block.edits, locate_of_located hblock, hholds]
          rfl
      | ok holds =>
          obtain ⟨b, hb, reason, hreason⟩ := h
          have hlater : b ∈ rest := by
            rcases List.mem_cons.mp hb with rfl | hb
            · rw [hholds] at hreason
              simp at hreason
            · exact hb
          obtain ⟨first, hfirst, why, hwhy, herror⟩ :=
            editsOfBlocks_error hrest ⟨b, hlater, reason, hreason⟩
          refine ⟨first, List.mem_cons_of_mem block hfirst, why, hwhy, ?_⟩
          rw [editsOfBlocks, edits_of_located (r := ⟨block, holds⟩) hblock hholds, herror]
          rfl

/-! ## Rows of children -/

lemma passagesFrom_append (start : Nat) (leaves others : List Leaf) :
    passagesFrom start (leaves ++ others)
      = passagesFrom start leaves
        ++ passagesFrom (start + totalLength (leaves.map (·.node.content))) others := by
  induction leaves generalizing start with
  | nil => rfl
  | cons leaf rest ih =>
      rw [List.cons_append, passagesFrom, passagesFrom, ih, List.map_cons, totalLength,
        List.cons_append]
      congr 3
      omega

lemma leavesFrom_append (index : Nat) (nodes others : List Node) :
    Node.leavesFrom index (nodes ++ others)
      = Node.leavesFrom index nodes ++ Node.leavesFrom (index + nodes.length) others := by
  induction nodes generalizing index with
  | nil => rfl
  | cons node rest ih =>
      rw [List.cons_append, Node.leavesFrom, Node.leavesFrom, ih, List.append_assoc,
        List.length_cons]
      congr 3
      omega

/-- The leaf of a tree at the given place. -/
def Leaf.below (base : Place) (leaf : Leaf) : Leaf := ⟨base ++ leaf.place, leaf.node⟩

/-- Where a row of neighbouring children stands: the place of their parent, the position of the
first one among the children, and the position of its first character in the flat text. -/
structure Spot where
  parent : Place
  index : Nat
  start : Nat

namespace Spot

/-- The place of the first child. -/
def here (s : Spot) : Place := s.parent ++ [s.index]

/-- Where a row stands that follows the given children. -/
def after (s : Spot) (nodes : List Node) : Spot :=
  ⟨s.parent, s.index + nodes.length, s.start + totalLength (leafTexts nodes)⟩

/-- Where the children of the first child stand. -/
def inside (s : Spot) : Spot := ⟨s.here, 0, s.start⟩

/-- The passages of a row. -/
def passages (s : Spot) (nodes : List Node) : List Passage :=
  passagesFrom s.start ((Node.leavesFrom s.index nodes).map (Leaf.below s.parent))

/-- The conditional markers of a row. -/
def markers (s : Spot) (nodes : List Node) : List Marker :=
  (s.passages nodes).flatMap fun p => markersFrom p.start p.node.content

variable (s : Spot)

@[simp] lemma passages_nil : s.passages [] = [] := rfl

lemma passages_append (nodes others : List Node) :
    s.passages (nodes ++ others) = s.passages nodes ++ (s.after nodes).passages others := by
  have hcontents : (Node.leavesFrom s.index nodes).map
      ((fun leaf => leaf.node.content) ∘ Leaf.below s.parent) = leafTexts nodes :=
    map_content_leavesFrom s.index nodes
  rw [passages, leavesFrom_append, List.map_append, passagesFrom_append, List.map_map, hcontents]
  rfl

lemma passages_cons (node : Node) (rest : List Node) :
    s.passages (node :: rest) = s.passages [node] ++ (s.after [node]).passages rest :=
  s.passages_append [node] rest

lemma passages_paragraph {node : Node} (h : node.isNamed Word.paragraph = true) :
    s.passages [node] = [⟨⟨s.here, node⟩, s.start⟩] := by
  rw [passages, Node.leavesFrom, leaves_of_paragraph h]
  rfl

lemma passages_element {tag : StartTag} (h : tag.name ≠ Word.paragraph) (children : List Node) :
    s.passages [.element tag children] = s.inside.passages children := by
  have hbelow : Leaf.below s.parent ∘ Leaf.under s.index = Leaf.below s.here := by
    funext leaf
    simp [Leaf.below, Leaf.under, here]
  rw [passages, Node.leavesFrom, leaves_of_element (by simpa using h), Node.leavesFrom,
    List.append_nil, List.map_map, hbelow]
  rfl

lemma markers_append (nodes others : List Node) :
    s.markers (nodes ++ others) = s.markers nodes ++ (s.after nodes).markers others := by
  rw [markers, passages_append, List.flatMap_append]
  rfl

lemma markers_cons (node : Node) (rest : List Node) :
    s.markers (node :: rest) = s.markers [node] ++ (s.after [node]).markers rest :=
  s.markers_append [node] rest

lemma markers_element {tag : StartTag} (h : tag.name ≠ Word.paragraph) (children : List Node) :
    s.markers [.element tag children] = s.inside.markers children := by
  rw [markers, passages_element s h]
  rfl

lemma markers_paragraph {node : Node} (h : node.isNamed Word.paragraph = true) :
    s.markers [node] = markersFrom s.start node.content := by
  rw [markers, passages_paragraph s h, List.flatMap_singleton]

/-- The spot of the children of the root. -/
def root : Spot := ⟨[], 0, 0⟩

lemma passages_root {tag : StartTag} (h : tag.name ≠ Word.paragraph) (children : List Node) :
    root.passages children = FormLetter.passages (.element tag children) := by
  have hbelow : Leaf.below [] = id := rfl
  rw [FormLetter.passages, leaves_of_element (by simpa using h), passages, root, hbelow,
    List.map_id]

lemma markers_root {tag : StartTag} (h : tag.name ≠ Word.paragraph) (children : List Node) :
    root.markers children = FormLetter.markers (flatText (.element tag children)) := by
  rw [markers_flatText, markers, passages_root h]

end Spot

/-! ## Edits of rows -/

namespace Edit

/-- Where the edit applies. -/
def place : Edit → Place
  | .cut place _ => place
  | .remove place => place

/-- The edit of a tree that stands at the given place. -/
def below (base : Place) : Edit → Edit
  | .cut place range => .cut (base ++ place) range
  | .remove place => .remove (base ++ place)

/-- Whether the edit applies at or below a child from position `low` up to `high`. -/
def IsAmong (low high : Nat) (edit : Edit) : Prop :=
  ∃ i rest, edit.place = i :: rest ∧ low ≤ i ∧ i < high

lemma IsAmong.mono {low high low' high' : Nat} {edit : Edit} (h : edit.IsAmong low high)
    (hlow : low' ≤ low) (hhigh : high ≤ high') : edit.IsAmong low' high' := by
  obtain ⟨i, rest, hplace, hi, hi'⟩ := h
  exact ⟨i, rest, hplace, Nat.le_trans hlow hi, Nat.lt_of_lt_of_le hi' hhigh⟩

end Edit

lemma editsUnder_append (index : Nat) (es fs : List Edit) :
    editsUnder index (es ++ fs) = editsUnder index es ++ editsUnder index fs :=
  List.filterMap_append

lemma editsUnder_map_below (index : Nat) (edits : List Edit) :
    editsUnder index (edits.map (Edit.below [index])) = edits := by
  rw [editsUnder, List.filterMap_map]
  have h : ∀ edit : Edit, (Edit.under? index ∘ Edit.below [index]) edit = some edit := by
    rintro (⟨place, range⟩ | ⟨place⟩) <;> simp [Edit.below, Edit.under?]
  rw [List.filterMap_congr fun edit _ => h edit, List.filterMap_some]

/-- Edits among other children do not concern a child. -/
lemma editsUnder_of_among {edits : List Edit} {low high index : Nat}
    (h : ∀ e ∈ edits, e.IsAmong low high) (hindex : index < low ∨ high ≤ index) :
    editsUnder index edits = [] := by
  refine List.eq_nil_iff_forall_not_mem.mpr fun edit he => ?_
  rcases mem_editsUnder.mp he with ⟨place, range, -, he⟩ | ⟨place, -, he⟩
  all_goals
    obtain ⟨i, rest, hplace, hlow, hhigh⟩ := h _ he
    simp only [Edit.place, List.cons.injEq] at hplace
    omega

/-- Edits among the children of a node do not concern the node itself. -/
lemma nothing_here_of_among {edits : List Edit} {low high : Nat}
    (h : ∀ e ∈ edits, e.IsAmong low high) : cutsHere edits = [] ∧ removesHere edits = false := by
  have hplace : ∀ e ∈ edits, e.place ≠ [] := fun e he hnil => by
    obtain ⟨i, rest, hplace, -, -⟩ := h e he
    rw [hnil] at hplace
    simp at hplace
  constructor
  · refine List.filterMap_eq_nil_iff.mpr fun e he => ?_
    have := hplace e he
    rcases e with ⟨_ | _, _⟩ | _ <;> simp_all [Edit.place, Edit.cutHere?]
  · rw [Bool.eq_false_iff, ne_eq, removesHere_eq_true]
    exact fun he => hplace _ he rfl

lemma editFrom_append (edits : List Edit) (index : Nat) (nodes others : List Node) :
    Node.editFrom edits index (nodes ++ others)
      = Node.editFrom edits index nodes ++ Node.editFrom edits (index + nodes.length) others := by
  induction nodes generalizing index with
  | nil => rfl
  | cons node rest ih =>
      rw [List.cons_append, editFrom_cons, editFrom_cons, ih, List.append_assoc, List.length_cons]
      congr 3
      omega

/-- What becomes of a row depends on the edits at and below its nodes only. -/
lemma editFrom_congr {es fs : List Edit} {index : Nat} {nodes : List Node}
    (h : ∀ k < nodes.length, editsUnder (index + k) es = editsUnder (index + k) fs) :
    Node.editFrom es index nodes = Node.editFrom fs index nodes := by
  induction nodes generalizing index with
  | nil => rfl
  | cons node rest ih =>
      have hfirst := h 0 (Nat.zero_lt_succ _)
      rw [Nat.add_zero] at hfirst
      rw [editFrom_cons, editFrom_cons, hfirst, ih fun k hk => by
        have := h (k + 1) (Nat.succ_lt_succ hk)
        rwa [Nat.add_assoc, Nat.add_comm 1 k]]

lemma editFrom_untouched {edits : List Edit} {index : Nat} (nodes : List Node)
    (h : ∀ k < nodes.length, editsUnder (index + k) edits = []) :
    Node.editFrom edits index nodes = nodes := by
  calc Node.editFrom edits index nodes = Node.editFrom [] index nodes := editFrom_congr h
    _ = nodes := editFrom_nil ..

lemma editFrom_removed {edits : List Edit} {index : Nat} {nodes : List Node}
    (h : ∀ k < nodes.length, .remove [index + k] ∈ edits) :
    Node.editFrom edits index nodes = [] := by
  induction nodes generalizing index with
  | nil => rfl
  | cons node rest ih =>
      have hfirst : removesHere (editsUnder index edits) = true :=
        removesHere_eq_true.mpr (mem_editsUnder.mpr (Or.inr ⟨[], rfl, h 0 (Nat.zero_lt_succ _)⟩))
      rw [editFrom_cons, Node.editChild?, if_pos hfirst, ih fun k hk => by
        have := h (k + 1) (Nat.succ_lt_succ hk)
        rwa [Nat.add_assoc, Nat.add_comm 1 k]]
      rfl

/-! ## Plans -/

/-- A plan for a row of children, for given truth values of the conditions: the rulings on the
sections among them, and what their edits make of the row. -/
structure Spot.Plan (s : Spot) (tree : Node) (holds : Path → Bool) (nodes next : List Node)
    (rulings : List Ruling) : Prop where
  nested : Nested (s.markers nodes) (rulings.map Ruling.block)
  located : ∀ r ∈ rulings, r.block.Located tree
  decided : ∀ r ∈ rulings, r.holds = holds r.block.condition.path
  carried : ∃ edits : List Edit, rulings.flatMap (Ruling.edits tree) = edits.map (.below s.parent)
    ∧ (∀ e ∈ edits, e.IsAmong s.index (s.index + nodes.length))
    ∧ Node.editFrom edits s.index nodes = next

namespace Spot.Plan

variable {s : Spot} {tree : Node} {holds : Path → Bool}

/-- A row without markers stays as it is. -/
lemma untouched {nodes : List Node} (h : s.markers nodes = []) :
    s.Plan tree holds nodes nodes [] :=
  ⟨h ▸ .nil, by simp, by simp, [], rfl, by simp, editFrom_nil _ _⟩

/-- **Plans of neighbours are a plan.** -/
lemma append {nodes next others next' : List Node} {rulings rulings' : List Ruling}
    (h : s.Plan tree holds nodes next rulings)
    (h' : (s.after nodes).Plan tree holds others next' rulings') :
    s.Plan tree holds (nodes ++ others) (next ++ next') (rulings ++ rulings') := by
  obtain ⟨es, hes, hamong, hnext⟩ := h.carried
  obtain ⟨fs, hfs, hamong', hnext'⟩ := h'.carried
  simp only [Spot.after] at hfs hamong' hnext'
  refine ⟨?_, ?_, ?_, es ++ fs, ?_, ?_, ?_⟩
  · rw [markers_append, List.map_append]
    exact h.nested.append h'.nested
  · exact List.forall_mem_append.mpr ⟨h.located, h'.located⟩
  · exact List.forall_mem_append.mpr ⟨h.decided, h'.decided⟩
  · rw [List.flatMap_append, hes, hfs, List.map_append]
  · have hlen : (nodes ++ others).length = nodes.length + others.length := List.length_append
    exact List.forall_mem_append.mpr
      ⟨fun e he => (hamong e he).mono (Nat.le_refl _) (by omega),
        fun e he => (hamong' e he).mono (Nat.le_add_right _ _) (by omega)⟩
  · -- the edits of either row leave the other one alone
    rw [editFrom_append, ← hnext, ← hnext']
    congr 1
    · refine editFrom_congr fun k hk => ?_
      rw [editsUnder_append, editsUnder_of_among hamong' (Or.inl (by omega)), List.append_nil]
    · refine editFrom_congr fun k hk => ?_
      rw [editsUnder_append, editsUnder_of_among hamong (Or.inr (by omega)), List.nil_append]

/-- **A plan for the children of an element is a plan for the element.** -/
lemma element {tag : StartTag} (htag : tag.name ≠ Word.paragraph) {children next : List Node}
    {rulings : List Ruling} (h : s.inside.Plan tree holds children next rulings) :
    s.Plan tree holds [.element tag children] [.element tag next] rulings := by
  obtain ⟨es, hes, hamong, hnext⟩ := h.carried
  obtain ⟨hcuts, hremove⟩ := nothing_here_of_among hamong
  refine ⟨?_, h.located, h.decided, es.map (.below [s.index]), ?_, ?_, ?_⟩
  · rw [markers_element s htag]
    exact h.nested
  · rw [hes, List.map_map]
    refine List.map_congr_left fun e _ => ?_
    cases e <;> simp [Edit.below, Spot.inside, Spot.here]
  · intro e he
    obtain ⟨e, -, rfl⟩ := List.mem_map.mp he
    refine ⟨s.index, e.place, ?_, Nat.le_refl _, by simp⟩
    cases e <;> rfl
  · rw [editFrom_cons, editsUnder_map_below, Node.editChild?, hremove, hcuts, edit_element, hcuts,
      ← hnext]
    rfl

end Spot.Plan

/-! ## From plans to passes -/

/-- The rulings of a pass on the outermost sections of a tree, for given truth values of the
conditions, and the tree that they leave. -/
structure Settles (tree : Node) (holds : Path → Bool) (rulings : List Ruling) (next : Node) :
    Prop where
  nested : Nested (markers (flatText tree)) (rulings.map Ruling.block)
  located : ∀ r ∈ rulings, r.block.Located tree
  decided : ∀ r ∈ rulings, r.holds = holds r.block.condition.path
  edited : tree.edit (rulings.flatMap (Ruling.edits tree)) = next

/-- A plan for the children of the root settles the tree. -/
lemma Spot.Plan.settles {tag : StartTag} {children next : List Node} {rulings : List Ruling}
    {holds : Path → Bool} (htag : tag.name ≠ Word.paragraph)
    (h : Spot.root.Plan (.element tag children) holds children next rulings) :
    Settles (.element tag children) holds rulings (.element tag next) := by
  obtain ⟨es, hes, hamong, hnext⟩ := h.carried
  have hbelow : es.map (Edit.below []) = es := by
    rw [List.map_congr_left (g := id) fun e _ => by cases e <;> rfl, List.map_id]
  rw [Spot.root, hbelow] at hes
  refine ⟨?_, h.located, h.decided, ?_⟩
  · rw [← Spot.markers_root htag]
    exact h.nested
  · rw [hes, edit_element, (nothing_here_of_among hamong).1, ← hnext]
    rfl

namespace Settles

variable {tree next : Node} {holds : Path → Bool} {rulings : List Ruling} {data : Value}

/-- **A pass does what the rulings say** if the conditions are as they say. -/
theorem resolvePass (h : Settles tree holds rulings next)
    (hdata : ∀ r ∈ rulings, isTruthy data r.block.condition.path
      = .ok (holds r.block.condition.path)) :
    resolvePass tree data = .ok (next, rulings.length) := by
  have hpair := pair_eq_ok_iff.mpr h.nested
  have hdecided : ∀ r ∈ rulings, isTruthy data r.block.condition.path = .ok r.holds :=
    fun r hr => by rw [h.decided r hr]; exact hdata r hr
  rw [FormLetter.resolvePass, ← h.edited]
  split
  · next hnone =>
      -- no markers, no rulings, no edits
      rw [List.isEmpty_iff.mp hnone] at hpair
      obtain rfl : rulings = [] := by simpa [pair, pairFrom] using hpair.symm
      rw [List.flatMap_nil, edit_nil]
      rfl
  · rw [hpair, mapError_ok, ok_bind, editsOfBlocks_of_located h.located hdecided, ok_bind,
      List.length_map]
    rfl

/-- **A pass reports a condition that cannot be evaluated.** -/
theorem resolvePass_error (h : Settles tree holds rulings next)
    (hdata : ∃ r ∈ rulings, ∃ reason, isTruthy data r.block.condition.path = .error reason) :
    ∃ r ∈ rulings, ∃ reason, isTruthy data r.block.condition.path = .error reason
      ∧ FormLetter.resolvePass tree data = .error (.ofReason r.block.condition reason) := by
  have hpair := pair_eq_ok_iff.mpr h.nested
  obtain ⟨r, hr, reason, hreason⟩ := hdata
  have hlocated : ∀ b ∈ rulings.map Ruling.block, b.Located tree :=
    List.forall_mem_map.mpr h.located
  obtain ⟨b, hb, why, hwhy, herror⟩ :=
    editsOfBlocks_error hlocated ⟨_, List.mem_map_of_mem hr, reason, hreason⟩
  obtain ⟨first, hfirst, rfl⟩ := List.mem_map.mp hb
  refine ⟨first, hfirst, why, hwhy, ?_⟩
  rw [FormLetter.resolvePass]
  split
  · next hnone =>
      rw [List.isEmpty_iff.mp hnone] at hpair
      obtain rfl : rulings = [] := by simpa [pair, pairFrom] using hpair.symm
      simp at hr
  · rw [hpair, mapError_ok, ok_bind, herror]
    rfl

end Settles

end FormLetter
