import Mathlib.Data.List.Basic
import FormLetter.Proofs.Passages
import FormLetter.Proofs.Sweeping

/-!
# What edits make of a tree

`Node.edit` hands each node the edits that lie at or below it.  Seen from the leaves this is much
simpler: a leaf goes if an edit removes it or a node above it, otherwise it loses the ranges that
are cut at its own place, and if that leaves it with nothing to show it goes after all.

* `Leaf.edited?` — the fate of one leaf.
* `Edit.Fits` — what makes edits reach leaves only: cuts go to paragraphs of the outline, and no
  removed node lies inside a leaf.  All edits of a pass are of this kind.
* `leaves_edit` — the leaves of the edited tree are what becomes of the leaves of the tree, in
  order.  The root is special: it is never dropped (`leaves_edit_paragraph`).
-/

namespace FormLetter

/-! ## Edits at a place -/

namespace Edit

/-- Whether the edit removes the node at the place or one above it. -/
def removes (place : Place) : Edit → Bool
  | .remove p => p.isPrefixOf place
  | .cut _ _ => false

/-- The range that the edit cuts from the node at the place. -/
def cutAt? (place : Place) : Edit → Option Range
  | .cut p range => if p = place then some range else none
  | .remove _ => none

end Edit

/-- Whether some edit removes the node at the place or one above it. -/
def removesAt (edits : List Edit) (place : Place) : Bool := edits.any (·.removes place)

/-- The ranges that edits cut from the node at the place. -/
def cutsAt (edits : List Edit) (place : Place) : List Range := edits.filterMap (·.cutAt? place)

lemma removesAt_eq_true {edits : List Edit} {place : Place} :
    removesAt edits place = true ↔ ∃ p, .remove p ∈ edits ∧ p <+: place := by
  rw [removesAt, List.any_eq_true]
  constructor
  · rintro ⟨edit, he, h⟩
    cases edit with
    | cut p range => simp [Edit.removes] at h
    | remove p => exact ⟨p, he, List.isPrefixOf_iff_prefix.mp h⟩
  · rintro ⟨p, he, h⟩
    exact ⟨.remove p, he, List.isPrefixOf_iff_prefix.mpr h⟩

lemma mem_cutsAt {edits : List Edit} {place : Place} {range : Range} :
    range ∈ cutsAt edits place ↔ .cut place range ∈ edits := by
  rw [cutsAt, List.mem_filterMap]
  constructor
  · rintro ⟨edit, he, h⟩
    cases edit with
    | remove p => simp [Edit.cutAt?] at h
    | cut p r =>
        simp only [Edit.cutAt?, Option.ite_none_right_eq_some, Option.some.injEq] at h
        obtain ⟨rfl, rfl⟩ := h
        exact he
  · intro he
    exact ⟨_, he, by simp [Edit.cutAt?]⟩

lemma removesHere_eq_true {edits : List Edit} :
    removesHere edits = true ↔ .remove [] ∈ edits := by
  rw [removesHere, List.contains_iff_mem]

lemma cutsAt_nil (edits : List Edit) : cutsAt edits [] = cutsHere edits := by
  refine List.filterMap_congr fun edit _ => ?_
  cases edit with
  | remove p => rfl
  | cut p range => cases p <;> rfl

lemma removesAt_nil (edits : List Edit) : removesAt edits [] = removesHere edits := by
  rw [Bool.eq_iff_iff, removesAt_eq_true, removesHere_eq_true]
  constructor
  · rintro ⟨p, he, hp⟩
    rwa [List.prefix_nil.mp hp] at he
  · intro he
    exact ⟨[], he, List.prefix_refl _⟩

/-- The edits below a child are those that lie under it. -/
lemma mem_editsUnder {edits : List Edit} {index : Nat} {edit : Edit} :
    edit ∈ editsUnder index edits ↔
      (∃ place range, edit = .cut place range ∧ .cut (index :: place) range ∈ edits)
        ∨ ∃ place, edit = .remove place ∧ .remove (index :: place) ∈ edits := by
  rw [editsUnder, List.mem_filterMap]
  constructor
  · rintro ⟨outer, he, h⟩
    unfold Edit.under? at h
    split at h
    · next i place range =>
        simp only [Option.ite_none_right_eq_some, Option.some.injEq] at h
        obtain ⟨rfl, rfl⟩ := h
        exact Or.inl ⟨place, range, rfl, he⟩
    · next i place =>
        simp only [Option.ite_none_right_eq_some, Option.some.injEq] at h
        obtain ⟨rfl, rfl⟩ := h
        exact Or.inr ⟨place, rfl, he⟩
    · simp at h
  · rintro (⟨place, range, rfl, he⟩ | ⟨place, rfl, he⟩)
    · exact ⟨_, he, by simp [Edit.under?]⟩
    · exact ⟨_, he, by simp [Edit.under?]⟩

lemma cutsAt_cons (edits : List Edit) (index : Nat) (place : Place) :
    cutsAt edits (index :: place) = cutsAt (editsUnder index edits) place := by
  rw [cutsAt, cutsAt, editsUnder, List.filterMap_filterMap]
  refine List.filterMap_congr fun edit _ => ?_
  cases edit with
  | remove p =>
      cases p with
      | nil => rfl
      | cons i p => by_cases h : i = index <;> simp [Edit.cutAt?, Edit.under?, h]
  | cut p range =>
      cases p with
      | nil => simp [Edit.cutAt?, Edit.under?]
      | cons i p => by_cases h : i = index <;> simp [Edit.cutAt?, Edit.under?, h]

lemma removesAt_cons {edits : List Edit} (h : .remove [] ∉ edits) (index : Nat) (place : Place) :
    removesAt edits (index :: place) = removesAt (editsUnder index edits) place := by
  rw [Bool.eq_iff_iff, removesAt_eq_true, removesAt_eq_true]
  constructor
  · rintro ⟨p, he, hp⟩
    cases p with
    | nil => exact absurd he h
    | cons i p =>
        obtain ⟨rfl, hbelow⟩ := List.cons_prefix_cons.mp hp
        exact ⟨p, mem_editsUnder.mpr (Or.inr ⟨p, rfl, he⟩), hbelow⟩
  · rintro ⟨p, he, hp⟩
    rcases mem_editsUnder.mp he with ⟨_, _, h, _⟩ | ⟨q, hq, he⟩
    · simp at h
    · obtain rfl : p = q := by simpa using hq
      exact ⟨index :: p, he, List.cons_prefix_cons.mpr ⟨rfl, hp⟩⟩

/-! ## Edits of children -/

/-- A child with the edits at and below it applied, unless it goes. -/
def Node.editChild? (edits : List Edit) (node : Node) : Option Node :=
  if removesHere edits then none
  else if !(cutsHere edits).isEmpty && showsNothing (node.edit edits) then none
  else some (node.edit edits)

lemma editFrom_cons (edits : List Edit) (index : Nat) (node : Node) (rest : List Node) :
    Node.editFrom edits index (node :: rest)
      = (node.editChild? (editsUnder index edits)).toList
        ++ Node.editFrom edits (index + 1) rest := by
  simp only [Node.editFrom, Node.editChild?]
  split
  · rfl
  · split <;> rfl

mutual

lemma edit_nil : ∀ node : Node, node.edit [] = node
  | .text _ => rfl
  | .element tag children => by
      rw [edit_element, if_pos (by rfl), editFrom_nil 0 children]

lemma editFrom_nil : ∀ (index : Nat) (nodes : List Node), Node.editFrom [] index nodes = nodes
  | _, [] => rfl
  | index, node :: rest => by
      have h : editsUnder index [] = [] := rfl
      rw [editFrom_cons, h, editFrom_nil (index + 1) rest, Node.editChild?, edit_nil node]
      rfl

end

/-- Edits that do not reach below a node leave its children alone. -/
lemma editFrom_of_nothing_under {edits : List Edit} (h : ∀ i, editsUnder i edits = [])
    (index : Nat) (nodes : List Node) : Node.editFrom edits index nodes = nodes := by
  induction nodes generalizing index with
  | nil => rfl
  | cons node rest ih =>
      rw [editFrom_cons, h index, ih, Node.editChild?, edit_nil]
      rfl

/-! ## The fate of a leaf -/

/-- What edits make of a leaf below the root: nothing if it is removed, or if it lost text and has
nothing to show any more. -/
def Leaf.edited? (edits : List Edit) (leaf : Leaf) : Option Node :=
  if removesAt edits leaf.place then none
  else
    let rest := leaf.node.cut (cutsAt edits leaf.place) 0
    if !(cutsAt edits leaf.place).isEmpty && showsNothing rest then none else some rest

lemma Leaf.edited?_under {edits : List Edit} (h : .remove [] ∉ edits) (index : Nat) (leaf : Leaf) :
    (leaf.under index).edited? edits = leaf.edited? (editsUnder index edits) := by
  simp only [Leaf.edited?, Leaf.under, cutsAt_cons, removesAt_cons h]

/-- A leaf of a row of siblings is a leaf of one of them. -/
lemma mem_leavesFrom {index : Nat} {nodes : List Node} {leaf : Leaf} :
    leaf ∈ Node.leavesFrom index nodes ↔
      ∃ (k : Nat) (node : Node) (inner : Leaf), nodes[k]? = some node ∧ inner ∈ node.leaves
        ∧ leaf = inner.under (index + k) := by
  induction nodes generalizing index with
  | nil => simp [Node.leavesFrom]
  | cons node rest ih =>
      rw [Node.leavesFrom, List.mem_append, List.mem_map, ih]
      constructor
      · rintro (⟨inner, hi, rfl⟩ | ⟨k, next, inner, hn, hi, rfl⟩)
        · exact ⟨0, node, inner, rfl, hi, rfl⟩
        · exact ⟨k + 1, next, inner, hn, hi, by rw [Nat.add_assoc, Nat.add_comm 1 k]⟩
      · rintro ⟨k, next, inner, hn, hi, rfl⟩
        cases k with
        | zero =>
            obtain rfl : node = next := by simpa using hn
            exact Or.inl ⟨inner, hi, rfl⟩
        | succ k =>
            exact Or.inr ⟨k, next, inner, by simpa using hn, hi, by
              rw [Nat.add_assoc, Nat.add_comm 1 k]⟩

/-- Edits that reach the leaves of a tree only: each cut goes to a paragraph among them, and no
removed node lies strictly below one. -/
structure Edit.Fits (edits : List Edit) (leaves : List Leaf) : Prop where
  cut : ∀ place range, .cut place range ∈ edits →
    ∃ leaf ∈ leaves, leaf.isParagraph = true ∧ leaf.place = place
  remove : ∀ place, .remove place ∈ edits →
    ∀ leaf ∈ leaves, leaf.place <+: place → leaf.place = place

/-- The edits of a child fit the child. -/
lemma Edit.Fits.under {edits : List Edit} {children : List Node}
    (h : Edit.Fits edits (Node.leavesFrom 0 children)) {k : Nat} {node : Node}
    (hk : children[k]? = some node) : Edit.Fits (editsUnder k edits) node.leaves := by
  constructor
  · intro place range he
    rcases mem_editsUnder.mp he with ⟨p, r, heq, he⟩ | ⟨_, heq, _⟩
    · obtain ⟨rfl, rfl⟩ : place = p ∧ range = r := by simpa using heq
      obtain ⟨leaf, hl, hpar, hplace⟩ := h.cut _ _ he
      obtain ⟨k', node', inner, hn, hi, rfl⟩ := mem_leavesFrom.mp hl
      simp only [Leaf.under, Nat.zero_add, List.cons.injEq] at hplace
      obtain ⟨rfl, hplace⟩ := hplace
      obtain rfl : node = node' := by simpa [hk] using hn
      exact ⟨inner, hi, hpar, hplace⟩
    · simp at heq
  · intro place he leaf hl hp
    rcases mem_editsUnder.mp he with ⟨_, _, heq, _⟩ | ⟨p, heq, he⟩
    · simp at heq
    · obtain rfl : place = p := by simpa using heq
      have hl' : leaf.under k ∈ Node.leavesFrom 0 children :=
        mem_leavesFrom.mpr ⟨k, node, leaf, hk, hl, by rw [Nat.zero_add]⟩
      have := h.remove _ he _ hl' (List.cons_prefix_cons.mpr ⟨rfl, hp⟩)
      simpa [Leaf.under] using this

lemma Node.leaves_text_place {value : Text} {leaf : Leaf} (h : leaf ∈ (Node.text value).leaves) :
    leaf = ⟨[], .text value⟩ := by
  rw [Node.leaves] at h
  split at h
  · simp at h
  · exact List.mem_singleton.mp h

/-- A place below the root is no leaf of a paragraph. -/
lemma editsUnder_of_paragraph {edits : List Edit} {node : Node}
    (h : Edit.Fits edits [⟨[], node⟩]) (i : Nat) : editsUnder i edits = [] := by
  refine List.eq_nil_iff_forall_not_mem.mpr fun edit he => ?_
  rcases mem_editsUnder.mp he with ⟨place, range, -, he⟩ | ⟨place, -, he⟩
  · obtain ⟨leaf, hl, -, hplace⟩ := h.cut _ _ he
    rw [List.mem_singleton.mp hl] at hplace
    simp at hplace
  · have := h.remove _ he _ (List.mem_singleton_self _) List.nil_prefix
    simp at this

/-- A paragraph with fitting edits applied is the paragraph without the ranges cut from it. -/
lemma edit_paragraph {edits : List Edit} {tag : StartTag} {children : List Node}
    (h : Edit.Fits edits [⟨[], .element tag children⟩]) :
    (Node.element tag children).edit edits
      = (Node.element tag children).cut (cutsAt edits []) 0 := by
  rw [edit_element, cutsAt_nil]
  split
  · next hc =>
      rw [editFrom_of_nothing_under (editsUnder_of_paragraph h), List.isEmpty_iff.mp hc, cut_nil]
  · rfl

/-- A leaf at the root is the whole tree. -/
lemma node_of_root_leaf {tree : Node} {leaf : Leaf} (h : leaf ∈ tree.leaves)
    (hroot : leaf.place = []) : leaf.node = tree := by
  cases tree with
  | text value => rw [Node.leaves_text_place h]
  | element tag children =>
      by_cases hp : (Node.element tag children).isNamed Word.paragraph = true
      · rw [leaves_of_paragraph hp] at h
        rw [List.mem_singleton.mp h]
      · rw [leaves_of_element hp] at h
        obtain ⟨k, rest, -, hk⟩ := (pairwise_leavesFrom 0 children).2 leaf h
        rw [hk] at hroot
        simp at hroot

/-- Edits that fit a node other than a paragraph cut nothing from the node itself. -/
lemma cutsHere_of_fits {edits : List Edit} {node : Node} (h : Edit.Fits edits node.leaves)
    (hp : node.isNamed Word.paragraph = false) : cutsHere edits = [] := by
  rw [← cutsAt_nil]
  refine List.eq_nil_iff_forall_not_mem.mpr fun range hr => ?_
  obtain ⟨leaf, hl, hpar, hplace⟩ := h.cut _ _ (mem_cutsAt.mp hr)
  rw [Leaf.isParagraph, node_of_root_leaf hl hplace, hp] at hpar
  exact Bool.noConfusion hpar

/-! ## The leaves of the edited tree -/

/-- A removed child takes its leaves with it. -/
lemma leaves_removed_child {edits : List Edit} {node : Node} (hr : removesHere edits = true) :
    ((node.editChild? edits).toList.flatMap Node.leaves).map Leaf.node
      = node.leaves.filterMap (Leaf.edited? edits) := by
  have hgone : ∀ leaf ∈ node.leaves, leaf.edited? edits = none := by
    intro leaf _
    rw [Leaf.edited?, if_pos]
    exact removesAt_eq_true.mpr ⟨[], removesHere_eq_true.mp hr, List.nil_prefix⟩
  rw [Node.editChild?, if_pos hr, List.filterMap_eq_nil_iff.mpr hgone]
  rfl

/-- A text that is not removed stays as it is. -/
lemma leaves_kept_text {edits : List Edit} {value : Text}
    (h : Edit.Fits edits (Node.text value).leaves) (hr : removesHere edits = false) :
    (((Node.text value).editChild? edits).toList.flatMap Node.leaves).map Leaf.node
      = (Node.text value).leaves.filterMap (Leaf.edited? edits) := by
  have hcuts : cutsHere edits = [] := cutsHere_of_fits h rfl
  have hkept : ∀ leaf ∈ (Node.text value).leaves, leaf.edited? edits = some leaf.node := by
    intro leaf hl
    rw [Node.leaves_text_place hl]
    simp [Leaf.edited?, removesAt_nil, hr, cutsAt_nil, hcuts, cut_nil]
  rw [Node.editChild?, if_neg (by simp [hr]), hcuts, List.filterMap_congr hkept]
  simp [Node.edit]

/-- A paragraph that is not removed loses what is cut from it, and goes if that leaves it with
nothing to show. -/
lemma leaves_kept_paragraph {edits : List Edit} {tag : StartTag} {children : List Node}
    (h : Edit.Fits edits (Node.element tag children).leaves)
    (hp : (Node.element tag children).isNamed Word.paragraph = true)
    (hr : removesHere edits = false) :
    (((Node.element tag children).editChild? edits).toList.flatMap Node.leaves).map Leaf.node
      = (Node.element tag children).leaves.filterMap (Leaf.edited? edits) := by
  rw [leaves_of_paragraph hp] at h ⊢
  have hnamed : ((Node.element tag children).cut (cutsAt edits []) 0).leaves
      = [⟨[], (Node.element tag children).cut (cutsAt edits []) 0⟩] :=
    leaves_of_paragraph (by rw [isNamed_cut]; exact hp)
  rw [Node.editChild?, if_neg (by simp [hr]), edit_paragraph h, ← cutsAt_nil]
  simp only [List.filterMap_cons, List.filterMap_nil, Leaf.edited?, removesAt_nil, hr]
  split
  · simp
  · simp [hnamed]

mutual

/-- What a child leaves behind: the leaves of the edited child are the fates of its leaves. -/
theorem leaves_editChild? : ∀ (node : Node) {edits : List Edit}, Edit.Fits edits node.leaves →
    ((node.editChild? edits).toList.flatMap Node.leaves).map Leaf.node
      = node.leaves.filterMap (Leaf.edited? edits)
  | .text value, edits, h => by
      cases hr : removesHere edits with
      | true => exact leaves_removed_child hr
      | false => exact leaves_kept_text h hr
  | .element tag children, edits, h => by
      cases hr : removesHere edits with
      | true => exact leaves_removed_child hr
      | false =>
          cases hp : (Node.element tag children).isNamed Word.paragraph with
          | true => exact leaves_kept_paragraph h hp hr
          | false =>
              -- the edits pass through the node to its children
              have hcuts : cutsHere edits = [] := cutsHere_of_fits h hp
              have hroot : Edit.remove [] ∉ edits := fun he => by
                rw [removesHere_eq_true.mpr he] at hr
                exact Bool.noConfusion hr
              have hedit : (Node.element tag children).edit edits
                  = .element tag (Node.editFrom edits 0 children) := by
                rw [edit_element, hcuts, if_pos (by rfl)]
              have helement : ∀ nodes, (Node.element tag nodes).leaves = Node.leavesFrom 0 nodes :=
                leaves_of_element (by rw [← Node.isNamed, hp]; simp)
              rw [helement] at h ⊢
              rw [Node.editChild?, if_neg (by simp [hr]), hcuts, if_neg (by simp), hedit,
                Option.toList_some, List.flatMap_singleton, helement]
              exact leaves_editFrom children 0 0 hroot fun k node hk => by
                rw [Nat.zero_add]
                exact h.under hk

theorem leaves_editFrom : ∀ (nodes : List Node) (index start : Nat) {edits : List Edit},
    .remove [] ∉ edits →
    (∀ k node, nodes[k]? = some node → Edit.Fits (editsUnder (index + k) edits) node.leaves) →
    (Node.leavesFrom start (Node.editFrom edits index nodes)).map Leaf.node
      = (Node.leavesFrom index nodes).filterMap (Leaf.edited? edits)
  | [], _, _, _, _, _ => rfl
  | node :: rest, index, start, edits, hroot, h => by
      have hfirst := leaves_editChild? node (h 0 node rfl)
      rw [Nat.add_zero] at hfirst
      have hrest := fun start => leaves_editFrom rest (index + 1) start hroot fun k next hk => by
        rw [Nat.add_assoc, Nat.add_comm 1 k]
        exact h (k + 1) next hk
      have hunder : ((node.leaves).map (Leaf.under index)).filterMap (Leaf.edited? edits)
          = node.leaves.filterMap (Leaf.edited? (editsUnder index edits)) := by
        rw [List.filterMap_map]
        exact List.filterMap_congr fun leaf _ => Leaf.edited?_under hroot index leaf
      rw [editFrom_cons, Node.leavesFrom, List.filterMap_append, hunder, ← hfirst]
      cases node.editChild? (editsUnder index edits) with
      | none => simpa using hrest start
      | some edited =>
          simp only [Option.toList_some, List.singleton_append, Node.leavesFrom, List.map_append,
            List.map_map, List.flatMap_singleton, hrest (start + 1)]
          rfl

end

/-- **The leaves of an edited tree** are the fates of its leaves, in order; the tree itself is not a
paragraph here. -/
theorem leaves_edit {tree : Node} {edits : List Edit} (hp : tree.isNamed Word.paragraph = false)
    (hroot : .remove [] ∉ edits) (h : Edit.Fits edits tree.leaves) :
    (tree.edit edits).leaves.map Leaf.node = tree.leaves.filterMap (Leaf.edited? edits) := by
  have hcuts : cutsHere edits = [] := cutsHere_of_fits h hp
  have hchild := leaves_editChild? tree h
  have hnot : ¬ removesHere edits = true := fun hr => hroot (removesHere_eq_true.mp hr)
  rw [Node.editChild?, if_neg hnot, hcuts, if_neg (by simp)] at hchild
  simpa using hchild

/-- A tree that is a paragraph stays, whatever is left of it. -/
theorem leaves_edit_paragraph {tree : Node} {edits : List Edit}
    (hp : tree.isNamed Word.paragraph = true) (h : Edit.Fits edits tree.leaves) :
    (tree.edit edits).leaves.map Leaf.node = [tree.cut (cutsAt edits []) 0] := by
  cases tree with
  | text value => simp [Node.isNamed] at hp
  | element tag children =>
      rw [leaves_of_paragraph hp] at h
      rw [edit_paragraph h, leaves_of_paragraph (by rw [isNamed_cut]; exact hp)]
      rfl

end FormLetter
