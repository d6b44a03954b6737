import Mathlib.Data.List.Pairwise
import FormLetter.Merge.Outline
import FormLetter.Proofs.Cutting
import FormLetter.Proofs.Reading

/-!
# The passages of a tree

`outline` lists the segments of a tree by place and text.  To say what becomes of a segment one
needs the node that it stands for as well, and where its text starts in the flat text.

* `Node.leaves` — the nodes behind the segments: outermost paragraphs and non-empty text nodes
  outside all paragraphs, with their places.  `outlineAt_eq` ties them to `outlineAt`.
* `passages` — the leaves with the positions at which they start; `segments_eq` ties them to
  `segments`.
* **Order.** `pairwise_passages` — places ascend in document order, none leads into another, and
  each passage starts after a separator behind the one before.
* **Tokens.** `tokens_flatText`, `markers_flatText` — the tokens of the flat text are those of the
  passages, each found in the text of its passage alone.
-/

namespace FormLetter

/-- The node at a place of a tree, if there is one. -/
def Node.at? (node : Node) : Place → Option Node
  | [] => some node
  | index :: rest => node.children[index]?.bind fun child => child.at? rest

/-- A node behind a segment of the flat text, with its place. -/
structure Leaf where
  place : Place
  node : Node

/-- The leaf as seen from the parent of a tree that is child `index`. -/
def Leaf.under (index : Nat) (leaf : Leaf) : Leaf := ⟨index :: leaf.place, leaf.node⟩

/-- Whether the leaf is a paragraph; if not, it is loose text. -/
def Leaf.isParagraph (leaf : Leaf) : Bool := leaf.node.isNamed Word.paragraph

mutual

/-- The nodes behind the segments of a tree, in document order. -/
def Node.leaves : Node → List Leaf
  | .text value => if value.isEmpty then [] else [⟨[], .text value⟩]
  | .element tag children =>
    if tag.name == Word.paragraph then [⟨[], .element tag children⟩]
    else Node.leavesFrom 0 children

/-- The nodes behind the segments of the children from position `index` on. -/
def Node.leavesFrom (index : Nat) : List Node → List Leaf
  | [] => []
  | node :: rest => (Node.leaves node).map (Leaf.under index) ++ Node.leavesFrom (index + 1) rest

end

/-! ## Leaves and the outline -/

/-- The segment of a leaf of the tree at the given place. -/
def Leaf.entry (base : Place) (leaf : Leaf) : OutlineEntry :=
  ⟨if leaf.isParagraph then some (base ++ leaf.place) else none, leaf.node.content⟩

lemma Leaf.entry_under (base : Place) (index : Nat) (leaf : Leaf) :
    (leaf.under index).entry base = leaf.entry (base ++ [index]) := by
  simp only [Leaf.entry, Leaf.under, List.append_assoc, List.singleton_append]
  rfl

mutual

/-- The segments of a tree are its leaves. -/
theorem outlineAt_eq : ∀ (base : Place) (node : Node),
    outlineAt base node = node.leaves.map (Leaf.entry base)
  | base, .text value => by
      rw [outlineAt, Node.leaves]
      split
      · rfl
      · simp [Leaf.entry, Leaf.isParagraph, Node.isNamed, content_text]
  | base, .element tag children => by
      rw [outlineAt, Node.leaves]
      split
      · next h => simp [Leaf.entry, Leaf.isParagraph, Node.isNamed, h]
      · exact outlineFrom_eq base 0 children

theorem outlineFrom_eq : ∀ (base : Place) (index : Nat) (nodes : List Node),
    outlineFrom base index nodes = (Node.leavesFrom index nodes).map (Leaf.entry base)
  | _, _, [] => rfl
  | base, index, node :: rest => by
      rw [outlineFrom, Node.leavesFrom, List.map_append, outlineAt_eq (base ++ [index]) node,
        outlineFrom_eq base (index + 1) rest, List.map_map]
      congr 1
      exact List.map_congr_left fun leaf _ => (Leaf.entry_under base index leaf).symm

end

lemma flatText_eq (tree : Node) :
    flatText tree = Text.joinWith ['\n'] (tree.leaves.map (·.node.content)) := by
  rw [flatText, outline, outlineAt_eq, List.map_map]
  rfl

lemma leaves_of_paragraph {node : Node} (h : node.isNamed Word.paragraph = true) :
    node.leaves = [⟨[], node⟩] := by
  cases node with
  | text value => simp [Node.isNamed] at h
  | element tag children => exact if_pos h

lemma leaves_of_element {tag : StartTag} (h : ¬ (tag.name == Word.paragraph) = true)
    (children : List Node) : (Node.element tag children).leaves = Node.leavesFrom 0 children :=
  if_neg h

/-- The texts of the leaves of a row of trees. -/
def leafTexts (nodes : List Node) : List Text :=
  nodes.flatMap fun node => node.leaves.map (·.node.content)

lemma leafTexts_cons (node : Node) (rest : List Node) :
    leafTexts (node :: rest) = leafTexts [node] ++ leafTexts rest := by
  simp [leafTexts]

lemma map_content_leavesFrom (index : Nat) (nodes : List Node) :
    (Node.leavesFrom index nodes).map (·.node.content) = leafTexts nodes := by
  induction nodes generalizing index with
  | nil => rfl
  | cons node rest ih =>
      rw [Node.leavesFrom, List.map_append, List.map_map, ih]
      rfl

lemma leafTexts_paragraph {node : Node} (h : node.isNamed Word.paragraph = true) :
    leafTexts [node] = [node.content] := by
  rw [leafTexts, List.flatMap_singleton, leaves_of_paragraph h]
  rfl

lemma leafTexts_element {tag : StartTag} (h : ¬ (tag.name == Word.paragraph) = true)
    (children : List Node) : leafTexts [.element tag children] = leafTexts children := by
  rw [leafTexts, List.flatMap_singleton, leaves_of_element h, map_content_leavesFrom]

/-! ## Texts of leaves -/

mutual

/-- Each leaf holds some of the texts of the tree. -/
theorem texts_of_mem_leaves : ∀ (node : Node) {leaf : Leaf}, leaf ∈ node.leaves →
    ∀ t ∈ leaf.node.texts, t ∈ node.texts
  | .text value, leaf, h, t, ht => by
      rw [Node.leaves] at h
      split at h
      · simp at h
      · rw [List.mem_singleton.mp h] at ht
        exact ht
  | .element tag children, leaf, h, t, ht => by
      rw [Node.leaves] at h
      split at h
      · rw [List.mem_singleton.mp h] at ht
        exact ht
      · exact texts_of_mem_leavesFrom children h t ht

theorem texts_of_mem_leavesFrom : ∀ (nodes : List Node) {index : Nat} {leaf : Leaf},
    leaf ∈ Node.leavesFrom index nodes → ∀ t ∈ leaf.node.texts, t ∈ Node.textsOf nodes
  | [], _, _, h, _, _ => by simp [Node.leavesFrom] at h
  | node :: rest, index, leaf, h, t, ht => by
      rw [Node.leavesFrom, List.mem_append, List.mem_map] at h
      rw [Node.textsOf, List.mem_append]
      rcases h with ⟨inner, hi, rfl⟩ | h
      · exact Or.inl (texts_of_mem_leaves node hi t ht)
      · exact Or.inr (texts_of_mem_leavesFrom rest h t ht)

end

mutual

/-- Each text of the tree that is not empty stands in a leaf. -/
theorem exists_leaf_of_mem_texts : ∀ (node : Node) {t : Text}, t ∈ node.texts → t ≠ [] →
    ∃ leaf ∈ node.leaves, t ∈ leaf.node.texts
  | .text value, t, h, hne => by
      rw [Node.texts, List.mem_singleton] at h
      subst h
      rw [Node.leaves, if_neg (by simpa using hne)]
      exact ⟨⟨[], .text t⟩, by simp, by simp [Node.texts]⟩
  | .element tag children, t, h, hne => by
      rw [Node.leaves]
      split
      · exact ⟨⟨[], .element tag children⟩, by simp, h⟩
      · exact exists_leaf_of_mem_textsOf children 0 h hne

theorem exists_leaf_of_mem_textsOf : ∀ (nodes : List Node) (index : Nat) {t : Text},
    t ∈ Node.textsOf nodes → t ≠ [] → ∃ leaf ∈ Node.leavesFrom index nodes, t ∈ leaf.node.texts
  | [], _, _, h, _ => by simp [Node.textsOf] at h
  | node :: rest, index, t, h, hne => by
      rw [Node.textsOf, List.mem_append] at h
      rw [Node.leavesFrom]
      rcases h with h | h
      · obtain ⟨leaf, hl, ht⟩ := exists_leaf_of_mem_texts node h hne
        exact ⟨leaf.under index, List.mem_append_left _ (List.mem_map_of_mem hl), ht⟩
      · obtain ⟨leaf, hl, ht⟩ := exists_leaf_of_mem_textsOf rest (index + 1) h hne
        exact ⟨leaf, List.mem_append_right _ hl, ht⟩

end

/-! ## Places in document order -/

/-- One place comes before another and does not lead into it: where the two part, the first turns
to an earlier child. -/
def Precedes : Place → Place → Prop
  | i :: s, j :: t => i < j ∨ i = j ∧ Precedes s t
  | _, _ => False

lemma not_precedes_append : ∀ (a s : Place), ¬ Precedes a (a ++ s)
  | [], _ => by simp [Precedes]
  | i :: a, s => by
      rintro (h | ⟨-, h⟩)
      · exact Nat.lt_irrefl i h
      · exact not_precedes_append a s h

lemma not_append_precedes : ∀ (a s : Place), ¬ Precedes (a ++ s) a
  | [], _ => by simp [Precedes]
  | i :: a, s => by
      rintro (h | ⟨-, h⟩)
      · exact Nat.lt_irrefl i h
      · exact not_append_precedes a s h

/-- Document order goes one way. -/
lemma Precedes.asymm : ∀ {a b : Place}, Precedes a b → ¬ Precedes b a
  | i :: a, j :: b => by
      rintro (hij | ⟨rfl, hab⟩) (hji | ⟨heq, hba⟩)
      · omega
      · omega
      · omega
      · exact Precedes.asymm hab hba
  | [], _ => by simp [Precedes]
  | _ :: _, [] => by simp [Precedes]

/-- A place does not lead into one that it precedes or that precedes it. -/
lemma not_prefix_of_precedes {a b : Place} (h : Precedes a b ∨ Precedes b a) : ¬ a <+: b := by
  rintro ⟨s, rfl⟩
  exact h.elim (not_precedes_append a s) (not_append_precedes a s)

/-- Children of one parent stand in the order of their positions. -/
lemma precedes_siblings : ∀ (parent : Place) (i j : Nat),
    Precedes (parent ++ [i]) (parent ++ [j]) ↔ i < j
  | [], i, j => by simp [Precedes]
  | p :: parent, i, j => by simp [Precedes, precedes_siblings parent i j]

/-- **What comes between siblings.**  A place in document order between two children of one parent
lies at or below a child strictly between them. -/
theorem Precedes.between : ∀ {parent place : Place} {i j : Nat},
    Precedes (parent ++ [i]) place → Precedes place (parent ++ [j]) →
      ∃ k rest, i < k ∧ k < j ∧ place = parent ++ k :: rest
  | [], [], i, j, hi, _ => by simp [Precedes] at hi
  | [], k :: rest, i, j, hi, hj => by
      simp only [List.nil_append, Precedes, and_false, or_false] at hi
      have hj : k < j := by simpa [Precedes] using hj
      exact ⟨k, rest, hi, hj, rfl⟩
  | p :: parent, [], i, j, hi, _ => by simp [Precedes] at hi
  | p :: parent, q :: place, i, j, hi, hj => by
      simp only [List.cons_append, Precedes] at hi hj
      have hpq : p = q := by omega
      subst hpq
      obtain ⟨k, rest, hik, hkj, rfl⟩ := @Precedes.between parent place i j
        (by simpa using hi) (by simpa using hj)
      exact ⟨k, rest, hik, hkj, rfl⟩

/-- What lies at or below a child strictly between two siblings is between them in order. -/
lemma precedes_of_between : ∀ (parent rest : Place) {i k j : Nat}, i < k → k < j →
    Precedes (parent ++ [i]) (parent ++ k :: rest) ∧ Precedes (parent ++ k :: rest) (parent ++ [j])
  | [], rest, i, k, j, hik, hkj => by simp [Precedes, hik, hkj]
  | p :: parent, rest, i, k, j, hik, hkj => by
      simpa [Precedes] using precedes_of_between parent rest hik hkj

mutual

/-- Leaves stand in document order. -/
theorem pairwise_leaves : ∀ node : Node,
    node.leaves.Pairwise fun a b => Precedes a.place b.place
  | .text value => by
      rw [Node.leaves]
      split
      · exact List.Pairwise.nil
      · exact List.pairwise_singleton _ _
  | .element tag children => by
      rw [Node.leaves]
      split
      · exact List.pairwise_singleton _ _
      · exact (pairwise_leavesFrom 0 children).1

theorem pairwise_leavesFrom : ∀ (index : Nat) (nodes : List Node),
    ((Node.leavesFrom index nodes).Pairwise fun a b => Precedes a.place b.place)
      ∧ ∀ leaf ∈ Node.leavesFrom index nodes, ∃ k rest, index ≤ k ∧ leaf.place = k :: rest
  | _, [] => by simp [Node.leavesFrom]
  | index, node :: rest => by
      obtain ⟨hpair, hplace⟩ := pairwise_leavesFrom (index + 1) rest
      rw [Node.leavesFrom]
      refine ⟨List.pairwise_append.mpr ⟨?_, hpair, ?_⟩, ?_⟩
      · refine (pairwise_leaves node).map _ fun a b hab => ?_
        exact Or.inr ⟨rfl, hab⟩
      · intro a ha b hb
        obtain ⟨inner, -, rfl⟩ := List.mem_map.mp ha
        obtain ⟨k, below, hk, hb⟩ := hplace b hb
        rw [hb]
        exact Or.inl hk
      · intro leaf h
        rcases List.mem_append.mp h with h | h
        · obtain ⟨inner, -, rfl⟩ := List.mem_map.mp h
          exact ⟨index, inner.place, Nat.le_refl _, rfl⟩
        · obtain ⟨k, below, hk, h⟩ := hplace leaf h
          exact ⟨k, below, Nat.le_of_succ_le hk, h⟩

end

/-! ## Passages -/

/-- A leaf with the position at which its text starts in the flat text. -/
structure Passage extends Leaf where
  start : Nat

namespace Passage

/-- The position just after the text of the passage. -/
def stop (p : Passage) : Nat := p.start + p.node.content.length

/-- The passage as a segment of the flat text. -/
def segment (p : Passage) : Segment :=
  ⟨if p.isParagraph then some p.place else none, p.start, p.stop⟩

end Passage

/-- The leaves with their positions, when the first of them starts at `start`. -/
def passagesFrom (start : Nat) : List Leaf → List Passage
  | [] => []
  | leaf :: rest => ⟨leaf, start⟩ :: passagesFrom (start + leaf.node.content.length + 1) rest

/-- The passages of a tree: its leaves with their positions in its flat text. -/
def passages (tree : Node) : List Passage := passagesFrom 0 tree.leaves

lemma segmentsFrom_eq (base : Place) (start : Nat) (leaves : List Leaf) :
    segmentsFrom start (leaves.map (Leaf.entry base))
      = (passagesFrom start leaves).map fun p =>
        ⟨if p.isParagraph then some (base ++ p.place) else none, p.start, p.stop⟩ := by
  induction leaves generalizing start with
  | nil => rfl
  | cons leaf rest ih =>
      simp only [List.map_cons, segmentsFrom, passagesFrom, Leaf.entry]
      rw [ih]
      rfl

theorem segments_eq (tree : Node) : segments tree = (passages tree).map Passage.segment := by
  rw [segments, outline, outlineAt_eq, segmentsFrom_eq]
  rfl

lemma map_toLeaf_passagesFrom (start : Nat) (leaves : List Leaf) :
    (passagesFrom start leaves).map Passage.toLeaf = leaves := by
  induction leaves generalizing start with
  | nil => rfl
  | cons leaf rest ih => rw [passagesFrom, List.map_cons, ih]

lemma map_toLeaf_passages (tree : Node) : (passages tree).map Passage.toLeaf = tree.leaves :=
  map_toLeaf_passagesFrom 0 tree.leaves

lemma mem_leaves_iff {tree : Node} {leaf : Leaf} :
    leaf ∈ tree.leaves ↔ ∃ p ∈ passages tree, p.toLeaf = leaf := by
  rw [← map_toLeaf_passages, List.mem_map]

lemma texts_of_mem_passages {tree : Node} {p : Passage} (hp : p ∈ passages tree) :
    ∀ t ∈ p.node.texts, t ∈ tree.texts :=
  texts_of_mem_leaves tree (mem_leaves_iff.mpr ⟨p, hp, rfl⟩)

/-- Each text that is not empty stands in a passage. -/
lemma exists_passage_of_mem_texts {tree : Node} {t : Text} (h : t ∈ tree.texts) (hne : t ≠ []) :
    ∃ p ∈ passages tree, t ∈ p.node.texts := by
  obtain ⟨leaf, hleaf, ht⟩ := exists_leaf_of_mem_texts tree h hne
  obtain ⟨p, hp, rfl⟩ := mem_leaves_iff.mp hleaf
  exact ⟨p, hp, ht⟩

lemma le_start_of_mem_passagesFrom {start : Nat} {leaves : List Leaf} {p : Passage}
    (h : p ∈ passagesFrom start leaves) : start ≤ p.start := by
  induction leaves generalizing start with
  | nil => simp [passagesFrom] at h
  | cons leaf rest ih =>
      rcases List.mem_cons.mp h with rfl | h
      · exact Nat.le_refl _
      · have := ih h
        omega

lemma pairwise_passagesFrom {leaves : List Leaf}
    (h : leaves.Pairwise fun a b => Precedes a.place b.place) (start : Nat) :
    (passagesFrom start leaves).Pairwise fun p q =>
      p.stop < q.start ∧ Precedes p.place q.place := by
  induction leaves generalizing start with
  | nil => exact List.Pairwise.nil
  | cons leaf rest ih =>
      obtain ⟨hhead, htail⟩ := List.pairwise_cons.mp h
      refine List.pairwise_cons.mpr ⟨fun q hq => ⟨?_, ?_⟩, ih htail _⟩
      · have := le_start_of_mem_passagesFrom hq
        simp only [Passage.stop]
        omega
      · refine hhead _ ?_
        rw [← map_toLeaf_passagesFrom (start + leaf.node.content.length + 1) rest]
        exact List.mem_map_of_mem hq

/-- **Passages stand in document order,** with at least a separator between neighbours. -/
theorem pairwise_passages (tree : Node) :
    (passages tree).Pairwise fun p q => p.stop < q.start ∧ Precedes p.place q.place :=
  pairwise_passagesFrom (pairwise_leaves tree) 0

/-- Of two members of an ordered list, either they are one or one comes before the other. -/
lemma pairwise_cases {α : Type} {R : α → α → Prop} {l : List α} (h : l.Pairwise R) {a b : α}
    (ha : a ∈ l) (hb : b ∈ l) : a = b ∨ R a b ∨ R b a := by
  have : Std.Symm fun x y => R x y ∨ R y x := ⟨fun _ _ => Or.symm⟩
  have hall : l.Pairwise fun x y => R x y ∨ R y x := h.imp Or.inl
  by_cases hab : a = b
  · exact Or.inl hab
  · exact Or.inr (hall.forall ha hb hab)

lemma passages_cases {tree : Node} {p q : Passage} (hp : p ∈ passages tree)
    (hq : q ∈ passages tree) :
    p = q ∨ (p.stop < q.start ∧ Precedes p.place q.place)
      ∨ (q.stop < p.start ∧ Precedes q.place p.place) :=
  pairwise_cases (pairwise_passages tree) hp hq

/-- A passage whose place leads to that of another is that other. -/
lemma eq_of_place_leads {tree : Node} {p q : Passage} (hp : p ∈ passages tree)
    (hq : q ∈ passages tree) (h : p.place <+: q.place) : p = q := by
  rcases passages_cases hp hq with hpq | ⟨-, hpq⟩ | ⟨-, hpq⟩
  · exact hpq
  · exact absurd h (not_prefix_of_precedes (Or.inl hpq))
  · exact absurd h (not_prefix_of_precedes (Or.inr hpq))

/-- A passage whose place comes first has its text first. -/
lemma stop_lt_start_of_precedes {tree : Node} {p q : Passage} (hp : p ∈ passages tree)
    (hq : q ∈ passages tree) (h : Precedes p.place q.place) : p.stop < q.start := by
  rcases passages_cases hp hq with heq | ⟨hlt, -⟩ | ⟨-, hback⟩
  · rw [heq] at h
    exact absurd h h.asymm
  · exact hlt
  · exact absurd hback h.asymm

/-! ## Tokens of passages -/

lemma tokensFrom_joinWith (start : Nat) (leaves : List Leaf) :
    tokensFrom start (pieces (Text.joinWith ['\n'] (leaves.map (·.node.content))))
      = (passagesFrom start leaves).flatMap fun p =>
          tokensFrom p.start (pieces p.node.content) := by
  induction leaves generalizing start with
  | nil => rfl
  | cons leaf rest ih =>
      cases rest with
      | nil => simp [Text.joinWith, passagesFrom]
      | cons next others =>
          have hne : (next :: others).map (·.node.content) ≠ [] := by simp
          rw [List.map_cons, Text.joinWith_cons _ _ hne, List.append_assoc, List.singleton_append,
            pieces_append_lineEnd, tokensFrom_append, spelledLength_pieces]
          exact congrArg _ (ih _)

/-- **Each token of the flat text is a token of one passage,** read on its own. -/
theorem tokens_flatText (tree : Node) :
    tokens (flatText tree)
      = (passages tree).flatMap fun p => tokensFrom p.start (pieces p.node.content) := by
  rw [tokens, flatText_eq, tokensFrom_joinWith]
  rfl

/-- Each marker of the flat text is a marker of one passage. -/
theorem markers_flatText (tree : Node) :
    markers (flatText tree)
      = (passages tree).flatMap fun p => markersFrom p.start p.node.content := by
  rw [markers, tokens_flatText, List.filterMap_flatMap]
  rfl

end FormLetter
