import Mathlib.Tactic.Common
import FormLetter.Merge.Edits

/-!
# Cutting text out of a tree

`Node.cut` says what it means to take some positions out of the text of a tree: a character stays if
no range covers its position.  In which order the ranges come, whether they touch, overlap or reach
beyond the text does not matter.  Three facts make it easy to live with, and no later proof opens it
again.

* **The text is cut like any text.** `content_cut` — the text of the cut tree is `keepOutside` of
  the text of the tree; `keepOutside_eq_filter` says which characters that is.
* **Nothing else changes.** `tags_cut` — elements and attributes are those of the tree.
* **Only coverage counts.** `cut_congr` — two lists of ranges that cover the same of the tree's
  positions cut the same, whatever the numbers at which the positions start.
-/

namespace FormLetter

open Node

/-- Whether a position lies in the range. -/
def Range.covers (range : Range) (position : Nat) : Bool :=
  range.low ≤ position && position < range.high

/-- The characters that lie outside all ranges, when the first one stands at `offset`. -/
def keepOutside (ranges : List Range) (offset : Nat) : Text → Text
  | [] => []
  | c :: rest =>
    if ranges.any (·.covers offset) then keepOutside ranges (offset + 1) rest
    else c :: keepOutside ranges (offset + 1) rest

mutual

/-- The tree without the characters in the ranges, when its first character stands at `offset`. -/
def Node.cut (ranges : List Range) (offset : Nat) : Node → Node
  | .text value => .text (keepOutside ranges offset value)
  | .element tag children => .element tag (Node.cutAll ranges offset children)

/-- Neighbouring trees without the characters in the ranges. -/
def Node.cutAll (ranges : List Range) (offset : Nat) : List Node → List Node
  | [] => []
  | node :: rest =>
    Node.cut ranges offset node :: Node.cutAll ranges (offset + node.content.length) rest

end

/-- Whether a position lies in one of the ranges. -/
def covered (ranges : List Range) (position : Nat) : Bool := ranges.any (·.covers position)

lemma covered_append (rs ss : List Range) (position : Nat) :
    covered (rs ++ ss) position = (covered rs position || covered ss position) := by
  simp [covered]

lemma covered_eq_true {ranges : List Range} {position : Nat} :
    covered ranges position = true ↔ ∃ r ∈ ranges, r.low ≤ position ∧ position < r.high := by
  simp [covered, Range.covers]

/-! ## Texts and contents -/

lemma content_text (value : Text) : (Node.text value).content = value := by
  simp [content, texts]

lemma content_element (tag : StartTag) (children : List Node) :
    (Node.element tag children).content = contentOf children := by
  simp [content, texts, contentOf]

@[simp] lemma contentOf_nil : contentOf [] = [] := rfl

@[simp] lemma contentOf_cons (node : Node) (rest : List Node) :
    contentOf (node :: rest) = node.content ++ contentOf rest := by
  simp [contentOf, textsOf, content]

lemma textsOf_eq_flatMap : ∀ nodes : List Node, textsOf nodes = nodes.flatMap texts
  | [] => rfl
  | node :: rest => by rw [textsOf, textsOf_eq_flatMap rest, List.flatMap_cons]

lemma tagsOf_eq_flatMap : ∀ nodes : List Node, tagsOf nodes = nodes.flatMap tags
  | [] => rfl
  | node :: rest => by rw [tagsOf, tagsOf_eq_flatMap rest, List.flatMap_cons]

/-- The tree with all its text deleted: its elements and the places of its text nodes. -/
def Node.skeleton (node : Node) : Node := node.mapText fun _ => []

/-! ## Cutting a text -/

/-- What is kept of a text: the characters whose positions no range covers. -/
theorem keepOutside_eq_filter (ranges : List Range) (offset : Nat) (t : Text) :
    keepOutside ranges offset t
      = ((t.zipIdx offset).filter fun entry => !covered ranges entry.2).map Prod.fst := by
  induction t generalizing offset with
  | nil => rfl
  | cons c rest ih =>
      rw [keepOutside, ih, List.zipIdx_cons, List.filter_cons]
      by_cases hc : covered ranges offset = true
      · rw [if_pos (by exact hc), if_neg (by simp [hc])]
      · rw [if_neg (by exact hc), if_pos (by simp [hc]), List.map_cons]

lemma keepOutside_append (ranges : List Range) (offset : Nat) (t u : Text) :
    keepOutside ranges offset (t ++ u)
      = keepOutside ranges offset t ++ keepOutside ranges (offset + t.length) u := by
  simp [keepOutside_eq_filter, List.zipIdx_append]

lemma keepOutside_congr {rs ss : List Range} {i j : Nat} {t : Text}
    (h : ∀ k < t.length, covered rs (i + k) = covered ss (j + k)) :
    keepOutside rs i t = keepOutside ss j t := by
  induction t generalizing i j with
  | nil => rfl
  | cons c rest ih =>
      have h0 := h 0 (Nat.zero_lt_succ _)
      have ih := ih (i := i + 1) (j := j + 1) fun k hk => by
        have := h (k + 1) (Nat.succ_lt_succ hk)
        simpa [Nat.add_assoc, Nat.add_comm 1 k] using this
      simp only [covered, Nat.add_zero] at h0
      rw [keepOutside, keepOutside, h0, ih]

lemma keepOutside_of_uncovered {ranges : List Range} {offset : Nat} {t : Text}
    (h : ∀ k < t.length, covered ranges (offset + k) = false) :
    keepOutside ranges offset t = t := by
  induction t generalizing offset with
  | nil => rfl
  | cons c rest ih =>
      have h0 := h 0 (Nat.zero_lt_succ _)
      have ih := @ih (offset + 1) fun k hk => by
        have := h (k + 1) (Nat.succ_lt_succ hk)
        simpa [Nat.add_assoc, Nat.add_comm 1 k] using this
      simp only [covered, Nat.add_zero] at h0
      rw [keepOutside, if_neg (by simp [h0]), ih]

lemma keepOutside_of_covered {ranges : List Range} {offset : Nat} {t : Text}
    (h : ∀ k < t.length, covered ranges (offset + k) = true) :
    keepOutside ranges offset t = [] := by
  rw [keepOutside_eq_filter, List.map_eq_nil_iff, List.filter_eq_nil_iff]
  rintro ⟨c, position⟩ hmem
  obtain ⟨hlow, hhigh, -⟩ := List.mem_zipIdx hmem
  have := h (position - offset) (by omega)
  rw [Nat.add_sub_cancel' hlow] at this
  simp [this]

lemma length_keepOutside_le (ranges : List Range) (offset : Nat) (t : Text) :
    (keepOutside ranges offset t).length ≤ t.length := by
  rw [keepOutside_eq_filter, List.length_map]
  exact Nat.le_trans (List.length_filter_le _ _) (Nat.le_of_eq List.length_zipIdx)

/-- A text of which something is covered gets shorter. -/
lemma length_keepOutside_lt {ranges : List Range} {offset k : Nat} {t : Text} (hk : k < t.length)
    (hc : covered ranges (offset + k) = true) :
    (keepOutside ranges offset t).length < t.length := by
  induction t generalizing offset k with
  | nil => simp at hk
  | cons c rest ih =>
      have hle := length_keepOutside_le ranges (offset + 1) rest
      by_cases h0 : covered ranges offset = true
      · rw [keepOutside, if_pos (by exact h0), List.length_cons]
        omega
      · cases k with
        | zero => exact absurd hc h0
        | succ k =>
            have := @ih (offset + 1) k (Nat.lt_of_succ_lt_succ hk)
              (by simpa [Nat.add_assoc, Nat.add_comm 1 k] using hc)
            rw [keepOutside, if_neg (by exact h0), List.length_cons, List.length_cons]
            omega

/-! ## Cutting a tree -/

mutual

/-- **The text of a cut tree is the cut text of the tree.** -/
theorem content_cut (ranges : List Range) : ∀ (offset : Nat) (node : Node),
    (node.cut ranges offset).content = keepOutside ranges offset node.content
  | offset, .text value => by rw [Node.cut, content_text, content_text]
  | offset, .element tag children => by
      rw [Node.cut, content_element, content_element, contentOf_cutAll ranges offset children]

theorem contentOf_cutAll (ranges : List Range) : ∀ (offset : Nat) (nodes : List Node),
    contentOf (Node.cutAll ranges offset nodes) = keepOutside ranges offset (contentOf nodes)
  | _, [] => rfl
  | offset, node :: rest => by
      rw [Node.cutAll, contentOf_cons, contentOf_cons, keepOutside_append,
        content_cut ranges offset node, contentOf_cutAll ranges _ rest]

end

mutual

/-- Cutting keeps all elements with their attributes. -/
theorem tags_cut (ranges : List Range) : ∀ (offset : Nat) (node : Node),
    (node.cut ranges offset).tags = node.tags
  | _, .text _ => rfl
  | offset, .element tag children => by
      rw [Node.cut, tags, tags, tagsOf_cutAll ranges offset children]

theorem tagsOf_cutAll (ranges : List Range) : ∀ (offset : Nat) (nodes : List Node),
    tagsOf (Node.cutAll ranges offset nodes) = tagsOf nodes
  | _, [] => rfl
  | offset, node :: rest => by
      rw [Node.cutAll, tagsOf, tagsOf, tags_cut ranges offset node, tagsOf_cutAll ranges _ rest]

end

mutual

/-- **Only coverage counts.** -/
theorem cut_congr {rs ss : List Range} : ∀ {i j : Nat} (node : Node),
    (∀ k < node.content.length, covered rs (i + k) = covered ss (j + k)) →
      node.cut rs i = node.cut ss j
  | i, j, .text value, h => by
      rw [Node.cut, Node.cut, keepOutside_congr (by rwa [content_text] at h)]
  | i, j, .element tag children, h => by
      rw [Node.cut, Node.cut, cutAll_congr children (by rwa [content_element] at h)]

theorem cutAll_congr {rs ss : List Range} : ∀ {i j : Nat} (nodes : List Node),
    (∀ k < (contentOf nodes).length, covered rs (i + k) = covered ss (j + k)) →
      Node.cutAll rs i nodes = Node.cutAll ss j nodes
  | _, _, [], _ => rfl
  | i, j, node :: rest, h => by
      rw [contentOf_cons, List.length_append] at h
      have hnode := cut_congr (i := i) (j := j) node fun k hk => h k (by omega)
      have hrest := cutAll_congr (i := i + node.content.length) (j := j + node.content.length) rest
        fun k hk => by
          have := h (node.content.length + k) (by omega)
          rwa [← Nat.add_assoc, ← Nat.add_assoc] at this
      rw [Node.cutAll, Node.cutAll, hnode, hrest]

end

mutual

lemma cut_nil : ∀ (offset : Nat) (node : Node), node.cut [] offset = node
  | offset, .text value => by
      rw [Node.cut, keepOutside_of_uncovered (by simp [covered])]
  | offset, .element tag children => by rw [Node.cut, cutAll_nil offset children]

lemma cutAll_nil : ∀ (offset : Nat) (nodes : List Node), Node.cutAll [] offset nodes = nodes
  | _, [] => rfl
  | offset, node :: rest => by rw [Node.cutAll, cut_nil offset node, cutAll_nil _ rest]

end

lemma isNamed_cut (name : String) (ranges : List Range) (offset : Nat) (node : Node) :
    (node.cut ranges offset).isNamed name = node.isNamed name := by
  cases node <;> rfl

end FormLetter
