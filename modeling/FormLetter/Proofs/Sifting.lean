import Mathlib.Data.List.Basic
import FormLetter.Proofs.Cutting

/-!
# Keeping marked characters

A paragraph may be cut in several passes, each with positions of its own.  To say what becomes of
it in the end, it is easier to mark once and for all which of its characters stay.

* `Node.sift` — the tree with its marked characters only, text node by text node; elements and text
  nodes stay where they are (`tags_sift`), and the text is that of the marks (`content_sift`).
* **Cutting is sifting.** `cut_eq_sift` — the marks of a cut are those of the positions that no
  range covers, `uncovered`.
* **Sifting composes.** `sift_sift` — marks for what is left after a sifting, thinned out into the
  marks of that sifting, do both at once.
-/

namespace FormLetter

open Node

/-! ## Marks of a text -/

/-- The characters of a text that are marked; those without a mark go. -/
def siftText : List Bool → Text → Text
  | true :: marks, c :: rest => c :: siftText marks rest
  | false :: marks, _ :: rest => siftText marks rest
  | _, _ => []

@[simp] lemma siftText_nil (marks : List Bool) : siftText marks [] = [] := by
  cases marks with
  | nil => rfl
  | cons mark marks => cases mark <;> rfl

lemma siftText_append : ∀ (marks : List Bool) (t u : Text),
    siftText marks (t ++ u) = siftText marks t ++ siftText (marks.drop t.length) u
  | marks, [], u => by simp
  | [], c :: rest, u => by simp [siftText]
  | true :: marks, c :: rest, u => by simp [siftText, siftText_append marks rest u]
  | false :: marks, c :: rest, u => by simp [siftText, siftText_append marks rest u]

lemma siftText_marks_append {marks others : List Bool} {t : Text} (h : marks.length = t.length) :
    siftText (marks ++ others) t = siftText marks t := by
  induction t generalizing marks with
  | nil => simp
  | cons c rest ih =>
      cases marks with
      | nil => simp at h
      | cons mark marks =>
          have ih := ih (Nat.succ.inj h)
          cases mark <;> simp [siftText, ih]

/-- Marks of two texts, one behind the other. -/
lemma siftText_append_append {marks others : List Bool} {t : Text} (h : marks.length = t.length)
    (u : Text) : siftText (marks ++ others) (t ++ u) = siftText marks t ++ siftText others u := by
  rw [siftText_append, siftText_marks_append h, ← h, List.drop_left]

lemma siftText_replicate_true (t : Text) : siftText (List.replicate t.length true) t = t := by
  induction t with
  | nil => rfl
  | cons c rest ih => simpa [List.replicate_succ, siftText] using ih

lemma siftText_replicate_false (n : Nat) (t : Text) :
    siftText (List.replicate n false) t = [] := by
  induction t generalizing n with
  | nil => simp
  | cons c rest ih =>
      cases n with
      | zero => rfl
      | succ n => simpa [List.replicate_succ, siftText] using ih n

/-! ## Marks of a tree -/

mutual

/-- The tree with only those characters that are marked. -/
def Node.sift (marks : List Bool) : Node → Node
  | .text value => .text (siftText marks value)
  | .element tag children => .element tag (Node.siftAll marks children)

/-- Neighbouring trees with only those characters that are marked. -/
def Node.siftAll (marks : List Bool) : List Node → List Node
  | [] => []
  | node :: rest => Node.sift marks node :: Node.siftAll (marks.drop node.content.length) rest

end

mutual

/-- **The text of a sifted tree is made of the marked characters.** -/
theorem content_sift : ∀ (marks : List Bool) (node : Node),
    (node.sift marks).content = siftText marks node.content
  | marks, .text value => by rw [Node.sift, content_text, content_text]
  | marks, .element tag children => by
      rw [Node.sift, content_element, content_element, contentOf_siftAll marks children]

theorem contentOf_siftAll : ∀ (marks : List Bool) (nodes : List Node),
    contentOf (Node.siftAll marks nodes) = siftText marks (contentOf nodes)
  | marks, [] => by simp [Node.siftAll]
  | marks, node :: rest => by
      rw [Node.siftAll, contentOf_cons, contentOf_cons, siftText_append, content_sift marks node,
        contentOf_siftAll _ rest]

end

mutual

/-- Sifting keeps all elements with their attributes. -/
theorem tags_sift : ∀ (marks : List Bool) (node : Node), (node.sift marks).tags = node.tags
  | _, .text _ => rfl
  | marks, .element tag children => by
      rw [Node.sift, tags, tags, tagsOf_siftAll marks children]

theorem tagsOf_siftAll : ∀ (marks : List Bool) (nodes : List Node),
    tagsOf (Node.siftAll marks nodes) = tagsOf nodes
  | _, [] => rfl
  | marks, node :: rest => by
      rw [Node.siftAll, tagsOf, tagsOf, tags_sift marks node, tagsOf_siftAll _ rest]

end

lemma isNamed_sift (name : String) (marks : List Bool) (node : Node) :
    (node.sift marks).isNamed name = node.isNamed name := by
  cases node <;> rfl

mutual

/-- Where everything is marked, nothing changes. -/
theorem sift_eq_self : ∀ {marks : List Bool} (node : Node),
    node.content.length ≤ marks.length → (∀ mark ∈ marks, mark = true) → node.sift marks = node
  | marks, .text value, hlen, h => by
      rw [content_text] at hlen
      have hmarks : marks = List.replicate value.length true
          ++ List.replicate (marks.length - value.length) true := by
        rw [← List.replicate_add, Nat.add_sub_cancel' hlen, ← List.eq_replicate_iff.mpr ⟨rfl, h⟩]
      rw [Node.sift, hmarks, siftText_marks_append (by simp), siftText_replicate_true]
  | marks, .element tag children, hlen, h => by
      rw [Node.sift, siftAll_eq_self children (by rwa [content_element] at hlen) h]

theorem siftAll_eq_self : ∀ {marks : List Bool} (nodes : List Node),
    (contentOf nodes).length ≤ marks.length → (∀ mark ∈ marks, mark = true) →
      Node.siftAll marks nodes = nodes
  | _, [], _, _ => rfl
  | marks, node :: rest, hlen, h => by
      rw [contentOf_cons, List.length_append] at hlen
      have hrest : Node.siftAll (marks.drop node.content.length) rest = rest :=
        siftAll_eq_self rest (by rw [List.length_drop]; omega)
          fun mark hm => h mark (List.mem_of_mem_drop hm)
      rw [Node.siftAll, sift_eq_self node (by omega) h, hrest]

end

/-! ## Cutting is sifting -/

/-- For each of `count` positions from `start` on, whether it lies outside all ranges. -/
def uncovered (ranges : List Range) : (start count : Nat) → List Bool
  | _, 0 => []
  | start, count + 1 => (!covered ranges start) :: uncovered ranges (start + 1) count

@[simp] lemma length_uncovered (ranges : List Range) (start count : Nat) :
    (uncovered ranges start count).length = count := by
  induction count generalizing start with
  | zero => rfl
  | succ count ih => rw [uncovered, List.length_cons, ih]

lemma uncovered_add (ranges : List Range) (start m n : Nat) :
    uncovered ranges start (m + n)
      = uncovered ranges start m ++ uncovered ranges (start + m) n := by
  induction m generalizing start with
  | zero => simp [uncovered]
  | succ m ih =>
      rw [Nat.succ_add, uncovered, uncovered, ih, List.cons_append]
      congr 3
      omega

/-- Marks depend on what is covered only. -/
lemma uncovered_congr {rs ss : List Range} {start count : Nat}
    (h : ∀ i, start ≤ i → i < start + count → covered rs i = covered ss i) :
    uncovered rs start count = uncovered ss start count := by
  induction count generalizing start with
  | zero => rfl
  | succ count ih =>
      rw [uncovered, uncovered, h start (Nat.le_refl _) (by omega),
        ih fun i hi hlt => h i (by omega) (by omega)]

lemma uncovered_eq_replicate {ranges : List Range} {start count : Nat} {b : Bool}
    (h : ∀ i, start ≤ i → i < start + count → covered ranges i = b) :
    uncovered ranges start count = List.replicate count !b := by
  induction count generalizing start with
  | zero => rfl
  | succ count ih =>
      rw [uncovered, h start (Nat.le_refl _) (by omega),
        ih fun i hi hlt => h i (by omega) (by omega), List.replicate_succ]

lemma keepOutside_eq_siftText (ranges : List Range) (offset : Nat) (t : Text) (more : Nat) :
    keepOutside ranges offset t = siftText (uncovered ranges offset (t.length + more)) t := by
  induction t generalizing offset with
  | nil => rw [siftText_nil, keepOutside]
  | cons c rest ih =>
      rw [keepOutside, ih (offset + 1), List.length_cons, Nat.succ_add, uncovered, covered]
      split
      · next h => rw [h, Bool.not_true, siftText]
      · next h => rw [Bool.eq_false_iff.mpr h, Bool.not_false, siftText]

lemma drop_uncovered (ranges : List Range) (start m n : Nat) :
    (uncovered ranges start (m + n)).drop m = uncovered ranges (start + m) n := by
  rw [uncovered_add, List.drop_left' (length_uncovered _ _ _)]

mutual

lemma cut_eq_sift_more (ranges : List Range) : ∀ (offset more : Nat) (node : Node),
    node.cut ranges offset
      = node.sift (uncovered ranges offset (node.content.length + more))
  | offset, more, .text value => by
      rw [Node.cut, Node.sift, content_text, keepOutside_eq_siftText ranges offset value more]
  | offset, more, .element tag children => by
      rw [Node.cut, Node.sift, content_element, cutAll_eq_siftAll_more ranges offset more children]

lemma cutAll_eq_siftAll_more (ranges : List Range) : ∀ (offset more : Nat) (nodes : List Node),
    Node.cutAll ranges offset nodes
      = Node.siftAll (uncovered ranges offset ((contentOf nodes).length + more)) nodes
  | _, _, [] => rfl
  | offset, more, node :: rest => by
      rw [Node.cutAll, Node.siftAll, contentOf_cons, List.length_append, Nat.add_assoc,
        drop_uncovered, cut_eq_sift_more ranges offset _ node,
        cutAll_eq_siftAll_more ranges _ more rest]

end

/-- **Cutting ranges is keeping the characters that no range covers.** -/
theorem cut_eq_sift (ranges : List Range) (offset : Nat) (node : Node) :
    node.cut ranges offset = node.sift (uncovered ranges offset node.content.length) :=
  cut_eq_sift_more ranges offset 0 node

/-! ## Sifting twice -/

/-- Marks with marks for the marked positions put into them. -/
def thin : List Bool → List Bool → List Bool
  | [], _ => []
  | false :: marks, others => false :: thin marks others
  | true :: marks, [] => false :: thin marks []
  | true :: marks, other :: others => other :: thin marks others

lemma thin_replicate_false (n : Nat) (marks others : List Bool) :
    thin (List.replicate n false ++ marks) others
      = List.replicate n false ++ thin marks others := by
  induction n with
  | zero => rfl
  | succ n ih => rw [List.replicate_succ, List.cons_append, thin, ih, List.cons_append]

lemma thin_replicate_true (marks first others : List Bool) :
    thin (List.replicate first.length true ++ marks) (first ++ others)
      = first ++ thin marks others := by
  induction first with
  | nil => rfl
  | cons mark first ih =>
      rw [List.length_cons, List.replicate_succ, List.cons_append, List.cons_append, thin, ih,
        List.cons_append]

/-- What is left of the marks behind the first positions. -/
lemma drop_thin : ∀ (n : Nat) (marks others : List Bool),
    (thin marks others).drop n = thin (marks.drop n) (others.drop ((marks.take n).count true))
  | 0, marks, others => by simp
  | n + 1, [], others => by simp [thin]
  | n + 1, false :: marks, others => by simp [thin, drop_thin n marks others]
  | n + 1, true :: marks, [] => by simp [thin, drop_thin n marks []]
  | n + 1, true :: marks, other :: others => by simp [thin, drop_thin n marks others]

lemma length_siftText (marks : List Bool) (t : Text) :
    (siftText marks t).length = (marks.take t.length).count true := by
  induction t generalizing marks with
  | nil => simp
  | cons c rest ih =>
      cases marks with
      | nil => simp [siftText]
      | cons mark marks => cases mark <;> simp [siftText, ih]

lemma siftText_siftText : ∀ (marks others : List Bool) (t : Text),
    siftText others (siftText marks t) = siftText (thin marks others) t
  | marks, others, [] => by simp
  | [], others, c :: rest => by simp [siftText, thin]
  | false :: marks, others, c :: rest => by
      simp [siftText, thin, siftText_siftText marks others rest]
  | true :: marks, [], c :: rest => by
      have ih := siftText_siftText marks [] rest
      cases h : siftText marks rest <;> simp_all [siftText, thin]
  | true :: marks, other :: others, c :: rest => by
      cases other <;> simp [siftText, thin, siftText_siftText marks others rest]

mutual

/-- **Sifting twice is sifting once.** -/
theorem sift_sift : ∀ (marks others : List Bool) (node : Node),
    (node.sift marks).sift others = node.sift (thin marks others)
  | marks, others, .text value => by rw [Node.sift, Node.sift, Node.sift, siftText_siftText]
  | marks, others, .element tag children => by
      rw [Node.sift, Node.sift, Node.sift, siftAll_siftAll marks others children]

theorem siftAll_siftAll : ∀ (marks others : List Bool) (nodes : List Node),
    Node.siftAll others (Node.siftAll marks nodes) = Node.siftAll (thin marks others) nodes
  | _, _, [] => rfl
  | marks, others, node :: rest => by
      rw [Node.siftAll, Node.siftAll, Node.siftAll, sift_sift marks others node,
        siftAll_siftAll _ _ rest, content_sift, length_siftText, drop_thin]

end

end FormLetter
