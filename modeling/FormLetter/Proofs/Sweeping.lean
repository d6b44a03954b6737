import FormLetter.Proofs.Cutting

/-!
# What a sweep deletes

Edits take characters out of a paragraph in one sweep.  A cursor goes through each text of the
paragraph from range to range, and from one text to the next the position is handed on.  This file
says that the sweep deletes what `Node.cut` says, provided that the ranges come in order.

* **One text.** `sweepText_eq` — the induction is on the ranges that are still to come.  In front of
  the cursor all is settled, and a range that comes later does not begin before the one at hand; so
  what stands between the cursor and that one may be kept for good (`past_settles`).
* **Trees.** `sweep_eq` — the position that a node hands on is the one behind its last character.
* **Edits.** `pairwise_ordered_ranges` — the ranges of a paragraph are put in order first, so
  `edit_element` may speak of `Node.cut` and no later proof meets a sweep.
* `sweep_deletes_covered` — all of it in terms of single texts and positions.
-/

namespace FormLetter

open Node

/-! ## Sweeping over one text -/

/-- What is kept of a text that is left alone up to a covered stretch: its beginning, and what is
kept behind that stretch. -/
lemma keepOutside_stretch {ranges others : List Range} {offset before inside : Nat} {t : Text}
    (hlength : before + inside ≤ t.length)
    (hbefore : ∀ k < before, covered ranges (offset + k) = false)
    (hinside : ∀ k < inside, covered ranges (offset + before + k) = true)
    (hbehind : ∀ k < t.length - (before + inside),
      covered ranges (offset + before + inside + k) = covered others (offset + before + inside + k)) :
    keepOutside ranges offset t
      = t.take before
        ++ keepOutside others (offset + before + inside) (t.drop (before + inside)) := by
  have hsplit : t = t.take before ++ ((t.drop before).take inside ++ t.drop (before + inside)) := by
    rw [← List.drop_drop, List.take_append_drop, List.take_append_drop]
  have htake : (t.take before).length = before := by
    rw [List.length_take]
    omega
  have hstretch : ((t.drop before).take inside).length = inside := by
    rw [List.length_take, List.length_drop]
    omega
  conv_lhs => rw [hsplit]
  rw [keepOutside_append, keepOutside_append, htake, hstretch,
    keepOutside_of_uncovered (by rwa [htake]), keepOutside_of_covered (by rwa [hstretch]),
    List.nil_append]
  congr 1
  exact keepOutside_congr (by rwa [List.length_drop])

section

variable {start : Nat} {t : Text}

/-- **A range settles a text up to its end,** if no range to come begins before it. -/
lemma past_settles {range : Range} {rest : List Range} {sweep : Sweep}
    (hlater : ∀ r ∈ rest, range.low ≤ r.low) (hlow : start ≤ sweep.cursor)
    (hhigh : sweep.cursor ≤ start + t.length) :
    let next := sweep.past start t range
    start ≤ next.cursor ∧ next.cursor ≤ start + t.length
      ∧ next.kept ++ keepOutside rest next.cursor (t.drop (next.cursor - start))
        = sweep.kept
          ++ keepOutside (range :: rest) sweep.cursor (t.drop (sweep.cursor - start)) := by
  have hcovered : ∀ position, covered (range :: rest) position
      = (range.covers position || covered rest position) := fun _ => rfl
  have hrange : ∀ position, range.covers position = true
      ↔ range.low ≤ position ∧ position < range.high := fun position => by simp [Range.covers]
  intro next
  by_cases hempty : min range.high (start + t.length) ≤ max range.low start
  · -- nothing of the range lies in the text
    have hnext : next = sweep := by
      simp only [next, Sweep.past]
      rw [if_pos hempty]
    rw [hnext]
    refine ⟨hlow, hhigh, congrArg (sweep.kept ++ ·) (keepOutside_congr fun k hk => ?_)⟩
    rw [List.length_drop] at hk
    have hout : range.covers (sweep.cursor + k) = false := by
      rw [Bool.eq_false_iff, ne_eq, hrange]
      omega
    rw [hcovered, hout, Bool.false_or]
  · let low := max range.low start
    let high := min range.high (start + t.length)
    let before := low - sweep.cursor
    let inside := max sweep.cursor high - (sweep.cursor + before)
    have hnext : next = ⟨sweep.kept ++ (t.drop (sweep.cursor - start)).take before,
        max sweep.cursor high⟩ := by
      simp only [next, Sweep.past]
      rw [if_neg hempty]
      split
      · rfl
      · next hpassed =>
          have hnone : before = 0 := Nat.sub_eq_zero_of_le (Nat.le_of_not_lt hpassed)
          rw [hnone, List.take_zero]
    have hstop : sweep.cursor + before + inside = max sweep.cursor high := by omega
    have hrest : (t.drop (sweep.cursor - start)).drop (before + inside)
        = t.drop (max sweep.cursor high - start) := by
      rw [List.drop_drop]
      congr 1
      omega
    have hlength := List.length_drop (l := t) (i := sweep.cursor - start)
    -- in front of the range, and so in front of all that come later
    have hbefore : ∀ k < before, covered (range :: rest) (sweep.cursor + k) = false := by
      intro k hk
      rw [Bool.eq_false_iff, ne_eq, covered_eq_true]
      rintro ⟨r, hr, hfrom, -⟩
      rcases List.mem_cons.mp hr with rfl | hr
      · omega
      · have := hlater r hr
        omega
    have hinside : ∀ k < inside,
        covered (range :: rest) (sweep.cursor + before + k) = true := by
      intro k hk
      rw [hcovered, Bool.or_eq_true, hrange]
      exact Or.inl (by omega)
    have hbehind : ∀ k < (t.drop (sweep.cursor - start)).length - (before + inside),
        covered (range :: rest) (sweep.cursor + before + inside + k)
          = covered rest (sweep.cursor + before + inside + k) := by
      intro k hk
      have hout : range.covers (sweep.cursor + before + inside + k) = false := by
        rw [Bool.eq_false_iff, ne_eq, hrange]
        omega
      rw [hcovered, hout, Bool.false_or]
    have hkept := keepOutside_stretch (by omega) hbefore hinside hbehind
    rw [hnext, hkept, hstop, hrest, List.append_assoc]
    exact ⟨Nat.le_trans hlow (Nat.le_max_left _ _),
      Nat.max_le.mpr ⟨hhigh, Nat.min_le_right _ _⟩, rfl⟩

/-- What a sweep has kept, with what its ranges leave of the text behind the cursor. -/
lemma foldl_past : ∀ {ranges : List Range} {sweep : Sweep},
    (ranges.Pairwise fun r s => r.low ≤ s.low) → start ≤ sweep.cursor →
    sweep.cursor ≤ start + t.length →
    let last := ranges.foldl (Sweep.past start t) sweep
    last.kept ++ t.drop (last.cursor - start)
      = sweep.kept ++ keepOutside ranges sweep.cursor (t.drop (sweep.cursor - start))
  | [], sweep, _, _, _ => by
      intro last
      rw [keepOutside_of_uncovered fun _ _ => rfl]
      rfl
  | range :: rest, sweep, h, hlow, hhigh => by
      intro last
      obtain ⟨hlater, hrest⟩ := List.pairwise_cons.mp h
      obtain ⟨hlow', hhigh', hsettled⟩ := past_settles hlater hlow hhigh
      rw [← hsettled]
      exact foldl_past hrest hlow' hhigh'

/-- A sweep whose cursor has not moved has kept nothing yet. -/
lemma kept_of_cursor_eq {ranges : List Range} :
    let last := ranges.foldl (Sweep.past start t) ⟨[], start⟩
    last.cursor = start → last.kept = [] := by
  have hmoved : ∀ (sweep : Sweep), (sweep.kept = [] ∨ start < sweep.cursor) →
      ∀ range ∈ ranges, (sweep.past start t range).kept = []
        ∨ start < (sweep.past start t range).cursor := by
    intro sweep h range _
    simp only [Sweep.past]
    split
    · exact h
    · exact Or.inr (by simp only; omega)
  have hlast := List.foldlRecOn ranges (Sweep.past start t) (b := ⟨[], start⟩)
    (motive := fun sweep => sweep.kept = [] ∨ start < sweep.cursor) (Or.inl rfl) hmoved
  intro last hstart
  exact hlast.resolve_right fun hmoved => Nat.ne_of_gt hmoved hstart

/-- **A sweep through a text deletes what its ranges cover.** -/
theorem sweepText_eq {ranges : List Range} (h : ranges.Pairwise fun r s => r.low ≤ s.low) :
    sweepText ranges start t = keepOutside ranges start t := by
  have hfold := @foldl_past start t ranges ⟨[], start⟩ h (Nat.le_refl _)
    (Nat.le_add_right _ _)
  simp only [Nat.sub_self, List.drop_zero, List.nil_append] at hfold
  rw [sweepText]
  split
  · next hstart =>
      rw [hstart, kept_of_cursor_eq hstart, Nat.sub_self, List.drop_zero, List.nil_append] at hfold
      exact hfold
  · exact hfold

end

/-! ## Sweeping over a tree -/

mutual

/-- **A sweep through a tree cuts it** and arrives behind its last character. -/
theorem sweep_eq {ranges : List Range} (h : ranges.Pairwise fun r s => r.low ≤ s.low) :
    ∀ (offset : Nat) (node : Node),
      node.sweep ranges offset = (node.cut ranges offset, offset + node.content.length)
  | offset, .text value => by rw [Node.sweep, Node.cut, sweepText_eq h, content_text]
  | offset, .element tag children => by
      rw [Node.sweep, Node.cut, sweepAll_eq h offset children, content_element]

theorem sweepAll_eq {ranges : List Range} (h : ranges.Pairwise fun r s => r.low ≤ s.low) :
    ∀ (offset : Nat) (nodes : List Node),
      Node.sweepAll ranges offset nodes
        = (Node.cutAll ranges offset nodes, offset + (contentOf nodes).length)
  | offset, [] => rfl
  | offset, node :: rest => by
      rw [Node.sweepAll, sweep_eq h offset node, Node.cutAll, contentOf_cons, List.length_append,
        ← Nat.add_assoc]
      simp only [sweepAll_eq h _ rest]

end

/-! ## Ranges in order -/

lemma mem_insertInOrder {range r : Range} {ranges : List Range} :
    r ∈ Range.insertInOrder range ranges ↔ r = range ∨ r ∈ ranges := by
  induction ranges with
  | nil => simp [Range.insertInOrder]
  | cons next rest ih =>
      rw [Range.insertInOrder]
      split
      · exact List.mem_cons
      · rw [List.mem_cons, ih, List.mem_cons]
        exact or_left_comm

lemma mem_ordered {r : Range} {ranges : List Range} : r ∈ Range.ordered ranges ↔ r ∈ ranges := by
  induction ranges with
  | nil => rfl
  | cons range rest ih =>
      have hordered : Range.ordered (range :: rest)
          = Range.insertInOrder range (Range.ordered rest) := rfl
      rw [hordered, mem_insertInOrder, ih, List.mem_cons]

lemma low_le_of_inOrder {a b : Range} :
    (a.inOrder b = true → a.low ≤ b.low) ∧ (a.inOrder b = false → b.low ≤ a.low) := by
  simp only [Range.inOrder, Bool.or_eq_true, Bool.and_eq_true, decide_eq_true_eq, beq_iff_eq,
    Bool.or_eq_false_iff, decide_eq_false_iff_not]
  omega

lemma pairwise_insertInOrder {range : Range} {ranges : List Range}
    (h : ranges.Pairwise fun r s => r.low ≤ s.low) :
    (Range.insertInOrder range ranges).Pairwise fun r s => r.low ≤ s.low := by
  induction ranges with
  | nil => exact List.pairwise_singleton _ _
  | cons next rest ih =>
      obtain ⟨hnext, hrest⟩ := List.pairwise_cons.mp h
      rw [Range.insertInOrder]
      split
      · next hfirst =>
          have hle := low_le_of_inOrder.1 hfirst
          refine List.pairwise_cons.mpr ⟨fun r hr => ?_, h⟩
          rcases List.mem_cons.mp hr with rfl | hr
          · exact hle
          · exact Nat.le_trans hle (hnext r hr)
      · next hlater =>
          have hle := low_le_of_inOrder.2 (Bool.eq_false_iff.mpr hlater)
          refine List.pairwise_cons.mpr ⟨fun r hr => ?_, ih hrest⟩
          rcases mem_insertInOrder.mp hr with rfl | hr
          · exact hle
          · exact hnext r hr

/-- Ranges that have been put in order come in the order of their low ends. -/
lemma pairwise_ordered_ranges (ranges : List Range) :
    (Range.ordered ranges).Pairwise fun r s => r.low ≤ s.low := by
  induction ranges with
  | nil => exact List.Pairwise.nil
  | cons range rest ih => exact pairwise_insertInOrder ih

/-- Putting ranges in order changes nothing about what they cover. -/
lemma covered_ordered (ranges : List Range) (position : Nat) :
    covered (Range.ordered ranges) position = covered ranges position := by
  rw [Bool.eq_iff_iff, covered_eq_true, covered_eq_true]
  simp only [mem_ordered]

/-- **What edits do to an element:** they go on to its children, or, where the element itself is cut,
take the covered characters out of it. -/
theorem edit_element (edits : List Edit) (tag : StartTag) (children : List Node) :
    (Node.element tag children).edit edits
      = if (cutsHere edits).isEmpty then .element tag (Node.editFrom edits 0 children)
        else (Node.element tag children).cut (cutsHere edits) 0 := by
  rw [Node.edit, sweep_eq (pairwise_ordered_ranges _),
    cut_congr _ fun k _ => covered_ordered (cutsHere edits) (0 + k)]

/-! ## Text by text -/

/-- Texts that follow each other, with the positions at which they start. -/
def placedTexts (start : Nat) : List Text → List (Nat × Text)
  | [] => []
  | t :: rest => (start, t) :: placedTexts (start + t.length) rest

lemma placedTexts_append (start : Nat) (ts us : List Text) :
    placedTexts start (ts ++ us)
      = placedTexts start ts ++ placedTexts (start + ts.flatten.length) us := by
  induction ts generalizing start with
  | nil => rfl
  | cons t rest ih =>
      rw [List.cons_append, placedTexts, placedTexts, ih, List.cons_append, List.flatten_cons,
        List.length_append, Nat.add_assoc]

mutual

/-- Each text of a cut tree is what is left of a text of the tree. -/
lemma texts_cut (ranges : List Range) : ∀ (offset : Nat) (node : Node),
    (node.cut ranges offset).texts
      = (placedTexts offset node.texts).map fun entry => keepOutside ranges entry.1 entry.2
  | _, .text _ => rfl
  | offset, .element _ children => textsOf_cutAll ranges offset children

lemma textsOf_cutAll (ranges : List Range) : ∀ (offset : Nat) (nodes : List Node),
    textsOf (Node.cutAll ranges offset nodes)
      = (placedTexts offset (textsOf nodes)).map fun entry => keepOutside ranges entry.1 entry.2
  | _, [] => rfl
  | offset, node :: rest => by
      rw [Node.cutAll, textsOf, textsOf, placedTexts_append, List.map_append,
        texts_cut ranges offset node, textsOf_cutAll ranges _ rest]
      rfl

end

mutual

/-- Cutting keeps everything but text. -/
lemma skeleton_cut (ranges : List Range) : ∀ (offset : Nat) (node : Node),
    (node.cut ranges offset).skeleton = node.skeleton
  | _, .text _ => rfl
  | offset, .element tag children => by
      have hchildren := skeletonOf_cutAll ranges offset children
      rw [Node.cut, skeleton, skeleton, mapText, mapText, hchildren]

lemma skeletonOf_cutAll (ranges : List Range) : ∀ (offset : Nat) (nodes : List Node),
    mapTextOf (fun _ => []) (Node.cutAll ranges offset nodes) = mapTextOf (fun _ => []) nodes
  | _, [] => rfl
  | offset, node :: rest => by
      have hnode := skeleton_cut ranges offset node
      rw [skeleton, skeleton] at hnode
      rw [Node.cutAll, mapTextOf, mapTextOf, hnode, skeletonOf_cutAll ranges _ rest]

end

/-- **A sweep deletes exactly the covered characters.**  Whatever the node, the position at which its
text starts and the ranges, if these come in the order of their low ends: elements, attributes and
the number of children stay, each text loses the characters at covered positions and no others, and
the sweep arrives behind the last character that the node had. -/
theorem sweep_deletes_covered {ranges : List Range}
    (h : ranges.Pairwise fun r s => r.low ≤ s.low) (offset : Nat) (node : Node) :
    (node.sweep ranges offset).1.skeleton = node.skeleton
      ∧ (node.sweep ranges offset).1.texts
        = (placedTexts offset node.texts).map (fun (start, t) =>
            ((t.zipIdx start).filter fun (_, position) => !covered ranges position).map Prod.fst)
      ∧ (node.sweep ranges offset).2 = offset + node.content.length := by
  rw [sweep_eq h]
  refine ⟨skeleton_cut ranges offset node, ?_, rfl⟩
  rw [texts_cut]
  exact List.map_congr_left fun entry _ => keepOutside_eq_filter ranges entry.1 entry.2

/-- Ranges that begin in front of the node, lie in one another, touch, run over the border between
two texts and reach beyond the node. -/
theorem sweep_deletes_covered_overlapping :
    let shown (first second : String) : Node := .element ⟨Word.run, [], []⟩
      [.text first.toList, .element ⟨Word.runText, [], []⟩ [.text second.toList]]
    let node := shown "one, two" " and three"
    let ranges : List Range := [⟨0, 4⟩, ⟨5, 9⟩, ⟨6, 7⟩, ⟨9, 13⟩, ⟨18, 40⟩]
    (ranges.Pairwise fun r s => r.low ≤ s.low)
      ∧ node.sweep ranges 3 = (shown "n" "nd th", 21)
      ∧ (node.sweep ranges 3).1.skeleton = node.skeleton
      ∧ (node.sweep ranges 3).1.texts
        = (placedTexts 3 node.texts).map (fun (start, t) =>
            ((t.zipIdx start).filter fun (_, position) => !covered ranges position).map Prod.fst)
      ∧ (node.sweep ranges 3).2 = 3 + node.content.length := by
  intro shown node ranges
  have hpairwise : ranges.Pairwise fun r s => r.low ≤ s.low := by decide
  exact ⟨hpairwise, by decide +kernel, sweep_deletes_covered hpairwise 3 node⟩

/-- The order matters: a range that comes late is passed over where the cursor has gone by. -/
example : sweepText [⟨5, 8⟩, ⟨0, 3⟩] 0 "abcdefgh".toList = "abcde".toList := by decide +kernel

end FormLetter
