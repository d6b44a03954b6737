import FormLetter.Proofs.Rulings

/-!
# A pass over the sections, in terms of the flat text

`resolvePass` plans its edits section by section and applies them in one walk over the tree.  The
specification knows neither plans nor places: it looks at the flat text and at the passages, one at
a time.

* `Decides` — the rulings of a pass: the outermost sections of the flat text, each with the truth
  value of its condition.
* `Passage.Gone` — which passages go: boundary paragraphs of a lost span that share no kept marker,
  whatever lies strictly between them, and paragraphs that lost text and show nothing any more.
  The root never goes.
* `Passage.remainder` — what is left of any other passage: itself without the deleted positions.
* `resolvePass_refines_flatText` — a pass does exactly this.

Sections may share paragraphs, and the edits of one may cut what the edits of another remove; the
specification need not care, since each ruling is compared with the flat text on its own
(`Ruling.Placed.removesAt_edits`, `Ruling.Placed.covered_cutsAt_edits`).
-/

namespace FormLetter

/-! ## The rulings of a pass -/

/-- The rulings are the outermost sections of the tree, in order, with the decisions of the data. -/
structure Decides (tree : Node) (data : Value) (rulings : List Ruling) : Prop where
  sections : pair (markers (flatText tree)) = .ok (rulings.map Ruling.block)
  decisions : ∀ r ∈ rulings, isTruthy data r.block.condition.path = .ok r.holds

/-- A planned section is located and decided, and its edits are those of the ruling. -/
lemma ruling_of_edits {tree : Node} {data : Value} {block : Block} {es : List Edit}
    (h : block.edits (segments tree) data = .ok es) :
    ∃ holds, isTruthy data block.condition.path = .ok holds ∧ block.Located tree
      ∧ es = Ruling.edits tree ⟨block, holds⟩ := by
  rw [Block.edits, bind_eq_ok] at h
  obtain ⟨sited, hsited, h⟩ := h
  obtain ⟨holds, hholds, h⟩ := bind_eq_ok.mp h
  rw [mapError_eq_ok] at hsited hholds
  obtain ⟨rfl, hlocated⟩ := located_of_locate hsited
  exact ⟨holds, hholds, hlocated, (Except.ok.inj h).symm⟩

lemma rulings_of_editsOfBlocks {tree : Node} {data : Value} :
    ∀ {blocks : List Block} {es : List Edit},
      editsOfBlocks (segments tree) data blocks = .ok es →
      ∃ rulings : List Ruling, rulings.map Ruling.block = blocks
        ∧ (∀ r ∈ rulings, isTruthy data r.block.condition.path = .ok r.holds)
        ∧ (∀ r ∈ rulings, r.block.Located tree)
        ∧ es = rulings.flatMap (Ruling.edits tree)
  | [], es, h => by
      obtain rfl : [] = es := Except.ok.inj h
      exact ⟨[], rfl, by simp, by simp, rfl⟩
  | block :: rest, es, h => by
      rw [editsOfBlocks, bind_eq_ok] at h
      obtain ⟨first, hfirst, h⟩ := h
      obtain ⟨others, hothers, h⟩ := bind_eq_ok.mp h
      obtain ⟨holds, hholds, hlocated, rfl⟩ := ruling_of_edits hfirst
      obtain ⟨rulings, rfl, hdecided, hplaced, rfl⟩ := rulings_of_editsOfBlocks hothers
      obtain rfl := Except.ok.inj h
      refine ⟨⟨block, holds⟩ :: rulings, rfl, ?_, ?_, rfl⟩
      · exact List.forall_mem_cons.mpr ⟨hholds, hdecided⟩
      · exact List.forall_mem_cons.mpr ⟨hlocated, hplaced⟩

/-- A section of the flat text that was located is placed. -/
lemma placed_of_located {tree : Node} {data : Value} {rulings : List Ruling}
    (h : Decides tree data rulings) {r : Ruling} (hr : r ∈ rulings)
    (hlocated : r.block.Located tree) : r.Placed tree := by
  have hsub : r.block.occurrences.Sublist ((markers (flatText tree)).map Marker.here) := by
    refine List.Sublist.trans ?_ (pair_occurrences h.sections)
    have hmem : r.block.occurrences ∈ (rulings.map Ruling.block).map Block.occurrences :=
      List.mem_map_of_mem (List.mem_map_of_mem hr)
    exact (List.sublist_flatten_of_mem hmem)
  refine ⟨hlocated, ?_, fun m hm => ?_⟩
  · refine List.Pairwise.sublist hsub ?_
    exact (pairwise_markersFrom 0 (flatText tree)).map _ fun _ _ hab => hab
  · obtain ⟨marker, hmarker, rfl⟩ := List.mem_map.mp (hsub.subset hm)
    exact (bounds_of_mem_markersFrom hmarker).2.1

/-- **What a pass that resolves something consists of.** -/
theorem exists_rulings {tree next : Node} {data : Value} {count : Nat}
    (h : resolvePass tree data = .ok (next, count)) (hcount : 0 < count) :
    ∃ rulings : List Ruling, Decides tree data rulings ∧ (∀ r ∈ rulings, r.Placed tree)
      ∧ rulings.length = count ∧ next = tree.edit (rulings.flatMap (Ruling.edits tree)) := by
  rw [resolvePass] at h
  split at h
  · obtain ⟨-, rfl⟩ := Prod.mk.inj (Except.ok.inj h)
    exact absurd hcount (Nat.lt_irrefl 0)
  · obtain ⟨blocks, hblocks, h⟩ := bind_eq_ok.mp h
    obtain ⟨es, hes, h⟩ := bind_eq_ok.mp h
    rw [mapError_eq_ok] at hblocks
    obtain ⟨rulings, rfl, hdecided, hlocated, rfl⟩ := rulings_of_editsOfBlocks hes
    obtain ⟨rfl, rfl⟩ := Prod.mk.inj (Except.ok.inj h)
    have hdec : Decides tree data rulings := ⟨hblocks, hdecided⟩
    exact ⟨rulings, hdec, fun r hr => placed_of_located hdec hr (hlocated r hr), by simp, rfl⟩

/-! ## The specification -/

/-- The ranges of the flat text that go. -/
def deletedBy (rulings : List Ruling) : List Range := rulings.flatMap Ruling.deleted

namespace Passage

/-- What is left of the passage where the deleted positions are taken out. -/
def remainder (rulings : List Ruling) (p : Passage) : Node :=
  p.node.cut (deletedBy rulings) p.start

/-- Whether some of the passage's text is deleted. -/
def Loses (rulings : List Ruling) (p : Passage) : Prop :=
  ∃ i < p.node.content.length, covered (deletedBy rulings) (p.start + i) = true

/-- Whether the passage goes: as a boundary paragraph, as something between two of them, or because
it lost text and shows nothing any more. -/
def Gone (tree : Node) (rulings : List Ruling) (p : Passage) : Prop :=
  p.place ≠ [] ∧
    ((∃ r ∈ rulings, r.takes p) ∨ (∃ r ∈ rulings, r.encloses tree p)
      ∨ p.Loses rulings ∧ showsNothing (p.remainder rulings) = true)

end Passage

open scoped Classical in
/-- The passages that stay, in order. -/
noncomputable def survivors (tree : Node) (rulings : List Ruling) : List Passage :=
  (passages tree).filter fun p => decide (¬ p.Gone tree rulings)

lemma mem_survivors {tree : Node} {rulings : List Ruling} {p : Passage} :
    p ∈ survivors tree rulings ↔ p ∈ passages tree ∧ ¬ p.Gone tree rulings := by
  simp [survivors]

/-! ## Edits of several rulings -/

section

variable {tree : Node} {rulings : List Ruling} (h : ∀ r ∈ rulings, r.Placed tree)

include h

lemma removesAt_rulings {p : Passage} (hp : p ∈ passages tree) :
    removesAt (rulings.flatMap (Ruling.edits tree)) p.place = true ↔
      (∃ r ∈ rulings, r.takes p) ∨ ∃ r ∈ rulings, r.encloses tree p := by
  rw [removesAt, List.any_flatMap, List.any_eq_true, ← exists_or]
  refine exists_congr fun r => ?_
  constructor
  · rintro ⟨hr, hremoves⟩
    rcases ((h r hr).removesAt_edits hp).mp hremoves with ht | he
    · exact Or.inl ⟨hr, ht⟩
    · exact Or.inr ⟨hr, he⟩
  · rintro (⟨hr, ht⟩ | ⟨hr, he⟩)
    · exact ⟨hr, ((h r hr).removesAt_edits hp).mpr (Or.inl ht)⟩
    · exact ⟨hr, ((h r hr).removesAt_edits hp).mpr (Or.inr he)⟩

/-- From a passage that no ruling removes, the edits of all rulings together cut what these
delete. -/
lemma covered_cutsAt_rulings {p : Passage} (hp : p ∈ passages tree)
    (hstays : removesAt (rulings.flatMap (Ruling.edits tree)) p.place = false) {i : Nat}
    (hi : i < p.node.content.length) :
    covered (cutsAt (rulings.flatMap (Ruling.edits tree)) p.place) i
      = covered (deletedBy rulings) (p.start + i) := by
  rw [Bool.eq_false_iff, ne_eq, removesAt_rulings h hp, not_or] at hstays
  have heach : ∀ r ∈ rulings, covered (cutsAt (r.edits tree) p.place) i
      = covered r.deleted (p.start + i) := fun r hr =>
    (h r hr).covered_cutsAt_edits hp (fun ht => hstays.1 ⟨r, hr, ht⟩)
      (fun he => hstays.2 ⟨r, hr, he⟩) hi
  rw [covered, covered, cutsAt, deletedBy, List.filterMap_flatMap, List.any_flatMap,
    List.any_flatMap, Bool.eq_iff_iff, List.any_eq_true, List.any_eq_true]
  refine exists_congr fun r => and_congr_right fun hr => ?_
  exact Bool.eq_iff_iff.mp (heach r hr)

lemma cutsAt_rulings_eq_nil {p : Passage} (hp : p ∈ passages tree)
    (hstays : removesAt (rulings.flatMap (Ruling.edits tree)) p.place = false) :
    cutsAt (rulings.flatMap (Ruling.edits tree)) p.place = [] ↔ ¬ p.Loses rulings := by
  constructor
  · rintro hnil ⟨i, hi, hcov⟩
    rw [← covered_cutsAt_rulings h hp hstays hi, hnil] at hcov
    simp [covered] at hcov
  · intro hlose
    refine List.eq_nil_iff_forall_not_mem.mpr fun range hr => hlose ?_
    obtain ⟨r, hmem, hedit⟩ := List.mem_flatMap.mp (mem_cutsAt.mp hr)
    obtain ⟨i, hi, hcov⟩ := (h r hmem).exists_covered hp (mem_cutsAt.mpr hedit)
    refine ⟨i, hi, ?_⟩
    rw [← covered_cutsAt_rulings h hp hstays hi]
    exact List.any_eq_true.mpr ⟨range, hr, hcov⟩

lemma cut_rulings {p : Passage} (hp : p ∈ passages tree)
    (hstays : removesAt (rulings.flatMap (Ruling.edits tree)) p.place = false) :
    p.node.cut (cutsAt (rulings.flatMap (Ruling.edits tree)) p.place) 0 = p.remainder rulings := by
  refine cut_congr p.node fun i hi => ?_
  rw [Nat.zero_add]
  exact covered_cutsAt_rulings h hp hstays hi

lemma fits_rulings : Edit.Fits (rulings.flatMap (Ruling.edits tree)) tree.leaves := by
  constructor
  · intro place range hedit
    obtain ⟨r, hr, hedit⟩ := List.mem_flatMap.mp hedit
    exact (h r hr).fits_edits.cut place range hedit
  · intro place hedit
    obtain ⟨r, hr, hedit⟩ := List.mem_flatMap.mp hedit
    exact (h r hr).fits_edits.remove place hedit

lemma remove_root_not_mem_rulings : .remove [] ∉ rulings.flatMap (Ruling.edits tree) := by
  intro hedit
  obtain ⟨r, hr, hedit⟩ := List.mem_flatMap.mp hedit
  exact (h r hr).remove_root_not_mem_edits hedit

open scoped Classical in
/-- **The fate of a passage below the root** is the one that the flat text asks for. -/
theorem edited?_rulings {p : Passage} (hp : p ∈ passages tree) (hroot : p.place ≠ []) :
    p.toLeaf.edited? (rulings.flatMap (Ruling.edits tree))
      = if p.Gone tree rulings then none else some (p.remainder rulings) := by
  rw [Leaf.edited?]
  by_cases hremoved : removesAt (rulings.flatMap (Ruling.edits tree)) p.place = true
  · rw [if_pos hremoved, if_pos]
    rcases (removesAt_rulings h hp).mp hremoved with ht | he
    · exact ⟨hroot, Or.inl ht⟩
    · exact ⟨hroot, Or.inr (Or.inl he)⟩
  · have hstays := Bool.eq_false_iff.mpr hremoved
    have hnot := mt (removesAt_rulings h hp).mpr hremoved
    rw [not_or] at hnot
    have hgone : p.Gone tree rulings
        ↔ p.Loses rulings ∧ showsNothing (p.remainder rulings) = true := by
      simp only [Passage.Gone, hnot.1, hnot.2, false_or, ne_eq, hroot, not_false_eq_true, true_and]
    simp only [if_neg hremoved, cut_rulings h hp hstays, hgone]
    by_cases hlose : p.Loses rulings
    · have hcuts : cutsAt (rulings.flatMap (Ruling.edits tree)) p.place ≠ [] :=
        fun hnil => (cutsAt_rulings_eq_nil h hp hstays).mp hnil hlose
      simp [hlose, hcuts]
    · have hcuts := (cutsAt_rulings_eq_nil h hp hstays).mpr hlose
      simp [hlose, hcuts]

/-- A passage at the root stays, and the edits of the rulings do not remove it. -/
lemma root_stays {p : Passage} (hroot : p.place = []) :
    removesAt (rulings.flatMap (Ruling.edits tree)) p.place = false := by
  rw [Bool.eq_false_iff, ne_eq, removesAt_eq_true]
  rintro ⟨place, hedit, hprefix⟩
  rw [hroot] at hprefix
  rw [List.prefix_nil.mp hprefix] at hedit
  exact remove_root_not_mem_rulings h hedit

/-- **The leaves of the tree after a pass** are what is left of the passages that stay. -/
theorem leaves_edit_rulings :
    (tree.edit (rulings.flatMap (Ruling.edits tree))).leaves.map Leaf.node
      = (survivors tree rulings).map (Passage.remainder rulings) := by
  classical
  by_cases hpar : tree.isNamed Word.paragraph = true
  · have hpassages : passages tree = [⟨⟨[], tree⟩, 0⟩] := by
      rw [passages, leaves_of_paragraph hpar]
      rfl
    have hp : (⟨⟨[], tree⟩, 0⟩ : Passage) ∈ passages tree := by simp [hpassages]
    have hcut := cut_rulings h hp (root_stays h rfl)
    rw [leaves_edit_paragraph hpar (fits_rulings h), survivors, hpassages]
    simp only at hcut
    simp [Passage.Gone, hcut]
  · rw [leaves_edit (Bool.eq_false_iff.mpr hpar) (remove_root_not_mem_rulings h) (fits_rulings h),
      ← map_toLeaf_passages, List.filterMap_map, survivors, ← List.filterMap_eq_filter,
      List.map_filterMap]
    refine List.filterMap_congr fun p hp => ?_
    by_cases hroot : p.place = []
    · -- the root is no paragraph here, and nothing is cut from it
      have hstays := root_stays h hroot
      have hcuts : cutsAt (rulings.flatMap (Ruling.edits tree)) p.place = [] := by
        refine List.eq_nil_iff_forall_not_mem.mpr fun range hr => hpar ?_
        obtain ⟨leaf, hl, hleaf, hplace⟩ := (fits_rulings h).cut _ _ (mem_cutsAt.mp hr)
        rw [← node_of_root_leaf hl (hplace.trans hroot)]
        exact hleaf
      have hrest : p.remainder rulings = p.node.cut [] 0 := by
        rw [← cut_rulings h hp hstays, hcuts]
      have hkept : ¬ p.Gone tree rulings := fun hgone => hgone.1 hroot
      rw [Function.comp_apply, Leaf.edited?, if_neg (by simp [hstays]), hcuts]
      simp [hkept, hrest, Option.guard]
    · rw [Function.comp_apply, edited?_rulings h hp hroot]
      by_cases hgone : p.Gone tree rulings
      · simp [hgone, Option.guard]
      · simp [hgone, Option.guard]

end

/-- **A pass over the sections implements its flat text specification.**  Whenever a pass resolves a
section, its result has, in their order, what is left of exactly the passages that are not `Gone`:
the characters of the passage at the positions that are not deleted, in the same elements. -/
theorem resolvePass_refines_flatText {tree next : Node} {data : Value} {count : Nat}
    (h : resolvePass tree data = .ok (next, count)) (hcount : 0 < count) :
    ∃ rulings : List Ruling, Decides tree data rulings ∧ rulings.length = count
      ∧ next.leaves.map Leaf.node = (survivors tree rulings).map (Passage.remainder rulings)
      ∧ ∀ p ∈ passages tree,
        (p.remainder rulings).content
            = ((p.node.content.zipIdx p.start).filter fun entry =>
                !covered (deletedBy rulings) entry.2).map Prod.fst
          ∧ (p.remainder rulings).tags = p.node.tags := by
  obtain ⟨rulings, hdecides, hplaced, hlength, rfl⟩ := exists_rulings h hcount
  refine ⟨rulings, hdecides, hlength, leaves_edit_rulings hplaced, fun p _ => ⟨?_, ?_⟩⟩
  · rw [Passage.remainder, content_cut, keepOutside_eq_filter]
  · exact tags_cut _ _ _

/-- A body of paragraphs with one run each. -/
def plainBody (paragraphs : List String) : Node :=
  .element ⟨Word.named "body", [], []⟩ <| paragraphs.map fun t =>
    .element ⟨Word.paragraph, [], []⟩ [Word.makeRun t.toList none]

/-- Data with the two truth values under textual keys. -/
def flags (entries : List (String × Bool)) : Value :=
  .mapping (entries.map fun (key, b) => (.text key.toList, .truth b))

theorem resolvePass_refines_flatText_shared :
    let tree := plainBody ["first", "@if:a@x", "gone", "@endif@", "@if:b@kept@else@",
      "lost@endif@too", "@if:b@@endif@"]
    let data := flags [("a", false), ("b", true)]
    resolvePass tree data = .ok (plainBody ["first", "kept"], 3) ∧ 0 < 3
      ∧ ∃ rulings : List Ruling, Decides tree data rulings ∧ rulings.length = 3
        ∧ (plainBody ["first", "kept"]).leaves.map Leaf.node
            = (survivors tree rulings).map (Passage.remainder rulings)
        ∧ ∀ p ∈ passages tree,
          (p.remainder rulings).content
              = ((p.node.content.zipIdx p.start).filter fun entry =>
                  !covered (deletedBy rulings) entry.2).map Prod.fst
            ∧ (p.remainder rulings).tags = p.node.tags :=
  ⟨by decide +kernel, by decide, resolvePass_refines_flatText (by decide +kernel) (by decide)⟩

end FormLetter
