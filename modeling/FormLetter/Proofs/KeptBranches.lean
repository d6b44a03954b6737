import FormLetter.Proofs.FlatSections

/-!
# What sections leave of each other

All sections of a pass write into one list of edits, and each of them decides about a boundary
paragraph by its own markers alone.  This file says what that means for the branch that a
neighbouring section keeps.

* `Ruling.branch?` — the positions of the kept branch, between two markers of its section.
* **Nothing is cut from it.** `uncovered_of_branch` — the sections of a pass stand one after the
  other, so what one deletes lies outside the branch of another.
* **Nothing of it is enclosed.** `covered_of_encloses` — whatever stands between the two boundary
  paragraphs of a span is deleted, so it is in no kept branch.
* **Paragraphs may go.** `resolvePass_keeps_branches` — the text of a kept branch stays in every
  paragraph that the section does not bound a loss of its own in, except where the paragraph goes
  as a whole: because another section takes it, which shares no kept marker with it, or because it
  lost text and has nothing to show any more.
-/

namespace FormLetter

/-! ## Kept branches -/

namespace Ruling

/-- The positions of the branch that the ruling keeps, if it keeps one. -/
def branch? (r : Ruling) : Option Range :=
  match r.holds, r.block.alternative with
  | true, none => some ⟨r.block.opening.stop, r.block.closing.start⟩
  | true, some alternative => some ⟨r.block.opening.stop, alternative.start⟩
  | false, none => none
  | false, some alternative => some ⟨alternative.stop, r.block.closing.start⟩

/-- The passage holds the first or the last marker around the branch that the ruling loses. -/
def Borders (r : Ruling) (p : Passage) : Prop :=
  ∃ first last, r.lost? = some (first, last) ∧ (p.holds first = true ∨ p.holds last = true)

/-- A ruling takes boundary paragraphs only. -/
lemma takes.borders {r : Ruling} {p : Passage} (h : r.takes p) : r.Borders p := by
  obtain ⟨first, last, hl, hne, -⟩ := h
  refine ⟨first, last, hl, ?_⟩
  cases hfirst : p.holds first with
  | true => exact Or.inl rfl
  | false =>
      rw [hfirst] at hne
      exact Or.inr (eq_true_of_ne_false hne.symm)

end Ruling

namespace Passage

/-- The text of the passage at the positions of the flat text that lie in the range. -/
def within (range : Range) (p : Passage) : Text :=
  (p.node.content.take (range.high - p.start)).drop (range.low - p.start)

/-- Whether the passage goes because it lost text and shows nothing any more. -/
def IsEmptied (rulings : List Ruling) (p : Passage) : Prop :=
  p.place ≠ [] ∧ p.Loses rulings ∧ showsNothing (p.remainder rulings) = true

/-- What is within a range is a stretch of the text between two others. -/
lemma within_infix (range : Range) (p : Passage) :
    ∃ before after, p.node.content = before ++ p.within range ++ after
      ∧ (p.within range ≠ [] → range.low ≤ p.start + before.length)
      ∧ p.start + (before ++ p.within range).length ≤ max (p.start + before.length) range.high := by
  refine ⟨(p.node.content.take (range.high - p.start)).take (range.low - p.start),
    p.node.content.drop (range.high - p.start), ?_, ?_, ?_⟩
  · rw [within, List.take_append_drop, List.take_append_drop]
  · intro hne
    have hlong : range.low - p.start < (p.node.content.take (range.high - p.start)).length := by
      by_contra hshort
      exact hne (List.drop_eq_nil_of_le (by omega))
    rw [List.length_take_of_le (by omega)]
    omega
  · rw [within, List.take_append_drop]
    simp only [List.length_take]
    omega

end Passage

/-! ## Sections one after the other -/

/-- The first section ends before the second begins. -/
def Ruling.Before (r s : Ruling) : Prop :=
  ∀ a ∈ r.block.occurrences, ∀ b ∈ s.block.occurrences, a.stop ≤ b.start

/-- **The sections of a pass stand one after the other.** -/
lemma Decides.pairwise_before {tree : Node} {data : Value} {rulings : List Ruling}
    (h : Decides tree data rulings) : rulings.Pairwise Ruling.Before := by
  have hmarkers : ((markers (flatText tree)).map Marker.here).Pairwise
      fun a b => a.stop ≤ b.start :=
    (pairwise_markersFrom 0 (flatText tree)).map _ fun _ _ hab => hab
  have hall := hmarkers.sublist (pair_occurrences h.sections)
  rw [List.flatMap_map, List.pairwise_flatMap] at hall
  exact hall.2

/-- **What a ruling encloses, it deletes.**  A passage strictly between the boundary paragraphs of
the lost span lies between its markers in the flat text. -/
lemma Ruling.covered_of_encloses {tree : Node} {r : Ruling} {p : Passage}
    (hp : p ∈ passages tree) (he : r.encloses tree p) {i : Nat}
    (hi : i < p.node.content.length) : covered r.deleted (p.start + i) = true := by
  obtain ⟨first, last, hl, a, ha, b, hb, hfirst, hlast, hbetween⟩ := he
  obtain ⟨parent, j, k, l, rest, hjk, hkl, hja, hlb, hplace⟩ := hbetween
  obtain ⟨hafter, hbefore⟩ := precedes_of_between parent rest hjk hkl
  rw [← hja, ← hplace] at hafter
  rw [← hlb, ← hplace] at hbefore
  have hstart : a.stop < p.start := stop_lt_start_of_precedes ha hp hafter
  have hstop : p.stop < b.start := stop_lt_start_of_precedes hp hb hbefore
  rw [Passage.holds_eq_true] at hfirst hlast
  have hstart_first := first.start_le_stop
  have hstart_last := last.start_le_stop
  rw [covered_deleted]
  rw [Passage.stop] at hstop
  exact Or.inr ⟨first, last, hl, by omega, by omega⟩

namespace Ruling.Placed

variable {tree : Node} {r : Ruling} (h : r.Placed tree)

include h

/-- The markers of a section lie between its ends. -/
lemma occurrence_bounds {m : Occurrence} (hm : m ∈ r.block.occurrences) :
    r.block.opening.start ≤ m.start ∧ m.stop ≤ r.block.closing.stop := by
  have hord := h.ordered
  rcases r with ⟨⟨o, c, _ | middle, e⟩, holds⟩
  all_goals
    have ho := o.start_le_stop
    have he := e.start_le_stop
    simp [Block.occurrences] at hord hm ⊢
  · rcases hm with rfl | rfl <;> omega
  · have hmiddle := middle.start_le_stop
    rcases hm with rfl | rfl | rfl <;> omega

/-- The kept branch lies between the first and the last marker of the section. -/
lemma branch_bounds {range : Range} (hb : r.branch? = some range) :
    r.block.opening.stop ≤ range.low ∧ range.high ≤ r.block.closing.start := by
  have hord := h.ordered
  rcases r with ⟨⟨o, c, _ | middle, e⟩, _ | _⟩
  all_goals simp [branch?] at hb
  all_goals
    subst hb
    simp [Block.occurrences] at hord ⊢
  · have hmiddle := middle.start_le_stop
    omega
  · have hmiddle := middle.start_le_stop
    omega

/-- What a ruling deletes lies within its section. -/
lemma deleted_bounds {position : Nat} (hc : covered r.deleted position = true) :
    r.block.opening.start ≤ position ∧ position < r.block.closing.stop := by
  rcases covered_deleted.mp hc with ⟨m, hm, hlow, hhigh⟩ | ⟨first, last, hl, hlow, hhigh⟩
  · have := h.occurrence_bounds (r.stripped_subset m hm)
    omega
  · obtain ⟨hf, hla⟩ := mem_of_lost? hl
    have hfirst := h.occurrence_bounds hf
    have hlast := h.occurrence_bounds hla
    omega

/-- A ruling deletes nothing of the branch that it keeps. -/
lemma uncovered_of_own_branch {range : Range} (hb : r.branch? = some range) {position : Nat}
    (hlow : range.low ≤ position) (hhigh : position < range.high) :
    covered r.deleted position = false := by
  have hord := h.ordered
  rw [Bool.eq_false_iff, ne_eq, covered_deleted]
  rcases r with ⟨⟨o, c, _ | middle, e⟩, _ | _⟩
  all_goals simp [branch?] at hb
  all_goals
    subst hb
    simp [Block.occurrences] at hord
    simp [stripped, lost?] at hlow hhigh ⊢
    omega

/-- A ruling takes passages below the root only. -/
lemma place_ne_nil_of_takes {p : Passage} (hp : p ∈ passages tree) (ht : r.takes p) :
    p.place ≠ [] := by
  obtain ⟨first, last, hl, hdiff, hcase⟩ := (h.takes_iff hp).mp ht
  obtain ⟨-, parent, i, j, -, hi, hj⟩ := h.siblings_of_lost? hl hdiff
  rcases hcase with ⟨-, rfl⟩ | ⟨-, rfl⟩
  · simp [hi]
  · simp [hj]

end Ruling.Placed

/-! ## What a pass leaves of a kept branch -/

section

variable {tree : Node} {data : Value} {rulings : List Ruling} (hd : Decides tree data rulings)
  (hp : ∀ r ∈ rulings, r.Placed tree) {r : Ruling} (hr : r ∈ rulings) {range : Range}
  (hb : r.branch? = some range)

include hd hp hr hb

/-- **No section deletes anything of the branch that another one keeps.** -/
lemma uncovered_of_branch {position : Nat} (hlow : range.low ≤ position)
    (hhigh : position < range.high) : covered (deletedBy rulings) position = false := by
  rw [Bool.eq_false_iff]
  intro hc
  rw [deletedBy, covered, List.any_flatMap, List.any_eq_true] at hc
  obtain ⟨s, hs, hdeleted⟩ := hc
  obtain ⟨hopening, hclosing⟩ := (hp r hr).branch_bounds hb
  obtain ⟨hfrom, hto⟩ := (hp s hs).deleted_bounds hdeleted
  have hro := opening_mem_occurrences r.block
  have hrc := closing_mem_occurrences r.block
  have hso := opening_mem_occurrences s.block
  have hsc := closing_mem_occurrences s.block
  have hlong := r.block.opening.start_le_stop
  have hlast := r.block.closing.start_le_stop
  rcases pairwise_cases hd.pairwise_before hr hs with rfl | hrs | hsr
  · have hkept := (hp r hr).uncovered_of_own_branch hb hlow hhigh
    exact Bool.noConfusion (hkept.symm.trans hdeleted)
  · have := hrs _ hrc _ hso
    omega
  · have := hsr _ hsc _ hro
    omega

/-- What a passage holds of a kept branch stays together, as long as the passage stays. -/
lemma within_infix_remainder (p : Passage) :
    p.within range <:+: (p.remainder rulings).content := by
  by_cases hne : p.within range = []
  · rw [hne]
    exact List.nil_infix
  · obtain ⟨before, after, hcontent, hlow, hhigh⟩ := p.within_infix range
    have hlow := hlow hne
    have hkept : keepOutside (deletedBy rulings) (p.start + before.length) (p.within range)
        = p.within range := by
      refine keepOutside_of_uncovered fun k hk => ?_
      rw [List.length_append] at hhigh
      exact uncovered_of_branch hd hp hr hb (by omega) (by omega)
    rw [Passage.remainder, content_cut, hcontent, keepOutside_append, keepOutside_append, hkept]
    exact List.infix_append _ _ _

/-- A passage that holds something of a kept branch is enclosed by no section. -/
lemma not_encloses_of_within {p : Passage} (hmem : p ∈ passages tree)
    (hne : p.within range ≠ []) {s : Ruling} (hs : s ∈ rulings) : ¬ s.encloses tree p := by
  intro he
  obtain ⟨before, after, hcontent, hlow, hhigh⟩ := p.within_infix range
  have hlow := hlow hne
  have hpos : 0 < (p.within range).length := List.length_pos_iff.mpr hne
  have hlength := congrArg List.length hcontent
  simp only [List.length_append] at hlength hhigh
  have hdeleted : covered s.deleted (p.start + before.length) = true :=
    s.covered_of_encloses hmem he (by omega)
  have hkept : covered (deletedBy rulings) (p.start + before.length) = false :=
    uncovered_of_branch hd hp hr hb hlow (by omega)
  rw [covered, deletedBy, List.any_flatMap, List.any_eq_false] at hkept
  exact hkept s hs hdeleted

/-- **When a passage with text of a kept branch stays.** -/
lemma mem_survivors_of_within {p : Passage} (hmem : p ∈ passages tree)
    (hne : p.within range ≠ []) (hborders : ¬ r.Borders p) :
    p ∈ survivors tree rulings ↔
      ¬ (∃ s ∈ rulings, s ≠ r ∧ s.takes p) ∧ ¬ p.IsEmptied rulings := by
  rw [mem_survivors, Passage.Gone, Passage.IsEmptied, ← not_or]
  simp only [hmem, true_and]
  refine not_congr ?_
  constructor
  · rintro ⟨hroot, ⟨s, hs, htakes⟩ | ⟨s, hs, hencloses⟩ | hemptied⟩
    · refine Or.inl ⟨s, hs, ?_, htakes⟩
      rintro rfl
      exact hborders htakes.borders
    · exact absurd hencloses (not_encloses_of_within hd hp hr hb hmem hne hs)
    · exact Or.inr ⟨hroot, hemptied⟩
  · rintro (⟨s, hs, -, htakes⟩ | ⟨hroot, hemptied⟩)
    · exact ⟨(hp s hs).place_ne_nil_of_takes hmem htakes, Or.inl ⟨s, hs, htakes⟩⟩
    · exact ⟨hroot, Or.inr (Or.inr hemptied)⟩

end

/-- **What sections leave of each other.**  A pass cuts nothing out of a branch that one of its
sections keeps: in every paragraph, the text of the branch stands in one piece in what is left of
the paragraph.  If the section does not itself lose a branch that begins or ends in the paragraph,
the paragraph stays, with two exceptions: it goes if another section takes it, as a boundary
paragraph of a longer lost span in which that section keeps no marker, and it goes if it lost text
and has nothing to show any more. -/
theorem resolvePass_keeps_branches {tree next : Node} {data : Value} {count : Nat}
    (h : resolvePass tree data = .ok (next, count)) (hcount : 0 < count) :
    ∃ rulings : List Ruling, Decides tree data rulings ∧ rulings.length = count
      ∧ next.leaves.map Leaf.node = (survivors tree rulings).map (Passage.remainder rulings)
      ∧ ∀ r ∈ rulings, ∀ range, r.branch? = some range → ∀ p ∈ passages tree,
        p.within range <:+: (p.remainder rulings).content
          ∧ (p.within range ≠ [] → ¬ r.Borders p →
            (p ∈ survivors tree rulings ↔
              ¬ (∃ s ∈ rulings, s ≠ r ∧ s.takes p) ∧ ¬ p.IsEmptied rulings)) := by
  obtain ⟨rulings, hdecides, hplaced, hlength, rfl⟩ := exists_rulings h hcount
  refine ⟨rulings, hdecides, hlength, leaves_edit_rulings hplaced, ?_⟩
  intro r hr range hb p hmem
  refine ⟨within_infix_remainder hdecides hplaced hr hb p, ?_⟩
  intro hne hborders
  exact mem_survivors_of_within hdecides hplaced hr hb hmem hne hborders

/-- A paragraph shared by two sections that both keep something in it stays. -/
theorem resolvePass_keeps_branches_shared :
    let tree := plainBody ["@if:a@x", "y@endif@@if:b@kept@else@", "lost@endif@"]
    let next := plainBody ["x", "ykept"]
    let data := flags [("a", true), ("b", true)]
    resolvePass tree data = .ok (next, 2) ∧ 0 < 2
      ∧ ∃ rulings : List Ruling, Decides tree data rulings ∧ rulings.length = 2
        ∧ next.leaves.map Leaf.node = (survivors tree rulings).map (Passage.remainder rulings)
        ∧ ∀ r ∈ rulings, ∀ range, r.branch? = some range → ∀ p ∈ passages tree,
          p.within range <:+: (p.remainder rulings).content
            ∧ (p.within range ≠ [] → ¬ r.Borders p →
              (p ∈ survivors tree rulings ↔
                ¬ (∃ s ∈ rulings, s ≠ r ∧ s.takes p) ∧ ¬ p.IsEmptied rulings)) := by
  intro tree next data
  have hpass : resolvePass tree data = .ok (next, 2) := by decide +kernel
  exact ⟨hpass, by decide, resolvePass_keeps_branches hpass (by decide)⟩

/-- The first section is lost and takes the paragraph of its closing marker, in which the second
section stands with the branch that it keeps. -/
theorem resolvePass_loses_kept_branch :
    let tree := plainBody ["@if:a@gone", "@endif@@if:b@kept@endif@"]
    let data := flags [("a", false), ("b", true)]
    resolvePass tree data = .ok (plainBody [], 2)
      ∧ ∃ rulings : List Ruling, Decides tree data rulings
        ∧ ∃ r ∈ rulings, ∃ range, r.branch? = some range
          ∧ ∃ p ∈ passages tree, p.within range = "kept".toList ∧ ¬ r.Borders p := by
  intro tree data
  let first : Ruling :=
    ⟨⟨⟨0, "@if:a@".toList⟩, .ofPath ["a".toList], none, ⟨11, "@endif@".toList⟩⟩, false⟩
  let second : Ruling :=
    ⟨⟨⟨18, "@if:b@".toList⟩, .ofPath ["b".toList], none, ⟨28, "@endif@".toList⟩⟩, true⟩
  have hdecides : Decides tree data [first, second] := by
    refine ⟨by decide +kernel, ?_⟩
    simp only [List.forall_mem_cons, List.not_mem_nil, false_implies, implies_true, and_true]
    exact ⟨by decide +kernel, by decide +kernel⟩
  have hpassage : (passages tree)[1]? = some ⟨⟨[1], tree.leaves[1].node⟩, 11⟩ := by rfl
  refine ⟨by decide +kernel, [first, second], hdecides, second, by simp, ⟨24, 28⟩, rfl, _,
    List.mem_of_getElem? hpassage, by rfl, ?_⟩
  rintro ⟨_, _, hlost, -⟩
  simp [second, Ruling.lost?] at hlost

end FormLetter
