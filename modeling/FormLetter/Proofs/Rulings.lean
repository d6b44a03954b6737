import FormLetter.Proofs.Editing
import FormLetter.Proofs.Locating

/-!
# What a decision about a section means for the flat text

A section whose condition has been decided is a `Ruling`.  In terms of the flat text it is easily
said what goes: everything from the first to the last marker around the losing branch, and the
remaining markers.  In terms of the tree it is a list of edits, made from sites, siblings and cuts
relative to paragraphs.  This file shows that the two say the same of every passage.

* `Ruling.lost?`, `Ruling.stripped`, `Ruling.deleted` — what goes, as ranges of the flat text.
* `Ruling.takes`, `Ruling.encloses` — the passages that go as a whole: boundary paragraphs of a
  lost span that share no kept marker, and everything strictly between them.
* `removesAt_edits` — these are the passages that the edits remove.
* `covered_cutsAt_edits` — from any other passage the edits cut exactly what the ruling deletes.
-/

namespace FormLetter

/-- An outermost section with the decision about its condition. -/
structure Ruling where
  block : Block
  holds : Bool

/-- The positions that a marker takes up. -/
def Occurrence.range (m : Occurrence) : Range := ⟨m.start, m.stop⟩

namespace Ruling

/-- The first and the last marker around the losing branch, if there is one. -/
def lost? (r : Ruling) : Option (Occurrence × Occurrence) :=
  match r.holds, r.block.alternative with
  | true, none => none
  | true, some alternative => some (alternative, r.block.closing)
  | false, none => some (r.block.opening, r.block.closing)
  | false, some alternative => some (r.block.opening, alternative)

/-- The other markers, which are taken out of what is kept. -/
def stripped (r : Ruling) : List Occurrence :=
  match r.holds, r.block.alternative with
  | true, none => [r.block.opening, r.block.closing]
  | true, some _ => [r.block.opening]
  | false, none => []
  | false, some _ => [r.block.closing]

/-- The ranges of the flat text that go. -/
def deleted (r : Ruling) : List Range :=
  r.stripped.map Occurrence.range
    ++ (r.lost?.map fun (first, last) => ⟨first.start, last.stop⟩).toList

lemma covered_deleted {r : Ruling} {position : Nat} :
    covered r.deleted position = true ↔
      (∃ m ∈ r.stripped, m.start ≤ position ∧ position < m.stop)
        ∨ ∃ first last, r.lost? = some (first, last)
          ∧ first.start ≤ position ∧ position < last.stop := by
  rw [covered_eq_true, deleted]
  cases hl : r.lost? with
  | none => simp [Occurrence.range]
  | some span =>
      obtain ⟨first, last⟩ := span
      simp [Occurrence.range, or_and_right, exists_or, and_assoc]

lemma stripped_subset (r : Ruling) : ∀ m ∈ r.stripped, m ∈ r.block.occurrences := by
  rcases r with ⟨⟨o, c, alternative, e⟩, holds⟩
  cases holds <;> cases alternative <;> simp [stripped, Block.occurrences]

lemma mem_of_lost? {r : Ruling} {first last : Occurrence} (h : r.lost? = some (first, last)) :
    first ∈ r.block.occurrences ∧ last ∈ r.block.occurrences := by
  rcases r with ⟨⟨o, c, alternative, e⟩, holds⟩
  cases holds <;> cases alternative <;> simp [lost?] at h <;> simp [Block.occurrences, h]

/-! ## The edits of a ruling -/

/-- The edits that carry out the ruling. -/
def edits (tree : Node) (r : Ruling) : List Edit := ((r.block.sited tree).select r.holds).edits

lemma select_sited (tree : Node) (r : Ruling) :
    (r.block.sited tree).select r.holds
      = ⟨r.lost?.map fun (first, last) => (homeSite tree first, homeSite tree last),
          r.stripped.map (homeSite tree)⟩ := by
  rcases r with ⟨⟨o, c, alternative, e⟩, holds⟩
  cases holds <;> cases alternative <;> rfl

/-- Whether a kept marker of the ruling stands in the paragraph of a given one. -/
def shares (tree : Node) (r : Ruling) (m : Occurrence) : Prop :=
  ∃ n ∈ r.stripped, (home tree n).place = (home tree m).place

lemma shares_iff_any {tree : Node} {r : Ruling} {m : Occurrence} :
    r.shares tree m ↔
      (r.stripped.map (homeSite tree)).any (·.place == (homeSite tree m).place) = true := by
  simp [shares, homeSite, Passage.site]

/-- At an end of the lost span the text is cut if the paragraph is shared. -/
lemma cut_eq_boundaryEdit {tree : Node} {r : Ruling} {m : Occurrence} {place : Place}
    {range lost : Range} :
    .cut place range = boundaryEdit (r.stripped.map (homeSite tree)) (homeSite tree m) lost
      ↔ r.shares tree m ∧ place = (home tree m).place ∧ range = lost := by
  rw [boundaryEdit]
  split
  · next hany =>
      simp [shares_iff_any.mpr hany, homeSite, Passage.site]
  · next hany =>
      simp [mt shares_iff_any.mp hany]

/-- At an end of the lost span the paragraph goes if it is not shared. -/
lemma remove_eq_boundaryEdit {tree : Node} {r : Ruling} {m : Occurrence} {place : Place}
    {lost : Range} :
    .remove place = boundaryEdit (r.stripped.map (homeSite tree)) (homeSite tree m) lost
      ↔ ¬ r.shares tree m ∧ place = (home tree m).place := by
  rw [boundaryEdit]
  split
  · next hany =>
      simp [shares_iff_any.mpr hany]
  · next hany =>
      simp [mt shares_iff_any.mp hany, homeSite, Passage.site]

/-- The edits of a ruling: a cut for each kept marker, and for the lost span one cut if it lies
within a paragraph, otherwise an edit for either end and the siblings between them. -/
lemma mem_edits {tree : Node} {r : Ruling} {edit : Edit} :
    edit ∈ r.edits tree ↔
      (∃ m ∈ r.stripped, edit = .cut (home tree m).place (homeSite tree m).range)
        ∨ ∃ first last, r.lost? = some (first, last) ∧
          ((home tree first).place = (home tree last).place
              ∧ edit = .cut (home tree first).place
                  ⟨(homeSite tree first).range.low, (homeSite tree last).range.high⟩
            ∨ (home tree first).place ≠ (home tree last).place ∧
              (edit = boundaryEdit (r.stripped.map (homeSite tree)) (homeSite tree first)
                    ⟨(homeSite tree first).range.low, (homeSite tree first).length⟩
                ∨ edit = boundaryEdit (r.stripped.map (homeSite tree)) (homeSite tree last)
                    ⟨0, (homeSite tree last).range.high⟩
                ∨ ∃ place ∈ placesBetween (home tree first).place (home tree last).place,
                    edit = .remove place)) := by
  have hcuts : edit ∈ (r.stripped.map (homeSite tree)).map (fun site => .cut site.place site.range)
      ↔ ∃ m ∈ r.stripped, edit = .cut (home tree m).place (homeSite tree m).range := by
    rw [List.map_map, List.mem_map]
    exact exists_congr fun m => and_congr_right fun _ => eq_comm
  rw [edits, select_sited, Selection.edits]
  cases hl : r.lost? with
  | none => simp only [Option.map_none, hcuts, reduceCtorEq, false_and, exists_false, or_false]
  | some span =>
      obtain ⟨first, last⟩ := span
      simp only [Option.map_some, List.mem_append, hcuts, Option.some.injEq, Prod.mk.injEq]
      refine or_congr Iff.rfl ⟨fun h => ⟨first, last, ⟨rfl, rfl⟩, ?_⟩, ?_⟩
      · split at h
        · next hsame => exact Or.inl ⟨hsame, List.mem_singleton.mp h⟩
        · next hdiff =>
            rw [List.mem_cons, List.mem_cons, List.mem_map] at h
            rcases h with h | h | ⟨place, hp, h⟩
            · exact Or.inr ⟨hdiff, Or.inl h⟩
            · exact Or.inr ⟨hdiff, Or.inr (Or.inl h)⟩
            · exact Or.inr ⟨hdiff, Or.inr (Or.inr ⟨place, hp, h.symm⟩)⟩
      · rintro ⟨_, _, ⟨rfl, rfl⟩, ⟨hsame, rfl⟩ | ⟨hdiff, h⟩⟩
        · rw [if_pos (by exact hsame)]
          exact List.mem_singleton_self _
        · rw [if_neg (by exact hdiff), List.mem_cons, List.mem_cons, List.mem_map]
          rcases h with h | h | ⟨place, hp, h⟩
          · exact Or.inl h
          · exact Or.inr (Or.inl h)
          · exact Or.inr (Or.inr ⟨place, hp, h.symm⟩)

/-- The cuts of a ruling: its kept markers; a lost span within one paragraph; of a longer one the
ends that share a paragraph with a kept marker. -/
lemma cut_mem_edits {tree : Node} {r : Ruling} {place : Place} {range : Range} :
    .cut place range ∈ r.edits tree ↔
      (∃ m ∈ r.stripped, place = (home tree m).place ∧ range = (homeSite tree m).range)
        ∨ ∃ first last, r.lost? = some (first, last) ∧
          ((home tree first).place = (home tree last).place ∧ place = (home tree first).place
              ∧ range = ⟨(homeSite tree first).range.low, (homeSite tree last).range.high⟩
            ∨ (home tree first).place ≠ (home tree last).place ∧
              (r.shares tree first ∧ place = (home tree first).place
                  ∧ range = ⟨(homeSite tree first).range.low, (homeSite tree first).length⟩
                ∨ r.shares tree last ∧ place = (home tree last).place
                  ∧ range = ⟨0, (homeSite tree last).range.high⟩)) := by
  simp only [mem_edits, cut_eq_boundaryEdit, Edit.cut.injEq, reduceCtorEq, and_false, exists_false,
    or_false]

/-- What a ruling removes: ends of a longer lost span that share no paragraph with a kept marker,
and the siblings between them. -/
lemma remove_mem_edits {tree : Node} {r : Ruling} {place : Place} :
    .remove place ∈ r.edits tree ↔
      ∃ first last, r.lost? = some (first, last)
        ∧ (home tree first).place ≠ (home tree last).place
        ∧ (¬ r.shares tree first ∧ place = (home tree first).place
          ∨ ¬ r.shares tree last ∧ place = (home tree last).place
          ∨ place ∈ placesBetween (home tree first).place (home tree last).place) := by
  simp only [mem_edits, remove_eq_boundaryEdit, Edit.remove.injEq, reduceCtorEq, and_false,
    exists_false, false_or, exists_eq_right']

end Ruling

/-! ## Siblings between two places -/

/-- The place lies at or below a child of one parent strictly between two others. -/
def Between (a b place : Place) : Prop :=
  ∃ parent i k j rest, i < k ∧ k < j ∧ a = parent ++ [i] ∧ b = parent ++ [j]
    ∧ place = parent ++ k :: rest

lemma mem_placesBetween {parent place : Place} {i j : Nat} :
    place ∈ placesBetween (parent ++ [i]) (parent ++ [j]) ↔
      ∃ k, i < k ∧ k < j ∧ place = parent ++ [k] := by
  simp only [placesBetween, List.getLastD_concat, List.dropLast_concat, List.mem_map,
    List.mem_range'_1]
  constructor
  · rintro ⟨k, hk, rfl⟩
    exact ⟨k, by omega, by omega, rfl⟩
  · rintro ⟨k, hik, hkj, rfl⟩
    exact ⟨k, by omega, rfl⟩

/-! ## Placed rulings -/

/-- A ruling on a section that was found in the flat text of the tree and located. -/
structure Ruling.Placed (tree : Node) (r : Ruling) : Prop where
  located : r.block.Located tree
  ordered : r.block.occurrences.Pairwise fun a b => a.stop ≤ b.start
  nonempty : ∀ m ∈ r.block.occurrences, m.start < m.stop

namespace Ruling

/-- The passage is a boundary paragraph of the lost span, the span covers more than one paragraph,
and no kept marker of the section shares the passage. -/
def takes (r : Ruling) (p : Passage) : Prop :=
  ∃ first last, r.lost? = some (first, last) ∧ p.holds first ≠ p.holds last
    ∧ ∀ m ∈ r.stripped, p.holds m = false

/-- The passage is, or lies below, a sibling strictly between the two boundary paragraphs of the
lost span. -/
def encloses (tree : Node) (r : Ruling) (p : Passage) : Prop :=
  ∃ first last, r.lost? = some (first, last)
    ∧ ∃ a ∈ passages tree, ∃ b ∈ passages tree, a.holds first = true ∧ b.holds last = true
      ∧ Between a.place b.place p.place

namespace Placed

variable {tree : Node} {r : Ruling} (h : r.Placed tree)

include h

lemma order_of_lost? {first last : Occurrence} (hl : r.lost? = some (first, last)) :
    first.stop ≤ last.start := by
  have hord := h.ordered
  rcases r with ⟨⟨o, c, alternative, e⟩, holds⟩
  cases holds <;> cases alternative <;> simp [lost?] at hl
  all_goals
    obtain ⟨rfl, rfl⟩ := hl
    simp [Block.occurrences] at hord
    omega

lemma holds_iff {p : Passage} (hp : p ∈ passages tree) {m : Occurrence}
    (hm : m ∈ r.block.occurrences) : p.holds m = true ↔ home tree m = p := by
  constructor
  · exact eq_home hp
  · rintro rfl
    exact h.located.holds m hm

lemma home_eq_of_place {p : Passage} (hp : p ∈ passages tree) {m : Occurrence}
    (hm : m ∈ r.block.occurrences) (hplace : (home tree m).place <+: p.place) :
    home tree m = p :=
  eq_of_place_leads (h.located.home_mem m hm) hp hplace

lemma bounds {m : Occurrence} (hm : m ∈ r.block.occurrences) :
    (home tree m).start ≤ m.start ∧ m.start < m.stop ∧ m.stop ≤ (home tree m).stop := by
  obtain ⟨hlow, hhigh⟩ := Passage.holds_eq_true.mp (h.located.holds m hm)
  exact ⟨hlow, h.nonempty m hm, hhigh⟩

lemma shares_iff {m : Occurrence} (hm : m ∈ r.block.occurrences) :
    r.shares tree m ↔ ∃ n ∈ r.stripped, (home tree m).holds n = true := by
  have hmem := h.located.home_mem m hm
  constructor
  · rintro ⟨n, hn, hplace⟩
    have hn' := r.stripped_subset n hn
    have heq := h.home_eq_of_place hmem hn' (hplace ▸ List.prefix_refl _)
    exact ⟨n, hn, (h.holds_iff hmem hn').mpr heq⟩
  · rintro ⟨n, hn, hholds⟩
    have heq := (h.holds_iff hmem (r.stripped_subset n hn)).mp hholds
    exact ⟨n, hn, by rw [heq]⟩

/-- A lost span of more than one paragraph ends in two children of one parent, the first of which
comes before the second. -/
lemma siblings_of_lost? {first last : Occurrence} (hl : r.lost? = some (first, last))
    (hdiff : (home tree first).place ≠ (home tree last).place) :
    (home tree first).stop < (home tree last).start ∧ ∃ parent i j, i < j
      ∧ (home tree first).place = parent ++ [i] ∧ (home tree last).place = parent ++ [j] := by
  obtain ⟨hf, hla⟩ := mem_of_lost? hl
  have horder := h.order_of_lost? hl
  have hfb := h.bounds hf
  have hlb := h.bounds hla
  have hboth : (home tree first).stop < (home tree last).start
      ∧ Precedes (home tree first).place (home tree last).place := by
    rcases passages_cases (h.located.home_mem first hf) (h.located.home_mem last hla)
      with heq | hlt | ⟨hgt, -⟩
    · exact absurd (by rw [heq]) hdiff
    · exact hlt
    · omega
  refine ⟨hboth.1, ?_⟩
  rcases h.located.neighbours with hone | ⟨parent, hparent⟩
  · exact absurd (hone _ (List.mem_map_of_mem hf) _ (List.mem_map_of_mem hla)) hdiff
  · obtain ⟨i, hi⟩ := hparent _ (List.mem_map_of_mem hf)
    obtain ⟨j, hj⟩ := hparent _ (List.mem_map_of_mem hla)
    refine ⟨parent, i, j, ?_, hi, hj⟩
    have := hboth.2
    rwa [hi, hj, precedes_siblings] at this

/-- A ruling takes the ends of a longer lost span, each unless it shares its paragraph with a kept
marker. -/
lemma takes_iff {p : Passage} (hp : p ∈ passages tree) :
    r.takes p ↔ ∃ first last, r.lost? = some (first, last)
      ∧ (home tree first).place ≠ (home tree last).place
      ∧ (¬ r.shares tree first ∧ home tree first = p
        ∨ ¬ r.shares tree last ∧ home tree last = p) := by
  constructor
  · rintro ⟨first, last, hl, hne, hkept⟩
    obtain ⟨hf, hla⟩ := mem_of_lost? hl
    have hunshared : ∀ m ∈ r.block.occurrences, home tree m = p → ¬ r.shares tree m := by
      intro m hm hhome
      rw [h.shares_iff hm, hhome]
      rintro ⟨n, hn, hholds⟩
      exact Bool.noConfusion ((hkept n hn).symm.trans hholds)
    have hdiff : (home tree first).place ≠ (home tree last).place := by
      intro hsame
      have heq := h.home_eq_of_place (h.located.home_mem last hla) hf (hsame ▸ List.prefix_refl _)
      refine hne (Bool.eq_iff_iff.mpr ?_)
      rw [h.holds_iff hp hf, h.holds_iff hp hla, heq]
    refine ⟨first, last, hl, hdiff, ?_⟩
    cases hpf : p.holds first with
    | true =>
        have hhome := (h.holds_iff hp hf).mp hpf
        exact Or.inl ⟨hunshared first hf hhome, hhome⟩
    | false =>
        rw [hpf] at hne
        have hpl : p.holds last = true := eq_true_of_ne_false fun heq => hne heq.symm
        have hhome := (h.holds_iff hp hla).mp hpl
        exact Or.inr ⟨hunshared last hla hhome, hhome⟩
  · rintro ⟨first, last, hl, hdiff, hcase⟩
    obtain ⟨hf, hla⟩ := mem_of_lost? hl
    have hkept : ∀ m ∈ r.block.occurrences, ¬ r.shares tree m →
        ∀ n ∈ r.stripped, (home tree m).holds n = false := by
      intro m hm hs n hn
      exact Bool.eq_false_iff.mpr fun hholds => hs ((h.shares_iff hm).mpr ⟨n, hn, hholds⟩)
    rcases hcase with ⟨hs, rfl⟩ | ⟨hs, rfl⟩
    · refine ⟨first, last, hl, fun heq => hdiff ?_, hkept first hf hs⟩
      rw [h.located.holds first hf] at heq
      rw [(h.holds_iff hp hla).mp heq.symm]
    · refine ⟨first, last, hl, fun heq => hdiff ?_, hkept last hla hs⟩
      rw [h.located.holds last hla] at heq
      rw [(h.holds_iff hp hf).mp heq]

/-- A ruling encloses what lies at or below the siblings between the ends of a longer lost span. -/
lemma encloses_iff {p : Passage} :
    r.encloses tree p ↔ ∃ first last, r.lost? = some (first, last)
      ∧ (home tree first).place ≠ (home tree last).place
      ∧ ∃ place ∈ placesBetween (home tree first).place (home tree last).place,
          place <+: p.place := by
  constructor
  · rintro ⟨first, last, hl, a, ha, b, hb, haf, hbl, hbetween⟩
    obtain rfl := eq_home ha haf
    obtain rfl := eq_home hb hbl
    obtain ⟨parent, i, k, j, rest, hik, hkj, hi, hj, hplace⟩ := hbetween
    refine ⟨first, last, hl, ?_, parent ++ [k], ?_, rest, ?_⟩
    · rw [hi, hj]
      intro heq
      have hij : i = j := by simpa using heq
      omega
    · rw [hi, hj, mem_placesBetween]
      exact ⟨k, hik, hkj, rfl⟩
    · rw [hplace, List.append_assoc, List.singleton_append]
  · rintro ⟨first, last, hl, hdiff, place, hbetween, rest, hrest⟩
    obtain ⟨hf, hla⟩ := mem_of_lost? hl
    obtain ⟨-, parent, i, j, -, hi, hj⟩ := h.siblings_of_lost? hl hdiff
    rw [hi, hj, mem_placesBetween] at hbetween
    obtain ⟨k, hik, hkj, rfl⟩ := hbetween
    refine ⟨first, last, hl, _, h.located.home_mem first hf, _, h.located.home_mem last hla,
      h.located.holds first hf, h.located.holds last hla, ?_⟩
    refine ⟨parent, i, k, j, rest, hik, hkj, hi, hj, ?_⟩
    rw [← hrest, List.append_assoc, List.singleton_append]

/-- **The edits remove exactly the passages that the ruling takes or encloses.** -/
theorem removesAt_edits {p : Passage} (hp : p ∈ passages tree) :
    removesAt (r.edits tree) p.place = true ↔ r.takes p ∨ r.encloses tree p := by
  rw [removesAt_eq_true, h.takes_iff hp, h.encloses_iff]
  constructor
  · rintro ⟨place, hedit, hprefix⟩
    obtain ⟨first, last, hl, hdiff, hcase⟩ := remove_mem_edits.mp hedit
    obtain ⟨hf, hla⟩ := mem_of_lost? hl
    rcases hcase with ⟨hs, rfl⟩ | ⟨hs, rfl⟩ | hbetween
    · exact Or.inl ⟨first, last, hl, hdiff, Or.inl ⟨hs, h.home_eq_of_place hp hf hprefix⟩⟩
    · exact Or.inl ⟨first, last, hl, hdiff, Or.inr ⟨hs, h.home_eq_of_place hp hla hprefix⟩⟩
    · exact Or.inr ⟨first, last, hl, hdiff, place, hbetween, hprefix⟩
  · rintro (⟨first, last, hl, hdiff, hcase⟩ | ⟨first, last, hl, hdiff, place, hbetween, hprefix⟩)
    · refine ⟨p.place, remove_mem_edits.mpr ⟨first, last, hl, hdiff, ?_⟩, List.prefix_refl _⟩
      rcases hcase with ⟨hs, rfl⟩ | ⟨hs, rfl⟩
      · exact Or.inl ⟨hs, rfl⟩
      · exact Or.inr (Or.inl ⟨hs, rfl⟩)
    · refine ⟨place, remove_mem_edits.mpr ⟨first, last, hl, hdiff, ?_⟩, hprefix⟩
      exact Or.inr (Or.inr hbetween)

/-- A position of a passage that is deleted because of a marker in it belongs to the passage of that
marker. -/
lemma home_of_position {p : Passage} (hp : p ∈ passages tree) {m : Occurrence}
    (hm : m ∈ r.block.occurrences) {position : Nat} (hlow : p.start ≤ position)
    (hhigh : position < p.stop) (hin : (home tree m).start ≤ position)
    (hbefore : position < (home tree m).stop) : home tree m = p := by
  rcases passages_cases (h.located.home_mem m hm) hp with heq | ⟨hlt, -⟩ | ⟨hgt, -⟩
  · exact heq
  · omega
  · omega

/-- What the edits cut from a passage, the ruling deletes. -/
lemma covered_of_cut {p : Passage} (hp : p ∈ passages tree) {range : Range}
    (hedit : .cut p.place range ∈ r.edits tree) {i : Nat} (hi : i < p.node.content.length)
    (hlow : range.low ≤ i) (hhigh : i < range.high) :
    covered r.deleted (p.start + i) = true := by
  have hstop : p.start + i < p.stop := by
    rw [Passage.stop]
    omega
  rw [covered_deleted]
  rcases cut_mem_edits.mp hedit with ⟨m, hm, hplace, rfl⟩ | ⟨first, last, hl, hcase⟩
  · obtain rfl := h.home_eq_of_place hp (r.stripped_subset m hm) (hplace ▸ List.prefix_refl _)
    have hb := h.bounds (r.stripped_subset m hm)
    simp only [homeSite, Passage.site] at hlow hhigh
    exact Or.inl ⟨m, hm, by omega, by omega⟩
  · obtain ⟨hf, hla⟩ := mem_of_lost? hl
    have hfb := h.bounds hf
    have hlb := h.bounds hla
    rcases hcase with ⟨hsame, hplace, rfl⟩ | ⟨hdiff, ⟨-, hplace, rfl⟩ | ⟨-, hplace, rfl⟩⟩
    · obtain rfl := h.home_eq_of_place hp hf (hplace ▸ List.prefix_refl _)
      have hlast := h.home_eq_of_place hp hla (hsame ▸ List.prefix_refl _)
      simp only [homeSite, Passage.site, hlast] at hlow hhigh hlb
      exact Or.inr ⟨first, last, hl, by omega, by omega⟩
    · obtain rfl := h.home_eq_of_place hp hf (hplace ▸ List.prefix_refl _)
      have hsep := (h.siblings_of_lost? hl hdiff).1
      simp only [homeSite, Passage.site] at hlow hhigh
      exact Or.inr ⟨first, last, hl, by omega, by omega⟩
    · obtain rfl := h.home_eq_of_place hp hla (hplace ▸ List.prefix_refl _)
      have hsep := (h.siblings_of_lost? hl hdiff).1
      simp only [homeSite, Passage.site] at hlow hhigh
      exact Or.inr ⟨first, last, hl, by omega, by omega⟩

/-- A passage that holds a position of the lost span and stays is one of its ends, and a longer span
shares that end with a kept marker. -/
lemma end_of_span {p : Passage} (hp : p ∈ passages tree) (htakes : ¬ r.takes p)
    (hencloses : ¬ r.encloses tree p) {first last : Occurrence}
    (hl : r.lost? = some (first, last)) {position : Nat} (hin : p.start ≤ position)
    (hout : position < p.stop) (hlow : first.start ≤ position) (hhigh : position < last.stop) :
    (home tree first).place = (home tree last).place ∧ home tree first = p
      ∨ (home tree first).place ≠ (home tree last).place
        ∧ (r.shares tree first ∧ home tree first = p
          ∨ r.shares tree last ∧ home tree last = p) := by
  obtain ⟨hf, hla⟩ := mem_of_lost? hl
  have hfb := h.bounds hf
  have hlb := h.bounds hla
  by_cases hsame : (home tree first).place = (home tree last).place
  · have hone := h.home_eq_of_place (h.located.home_mem last hla) hf (hsame ▸ List.prefix_refl _)
    exact Or.inl ⟨hsame, h.home_of_position hp hf hin hout (by omega) (by rw [hone]; omega)⟩
  · refine Or.inr ⟨hsame, ?_⟩
    rw [h.takes_iff hp] at htakes
    obtain ⟨hsep, parent, a, b, -, ha, hb⟩ := h.siblings_of_lost? hl hsame
    -- the passage is one of the two ends, or between them, since the position is
    rcases passages_cases (h.located.home_mem first hf) hp with heq | ⟨hafter, hpa⟩ | ⟨hlt, -⟩
    · refine Or.inl ⟨?_, heq⟩
      by_contra hs
      exact htakes ⟨first, last, hl, hsame, Or.inl ⟨hs, heq⟩⟩
    · rcases passages_cases (h.located.home_mem last hla) hp
        with heq | ⟨hlt, -⟩ | ⟨hbefore, hpb⟩
      · refine Or.inr ⟨?_, heq⟩
        by_contra hs
        exact htakes ⟨first, last, hl, hsame, Or.inr ⟨hs, heq⟩⟩
      · omega
      · rw [ha] at hpa
        rw [hb] at hpb
        obtain ⟨k, rest, hak, hkb, hplace⟩ := Precedes.between hpa hpb
        refine absurd (h.encloses_iff.mpr ⟨first, last, hl, hsame, parent ++ [k], ?_, rest, ?_⟩)
          hencloses
        · rw [ha, hb, mem_placesBetween]
          exact ⟨k, hak, hkb, rfl⟩
        · rw [hplace, List.append_assoc, List.singleton_append]
    · omega

/-- What the ruling deletes from a passage that stays, the edits cut. -/
lemma cut_of_covered {p : Passage} (hp : p ∈ passages tree) (htakes : ¬ r.takes p)
    (hencloses : ¬ r.encloses tree p) {i : Nat} (hi : i < p.node.content.length)
    (hcovered : covered r.deleted (p.start + i) = true) :
    ∃ range, .cut p.place range ∈ r.edits tree ∧ range.low ≤ i ∧ i < range.high := by
  have hstop : p.start + i < p.stop := by
    rw [Passage.stop]
    omega
  rcases covered_deleted.mp hcovered with ⟨m, hm, hlow, hhigh⟩ | ⟨first, last, hl, hlow, hhigh⟩
  · have hmem := r.stripped_subset m hm
    have hb := h.bounds hmem
    obtain rfl := h.home_of_position hp hmem (Nat.le_add_right _ _) hstop (by omega) (by omega)
    refine ⟨_, cut_mem_edits.mpr (Or.inl ⟨m, hm, rfl, rfl⟩), ?_, ?_⟩
    all_goals
      simp only [homeSite, Passage.site]
      omega
  · obtain ⟨hf, hla⟩ := mem_of_lost? hl
    have hfb := h.bounds hf
    have hlb := h.bounds hla
    rcases h.end_of_span hp htakes hencloses hl (Nat.le_add_right _ _) hstop hlow hhigh
      with ⟨hsame, rfl⟩ | ⟨hdiff, ⟨hs, rfl⟩ | ⟨hs, rfl⟩⟩
    · have hone := h.home_eq_of_place (h.located.home_mem last hla) hf (hsame ▸ List.prefix_refl _)
      refine ⟨_, cut_mem_edits.mpr (Or.inr ⟨first, last, hl, Or.inl ⟨hsame, rfl, rfl⟩⟩), ?_, ?_⟩
      · simp only [homeSite, Passage.site]
        omega
      · simp only [homeSite, Passage.site, ← hone]
        omega
    · refine ⟨_, cut_mem_edits.mpr
        (Or.inr ⟨first, last, hl, Or.inr ⟨hdiff, Or.inl ⟨hs, rfl, rfl⟩⟩⟩), ?_, hi⟩
      simp only [homeSite, Passage.site]
      omega
    · refine ⟨_, cut_mem_edits.mpr
        (Or.inr ⟨first, last, hl, Or.inr ⟨hdiff, Or.inr ⟨hs, rfl, rfl⟩⟩⟩), Nat.zero_le _, ?_⟩
      simp only [homeSite, Passage.site]
      omega

/-- **From a passage that stays, the edits cut what the ruling deletes:** the cuts count from the
start of the passage, the deleted ranges from the start of the flat text. -/
theorem covered_cutsAt_edits {p : Passage} (hp : p ∈ passages tree) (htakes : ¬ r.takes p)
    (hencloses : ¬ r.encloses tree p) {i : Nat} (hi : i < p.node.content.length) :
    covered (cutsAt (r.edits tree) p.place) i = covered r.deleted (p.start + i) := by
  rw [Bool.eq_iff_iff, covered_eq_true]
  simp only [mem_cutsAt]
  constructor
  · rintro ⟨range, hedit, hlow, hhigh⟩
    exact h.covered_of_cut hp hedit hi hlow hhigh
  · intro hcovered
    exact h.cut_of_covered hp htakes hencloses hi hcovered

/-- Each cut of a ruling deletes something: it covers a position of its paragraph. -/
lemma exists_covered {p : Passage} (hp : p ∈ passages tree) {range : Range}
    (hr : range ∈ cutsAt (r.edits tree) p.place) :
    ∃ i < p.node.content.length, range.covers i = true := by
  have hcovers : ∀ i, range.low ≤ i → i < range.high → range.covers i = true := fun i hl hh => by
    simp [Range.covers, hl, hh]
  have hlow : range.low < range.high ∧ range.low < p.node.content.length := by
    rcases cut_mem_edits.mp (mem_cutsAt.mp hr) with ⟨m, hm, hplace, rfl⟩ | ⟨first, last, hl, hcase⟩
    · have hmem := r.stripped_subset m hm
      obtain rfl := h.home_eq_of_place hp hmem (hplace ▸ List.prefix_refl _)
      have hb := h.bounds hmem
      simp only [homeSite, Passage.site, Passage.stop] at hb ⊢
      omega
    · obtain ⟨hf, hla⟩ := mem_of_lost? hl
      have hfb := h.bounds hf
      have hlb := h.bounds hla
      have horder := h.order_of_lost? hl
      rcases hcase with ⟨hsame, hplace, rfl⟩ | ⟨hdiff, ⟨-, hplace, rfl⟩ | ⟨-, hplace, rfl⟩⟩
      · obtain rfl := h.home_eq_of_place hp hf (hplace ▸ List.prefix_refl _)
        have hlast := h.home_eq_of_place hp hla (hsame ▸ List.prefix_refl _)
        simp only [homeSite, Passage.site, Passage.stop, hlast] at hfb hlb ⊢
        omega
      · obtain rfl := h.home_eq_of_place hp hf (hplace ▸ List.prefix_refl _)
        simp only [homeSite, Passage.site, Passage.stop] at hfb ⊢
        omega
      · obtain rfl := h.home_eq_of_place hp hla (hplace ▸ List.prefix_refl _)
        simp only [homeSite, Passage.site, Passage.stop] at hlb ⊢
        omega
  exact ⟨range.low, hlow.2, hcovers _ (Nat.le_refl _) hlow.1⟩

/-- The edits of a ruling reach leaves only. -/
lemma fits_edits : Edit.Fits (r.edits tree) tree.leaves := by
  have hleaf : ∀ m ∈ r.block.occurrences, (home tree m).toLeaf ∈ tree.leaves :=
    fun m hm => mem_leaves_iff.mpr ⟨_, h.located.home_mem m hm, rfl⟩
  have hprefix : ∀ m ∈ r.block.occurrences, ∀ leaf ∈ tree.leaves,
      leaf.place <+: (home tree m).place → leaf.place = (home tree m).place := by
    intro m hm leaf hl hp
    obtain ⟨q, hq, rfl⟩ := mem_leaves_iff.mp hl
    rw [eq_of_place_leads hq (h.located.home_mem m hm) hp]
  constructor
  · intro place range hedit
    have hat : ∃ m ∈ r.block.occurrences, place = (home tree m).place := by
      rcases cut_mem_edits.mp hedit with ⟨m, hm, hplace, -⟩ | ⟨first, last, hl, hcase⟩
      · exact ⟨m, r.stripped_subset m hm, hplace⟩
      · obtain ⟨hf, hla⟩ := mem_of_lost? hl
        rcases hcase with ⟨-, hplace, -⟩ | ⟨-, ⟨-, hplace, -⟩ | ⟨-, hplace, -⟩⟩
        · exact ⟨first, hf, hplace⟩
        · exact ⟨first, hf, hplace⟩
        · exact ⟨last, hla, hplace⟩
    obtain ⟨m, hm, rfl⟩ := hat
    exact ⟨_, hleaf m hm, h.located.isParagraph m hm, rfl⟩
  · intro place hedit leaf hmem hp
    obtain ⟨first, last, hl, hdiff, hcase⟩ := remove_mem_edits.mp hedit
    obtain ⟨hf, hla⟩ := mem_of_lost? hl
    rcases hcase with ⟨-, rfl⟩ | ⟨-, rfl⟩ | hbetween
    · exact hprefix first hf leaf hmem hp
    · exact hprefix last hla leaf hmem hp
    · obtain ⟨-, parent, i, j, -, hi, hj⟩ := h.siblings_of_lost? hl hdiff
      rw [hi, hj, mem_placesBetween] at hbetween
      obtain ⟨k, -, -, rfl⟩ := hbetween
      rcases List.prefix_concat_iff.mp hp with heq | hparent
      · exact heq
      · -- a leaf at or above the parent would lead to the boundary paragraph
        have hlead : leaf.place <+: (home tree first).place := by
          rw [hi]
          exact hparent.trans (List.prefix_append _ _)
        have heq := hprefix first hf leaf hmem hlead
        have hlen := hparent.length_le
        rw [heq, hi, List.length_append, List.length_singleton] at hlen
        omega

lemma remove_root_not_mem_edits : .remove [] ∉ r.edits tree := by
  intro hedit
  obtain ⟨first, last, hl, hdiff, hcase⟩ := remove_mem_edits.mp hedit
  obtain ⟨-, parent, i, j, -, hi, hj⟩ := h.siblings_of_lost? hl hdiff
  rw [hi, hj, mem_placesBetween] at hcase
  rcases hcase with ⟨-, heq⟩ | ⟨-, heq⟩ | ⟨k, -, -, heq⟩
  all_goals simp at heq

end Placed

end Ruling

end FormLetter
