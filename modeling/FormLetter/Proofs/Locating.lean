import Mathlib.Data.List.TakeWhile
import FormLetter.Merge.Section
import FormLetter.Proofs.Outcomes
import FormLetter.Proofs.Passages

/-!
# Where the markers of a section stand

Pairing picks the markers of the outermost sections out of all markers of the flat text, and
locating finds the paragraph of each.

* **Order.** `pairFrom_occurrences` — the markers of the outermost sections, section by section, are
  a sublist of all markers; so they inherit their order and their bounds.
* **Search.** `segmentAt?_eq_getLast?` — halving finds the last segment that starts no later than a
  position, since segments start in ascending order.
* **Home.** `home` — the passage that holds a marker.  Passages do not overlap, so it is the only
  one (`eq_home`), and `site?_eq_some` says that the search among the segments finds it.
* **Alignment.** `Block.Located` — what a section that was located promises: its markers stand in
  paragraphs, and these are one paragraph or children of one parent.  `located_of_locate` and
  `locate_of_located` — locating succeeds exactly then.
-/

namespace FormLetter

/-! ## The markers of a section -/

/-- The markers of a section, in order. -/
def Block.occurrences (block : Block) : List Occurrence :=
  block.opening :: block.alternative.toList ++ [block.closing]

/-- The markers of a section that is still open, in order. -/
def OpenBlock.occurrences (block : OpenBlock) : List Occurrence :=
  block.opening :: block.alternative.toList

/-- The markers that a stack of open sections holds of an outermost one. -/
def pendingOccurrences (stack : List OpenBlock) : List Occurrence :=
  stack.getLast?.elim [] OpenBlock.occurrences

lemma pendingOccurrences_cons (block outer : OpenBlock) (stack : List OpenBlock) :
    pendingOccurrences (block :: outer :: stack) = pendingOccurrences (outer :: stack) := by
  simp [pendingOccurrences]

/-- **The markers of outermost sections are markers in their order.** -/
theorem pairFrom_occurrences {stack : List OpenBlock} {ms : List Marker} {blocks : List Block}
    (h : pairFrom stack ms = .ok blocks) :
    (blocks.flatMap Block.occurrences).Sublist
      (pendingOccurrences stack ++ ms.map Marker.here) := by
  fun_induction pairFrom stack ms generalizing blocks with
  | case1 stack hlast =>
      obtain rfl : [] = blocks := by simpa using h
      exact List.nil_sublist _
  | case2 stack outermost hlast => simp at h
  | case3 stack here condition rest ih =>
      refine (ih h).trans ?_
      cases stack with
      | nil => exact List.Sublist.refl _
      | cons outer stack =>
          rw [pendingOccurrences_cons]
          exact List.Sublist.append_left (List.sublist_cons_self _ _) _
  | case4 here rest => simp at h
  | case5 block stack here rest alternative halt => simp at h
  | case6 block stack here rest halt ih =>
      refine (ih h).trans ?_
      cases stack with
      | nil =>
          simp only [pendingOccurrences, List.getLast?_singleton, Option.elim_some,
            OpenBlock.occurrences, halt, Option.toList_none, Option.toList_some, List.map_cons,
            Marker.here, List.cons_append, List.nil_append]
          exact List.Sublist.refl _
      | cons outer stack =>
          rw [pendingOccurrences_cons, pendingOccurrences_cons]
          exact List.Sublist.append_left (List.sublist_cons_self _ _) _
  | case7 here rest => simp at h
  | case8 block here rest ih =>
      cases hrest : pairFrom [] rest with
      | error error => simp [hrest, Except.map] at h
      | ok others =>
          obtain rfl : block.close here :: others = blocks := by
            simpa [hrest, Except.map] using h
          have := ih hrest
          simpa [pendingOccurrences, Block.occurrences, OpenBlock.occurrences, OpenBlock.close,
            Marker.here] using this
  | case9 inner outer stack here rest ih =>
      refine (ih h).trans ?_
      rw [pendingOccurrences_cons]
      exact List.Sublist.append_left (List.sublist_cons_self _ _) _

lemma pair_occurrences {ms : List Marker} {blocks : List Block} (h : pair ms = .ok blocks) :
    (blocks.flatMap Block.occurrences).Sublist (ms.map Marker.here) :=
  pairFrom_occurrences h

lemma opening_mem_occurrences (block : Block) : block.opening ∈ block.occurrences := by
  simp [Block.occurrences]

lemma closing_mem_occurrences (block : Block) : block.closing ∈ block.occurrences := by
  simp [Block.occurrences]

lemma alternative_mem_occurrences {block : Block} {m : Occurrence} (h : m ∈ block.alternative) :
    m ∈ block.occurrences := by
  simp [Block.occurrences, Option.mem_def.mp h]

/-! ## The passage of a marker -/

/-- Whether the passage holds all of a stretch of the flat text. -/
def Passage.holds (p : Passage) (m : Occurrence) : Bool := p.start ≤ m.start && m.stop ≤ p.stop

lemma Passage.holds_eq_true {p : Passage} {m : Occurrence} :
    p.holds m = true ↔ p.start ≤ m.start ∧ m.stop ≤ p.stop := by
  simp [Passage.holds]

/-- The site of a marker that the passage holds. -/
def Passage.site (p : Passage) (m : Occurrence) : Site :=
  ⟨p.place, ⟨m.start - p.start, m.stop - p.start⟩, p.node.content.length⟩

/-- The passage that holds a marker; any passage will do for a stretch that none holds. -/
def home (tree : Node) (m : Occurrence) : Passage :=
  ((passages tree).find? (·.holds m)).getD ⟨⟨[], tree⟩, 0⟩

lemma Occurrence.start_le_stop (m : Occurrence) : m.start ≤ m.stop :=
  Nat.le_add_right _ _

/-- A marker stands in one passage only. -/
lemma eq_of_holds {tree : Node} {p q : Passage} {m : Occurrence} (hp : p ∈ passages tree)
    (hq : q ∈ passages tree) (hpm : p.holds m = true) (hqm : q.holds m = true) : p = q := by
  rw [Passage.holds_eq_true] at hpm hqm
  have hm := m.start_le_stop
  rcases passages_cases hp hq with h | ⟨h, -⟩ | ⟨h, -⟩
  · exact h
  · omega
  · omega

lemma eq_home {tree : Node} {p : Passage} {m : Occurrence} (hp : p ∈ passages tree)
    (hm : p.holds m = true) : home tree m = p := by
  rw [home]
  cases hf : (passages tree).find? (·.holds m) with
  | none => exact absurd hm (by simpa using List.find?_eq_none.mp hf p hp)
  | some q =>
      have hq : q.holds m = true :=
        List.find?_some (p := fun x : Passage => x.holds m) hf
      exact eq_of_holds (List.mem_of_find?_eq_some hf) hp hq hm

/-! ## Searching among the segments -/

/-- Halving finds how many numbers are at most the bound, if these are the first ones. -/
lemma countUpTo_eq {numbers : List Nat} {bound count low high : Nat}
    (h : ∀ i, i < numbers.length → (numbers.getD i 0 ≤ bound ↔ i < count)) (hlow : low ≤ count)
    (hhigh : count ≤ high) (hlength : high ≤ numbers.length) :
    countUpTo numbers bound low high = count := by
  fun_induction countUpTo numbers bound low high with
  | case1 low high hlt middle hless ih =>
      have hmiddle := h middle (by omega)
      exact ih hlow (by omega) (by omega)
  | case2 low high hlt middle hmore ih =>
      have hmiddle := h middle (by omega)
      exact ih (by omega) hhigh hlength
  | case3 low high hdone => omega

/-- In an ascending list, the numbers that are at most a bound are the first ones. -/
lemma getD_le_iff {numbers : List Nat} (h : numbers.Pairwise (· ≤ ·)) {bound i : Nat}
    (hi : i < numbers.length) :
    numbers.getD i 0 ≤ bound ↔ i < (numbers.takeWhile fun n => decide (n ≤ bound)).length := by
  induction numbers generalizing i with
  | nil => exact absurd hi (Nat.not_lt_zero i)
  | cons first rest ih =>
      obtain ⟨hfirst, hrest⟩ := List.pairwise_cons.mp h
      by_cases hle : first ≤ bound
      · rw [List.takeWhile_cons_of_pos (by simpa using hle), List.length_cons]
        cases i with
        | zero => simpa using hle
        | succ i =>
            rw [List.getD_cons_succ, Nat.add_lt_add_iff_right]
            exact ih hrest (Nat.lt_of_succ_lt_succ hi)
      · rw [List.takeWhile_cons_of_neg (by simpa using hle)]
        have hbound : ∀ n ∈ first :: rest, ¬ n ≤ bound := by
          intro n hn hnle
          rcases List.mem_cons.mp hn with rfl | hn
          · exact hle hnle
          · exact hle (Nat.le_trans (hfirst n hn) hnle)
        have hget : (first :: rest).getD i 0 = (first :: rest)[i] := by
          rw [List.getD_eq_getElem?_getD, List.getElem?_eq_getElem hi, Option.getD_some]
        rw [hget]
        simpa using hbound _ (List.getElem_mem hi)

/-- **The search finds the last segment that starts no later,** if segments start in ascending
order. -/
theorem segmentAt?_eq_getLast? {segments : List Segment}
    (h : (segments.map (·.start)).Pairwise (· ≤ ·)) (position : Nat) :
    segmentAt? segments position
      = (segments.takeWhile fun s => decide (s.start ≤ position)).getLast? := by
  obtain ⟨back, hsplit⟩ := List.takeWhile_prefix
    (l := segments) (fun s : Segment => decide (s.start ≤ position))
  generalize hfront : (segments.takeWhile fun s => decide (s.start ≤ position)) = front at hsplit
  have hcount : countUpTo (segments.map (·.start)) position 0 segments.length = front.length := by
    have hlength := congrArg List.length hsplit
    rw [List.length_append] at hlength
    refine countUpTo_eq (fun i hi => ?_) (Nat.zero_le _) (by omega) (by simp)
    rw [getD_le_iff h hi, List.takeWhile_map, List.length_map, ← hfront]
    rfl
  rw [segmentAt?, hcount, List.getLast?_eq_getElem?]
  cases hlength : front.length with
  | zero => rw [List.length_eq_zero_iff.mp hlength]; rfl
  | succ count =>
      have hlast : front[count]? = segments[count]? := by
        rw [← hsplit, List.getElem?_append_left (by omega)]
      exact hlast.symm

lemma ascending_segments (tree : Node) :
    ((segments tree).map (·.start)).Pairwise (· ≤ ·) := by
  rw [segments_eq, List.map_map, List.pairwise_map]
  refine (pairwise_passages tree).imp fun {p q} h => ?_
  have hstop : p.start ≤ p.stop := Nat.le_add_right _ _
  exact Nat.le_of_lt (Nat.lt_of_le_of_lt hstop h.1)

/-- The search among the segments finds the passage in which a position lies. -/
lemma segmentAt?_passage {tree : Node} {p : Passage} (hp : p ∈ passages tree) {position : Nat}
    (hlow : p.start ≤ position) (hhigh : position ≤ p.stop) :
    segmentAt? (segments tree) position = some p.segment := by
  obtain ⟨before, after, hsplit⟩ := List.append_of_mem hp
  have hpair := pairwise_passages tree
  rw [hsplit, List.pairwise_append, List.pairwise_cons] at hpair
  obtain ⟨-, ⟨hafter, -⟩, hbefore⟩ := hpair
  have htake :
      ((passages tree).takeWhile fun q => decide (q.start ≤ position)) = before ++ [p] := by
    rw [hsplit, List.takeWhile_append_of_pos, List.takeWhile_cons_of_pos (by simpa using hlow)]
    · congr 2
      cases after with
      | nil => rfl
      | cons q rest =>
          refine List.takeWhile_cons_of_neg ?_
          have := (hafter q List.mem_cons_self).1
          simp only [decide_eq_true_eq]
          omega
    · intro q hq
      have := (hbefore q hq p List.mem_cons_self).1
      have hle : q.start ≤ q.stop := Nat.le_add_right _ _
      simp only [decide_eq_true_eq]
      omega
  rw [segmentAt?_eq_getLast? (ascending_segments tree), segments_eq, List.takeWhile_map,
    List.getLast?_map]
  have hfun : ((fun s : Segment => decide (s.start ≤ position)) ∘ Passage.segment)
      = fun q => decide (q.start ≤ position) := rfl
  rw [hfun, htake]
  simp

/-- **A marker has a site exactly if a paragraph holds it,** and then the site says where. -/
theorem site?_eq_some {tree : Node} {m : Occurrence} {s : Site} :
    site? (segments tree) m = some s ↔
      ∃ p ∈ passages tree, p.isParagraph = true ∧ p.holds m = true ∧ s = p.site m := by
  constructor
  · intro h
    simp only [site?, Option.bind_eq_bind, Option.bind_eq_some_iff] at h
    obtain ⟨segment, hseg, place, hplace, h⟩ := h
    rw [segmentAt?_eq_getLast? (ascending_segments tree)] at hseg
    have hmem : segment ∈ (segments tree).takeWhile fun s => decide (s.start ≤ m.start) :=
      List.mem_of_getLast? hseg
    have hlow : segment.start ≤ m.start := by
      simpa using List.mem_takeWhile_imp hmem
    have hin := (List.takeWhile_sublist _).subset hmem
    rw [segments_eq] at hin
    obtain ⟨p, hp, rfl⟩ := List.mem_map.mp hin
    simp only [Passage.segment, Option.ite_none_right_eq_some, Option.some.injEq] at hplace hlow
    obtain ⟨hpar, rfl⟩ := hplace
    split at h
    · next hhigh =>
        rw [Option.some.injEq] at h
        subst h
        refine ⟨p, hp, hpar, Passage.holds_eq_true.mpr ⟨hlow, hhigh⟩, ?_⟩
        simp [Passage.site, Segment.length, Passage.segment, Passage.stop]
    · simp at h
  · rintro ⟨p, hp, hpar, hholds, rfl⟩
    have hbounds := Passage.holds_eq_true.mp hholds
    have hm := m.start_le_stop
    have hseg := segmentAt?_passage hp hbounds.1 (by omega)
    simp only [site?, hseg, Passage.segment, hpar, Option.bind_eq_bind, Option.bind_some,
      ↓reduceIte, hbounds.2, Option.some.injEq]
    simp [Passage.site, Segment.length, Passage.stop]

/-! ## Located sections -/

/-- The paragraphs that may bound a section together: one paragraph, or children of one parent. -/
def Neighbours (places : List Place) : Prop :=
  (∀ a ∈ places, ∀ b ∈ places, a = b) ∨ ∃ parent : Place, ∀ a ∈ places, ∃ i, a = parent ++ [i]

/-- A section whose markers stand in paragraphs that may bound it. -/
structure Block.Located (tree : Node) (block : Block) : Prop where
  home_mem : ∀ m ∈ block.occurrences, home tree m ∈ passages tree
  isParagraph : ∀ m ∈ block.occurrences, (home tree m).isParagraph = true
  holds : ∀ m ∈ block.occurrences, (home tree m).holds m = true
  neighbours : Neighbours (block.occurrences.map fun m => (home tree m).place)

/-- The site of a marker in its passage. -/
def homeSite (tree : Node) (m : Occurrence) : Site := (home tree m).site m

/-- A section with the sites of its markers. -/
def Block.sited (tree : Node) (block : Block) : SitedBlock :=
  ⟨homeSite tree block.opening, block.alternative.map (homeSite tree),
    homeSite tree block.closing⟩

lemma Block.sites_sited (tree : Node) (block : Block) :
    (block.sited tree).sites = block.occurrences.map (homeSite tree) := by
  cases h : block.alternative <;> simp [Block.sited, SitedBlock.sites, Block.occurrences, h]

lemma neighbours_of_isAligned {sited : SitedBlock} (h : sited.isAligned = true) :
    Neighbours (sited.sites.map Site.place) := by
  simp only [SitedBlock.isAligned, Bool.or_eq_true, List.all_eq_true, beq_iff_eq,
    Bool.and_eq_true, Bool.not_eq_true', List.isEmpty_eq_false_iff] at h
  rcases h with h | h
  · refine Or.inl fun a ha b hb => ?_
    obtain ⟨s, hs, rfl⟩ := List.mem_map.mp ha
    obtain ⟨t, ht, rfl⟩ := List.mem_map.mp hb
    rw [h s hs, h t ht]
  · refine Or.inr ⟨sited.opening.place.dropLast, fun a ha => ?_⟩
    obtain ⟨s, hs, rfl⟩ := List.mem_map.mp ha
    obtain ⟨hne, hparent⟩ := h s hs
    exact ⟨s.place.getLast hne, by rw [← hparent, List.dropLast_concat_getLast hne]⟩

lemma isAligned_of_neighbours {sited : SitedBlock}
    (h : Neighbours (sited.sites.map Site.place)) : sited.isAligned = true := by
  have hmem : ∀ site ∈ sited.sites, site.place ∈ sited.sites.map Site.place :=
    fun site hsite => List.mem_map_of_mem hsite
  have hopening : sited.opening ∈ sited.sites := List.mem_cons_self
  simp only [SitedBlock.isAligned, Bool.or_eq_true, List.all_eq_true, beq_iff_eq,
    Bool.and_eq_true, Bool.not_eq_true', List.isEmpty_eq_false_iff]
  rcases h with hone | ⟨parent, hparent⟩
  · exact Or.inl fun site hsite => hone _ (hmem site hsite) _ (hmem _ hopening)
  · refine Or.inr fun site hsite => ?_
    obtain ⟨i, hi⟩ := hparent _ (hmem site hsite)
    obtain ⟨j, hj⟩ := hparent _ (hmem _ hopening)
    rw [hi, hj]
    simp

/-- A marker that has a site is at home in a paragraph. -/
lemma home_of_site? {tree : Node} {m : Occurrence} {s : Site}
    (h : site? (segments tree) m = some s) :
    home tree m ∈ passages tree ∧ (home tree m).isParagraph = true
      ∧ (home tree m).holds m = true ∧ s = homeSite tree m := by
  obtain ⟨p, hp, hpar, hholds, rfl⟩ := site?_eq_some.mp h
  rw [homeSite, eq_home hp hholds]
  exact ⟨hp, hpar, hholds, rfl⟩

/-- Locating a section whose markers have sites. -/
lemma locate_of_sites {tree : Node} {block : Block}
    (h : ∀ m ∈ block.occurrences, ∃ s, site? (segments tree) m = some s) :
    block.locate (segments tree)
      = if (block.sited tree).isAligned then .ok (block.sited tree)
        else .error (.notSiblings block.condition) := by
  have hsite : ∀ m ∈ block.occurrences, site? (segments tree) m = some (homeSite tree m) := by
    intro m hm
    obtain ⟨s, hs⟩ := h m hm
    obtain ⟨-, -, -, rfl⟩ := home_of_site? hs
    exact hs
  have ho := hsite _ (opening_mem_occurrences block)
  have hc := hsite _ (closing_mem_occurrences block)
  cases ha : block.alternative with
  | none => simp [Block.locate, ho, hc, ha, Block.sited]
  | some marker =>
      have hm := hsite marker (alternative_mem_occurrences ha)
      simp [Block.locate, ho, hc, ha, hm, Block.sited]

/-- A section is located only if all its markers have sites. -/
lemma sites_of_locate {segments : List Segment} {block : Block} {sited : SitedBlock}
    (h : block.locate segments = .ok sited) :
    ∀ m ∈ block.occurrences, ∃ s, site? segments m = some s := by
  unfold Block.locate at h
  cases ho : site? segments block.opening with
  | none => simp [ho] at h
  | some opening =>
  cases hc : site? segments block.closing with
  | none => simp [ho, hc] at h
  | some closing =>
  cases ha : block.alternative with
  | none => simp [Block.occurrences, ha, ho, hc]
  | some marker =>
      cases hm : site? segments marker with
      | none => simp [ho, hc, ha, hm] at h
      | some alternative => simp [Block.occurrences, ha, ho, hc, hm]

/-- **What locating a section finds out.** -/
theorem located_of_locate {tree : Node} {block : Block} {sited : SitedBlock}
    (h : block.locate (segments tree) = .ok sited) :
    sited = block.sited tree ∧ block.Located tree := by
  have hsites := sites_of_locate h
  have hhome : ∀ m ∈ block.occurrences, home tree m ∈ passages tree
      ∧ (home tree m).isParagraph = true ∧ (home tree m).holds m = true := by
    intro m hm
    obtain ⟨s, hs⟩ := hsites m hm
    obtain ⟨hmem, hparagraph, hholds, -⟩ := home_of_site? hs
    exact ⟨hmem, hparagraph, hholds⟩
  rw [locate_of_sites hsites] at h
  split at h
  · next haligned =>
      obtain rfl := Except.ok.inj h
      have hneighbours := neighbours_of_isAligned haligned
      rw [Block.sites_sited, List.map_map] at hneighbours
      exact ⟨rfl, fun m hm => (hhome m hm).1, fun m hm => (hhome m hm).2.1,
        fun m hm => (hhome m hm).2.2, hneighbours⟩
  · simp at h

/-- The converse: a section that may be bounded by its paragraphs is located. -/
lemma locate_of_located {tree : Node} {block : Block} (h : block.Located tree) :
    block.locate (segments tree) = .ok (block.sited tree) := by
  have hsites : ∀ m ∈ block.occurrences, ∃ s, site? (segments tree) m = some s :=
    fun m hm => ⟨_, site?_eq_some.mpr
      ⟨home tree m, h.home_mem m hm, h.isParagraph m hm, h.holds m hm, rfl⟩⟩
  have haligned : (block.sited tree).isAligned = true := by
    refine isAligned_of_neighbours ?_
    rw [Block.sites_sited, List.map_map]
    exact h.neighbours
  rw [locate_of_sites hsites, if_pos haligned]

end FormLetter
