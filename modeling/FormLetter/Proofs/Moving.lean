import FormLetter.Proofs.Planning

/-!
# Rows that stand further on

Put other children in front of the children of a root: all that a pass knows about them moves
along.  Places turn to a later child, positions in the flat text grow, and nothing else changes.

* `moved` — a place, a passage, a marker, a section, an edit, with further children and a stretch of
  text in front.  `Spot.passages_moved`, `Spot.markers_moved` — this is how a row looks that stands
  further on.
* `Hosts` — a tree holds the passages of another one, moved; so does a root with all its children
  host the root with a row of them alone.
* **Sections.** Sections of the smaller tree, moved, are located in the host
  (`Hosts.located`), and their edits are moved (`Hosts.edits`).
* `Hosts.plan_of_pass` — a pass over the smaller tree is a plan for the row in the host.
-/

namespace FormLetter

/-! ## What moves -/

/-- The place with `count` children of the root in front; the root itself stays. -/
def Place.moved (count : Nat) : Place → Place
  | [] => []
  | index :: rest => (count + index) :: rest

def Leaf.moved (count : Nat) (leaf : Leaf) : Leaf := ⟨leaf.place.moved count, leaf.node⟩

/-- The passage with `count` children and a text of length `offset` in front. -/
def Passage.moved (count offset : Nat) (p : Passage) : Passage :=
  ⟨p.toLeaf.moved count, offset + p.start⟩

def Occurrence.moved (offset : Nat) (m : Occurrence) : Occurrence := ⟨offset + m.start, m.text⟩

def Marker.moved (offset : Nat) : Marker → Marker
  | .opening here condition => .opening (here.moved offset) condition
  | .alternative here => .alternative (here.moved offset)
  | .closing here => .closing (here.moved offset)

def Block.moved (offset : Nat) (block : Block) : Block :=
  ⟨block.opening.moved offset, block.condition, block.alternative.map (.moved offset),
    block.closing.moved offset⟩

def Ruling.moved (offset : Nat) (r : Ruling) : Ruling := ⟨r.block.moved offset, r.holds⟩

/-- The site with `count` children in front; positions in its paragraph stay. -/
def Site.moved (count : Nat) (site : Site) : Site :=
  ⟨site.place.moved count, site.range, site.length⟩

def Edit.moved (count : Nat) : Edit → Edit
  | .cut place range => .cut (place.moved count) range
  | .remove place => .remove (place.moved count)

@[simp] lemma Site.place_moved (count : Nat) (site : Site) :
    (site.moved count).place = site.place.moved count := rfl

/-! ## Places -/

lemma Place.moved_inj {count : Nat} {a b : Place} : a.moved count = b.moved count ↔ a = b := by
  cases a <;> cases b <;> simp [Place.moved]

/-- Children of one parent are moved to children of one parent. -/
lemma Place.moved_child (count : Nat) (parent : Place) :
    ∃ parent' : Place, ∀ i, ∃ j, Place.moved count (parent ++ [i]) = parent' ++ [j] := by
  cases parent with
  | nil => exact ⟨[], fun i => ⟨count + i, rfl⟩⟩
  | cons index rest => exact ⟨(count + index) :: rest, fun i => ⟨i, rfl⟩⟩

lemma Neighbours.moved {places : List Place} (h : Neighbours places) (count : Nat) :
    Neighbours (places.map (Place.moved count)) := by
  rcases h with hone | ⟨parent, hparent⟩
  · refine Or.inl ?_
    intro a' ha' b' hb'
    obtain ⟨a, ha, rfl⟩ := List.mem_map.mp ha'
    obtain ⟨b, hb, rfl⟩ := List.mem_map.mp hb'
    rw [hone a ha b hb]
  · obtain ⟨parent', hchild⟩ := Place.moved_child count parent
    refine Or.inr ⟨parent', ?_⟩
    intro a' ha'
    obtain ⟨a, ha, rfl⟩ := List.mem_map.mp ha'
    obtain ⟨i, rfl⟩ := hparent a ha
    exact hchild i

lemma placesBetween_moved (count : Nat) (parent : Place) (i j : Nat) :
    placesBetween (Place.moved count (parent ++ [i])) (Place.moved count (parent ++ [j]))
      = (placesBetween (parent ++ [i]) (parent ++ [j])).map (Place.moved count) := by
  cases parent with
  | nil =>
      have hlow : count + i + 1 = count + (i + 1) := Nat.add_assoc ..
      have hlength : count + j - (count + i + 1) = j - (i + 1) := by omega
      simp only [placesBetween, List.nil_append, Place.moved, List.getLastD_cons,
        List.getLastD_nil, hlength, List.map_map]
      rw [hlow, ← List.map_add_range', List.map_map]
      rfl
  | cons index rest =>
      have hlast : ∀ k, ((count + index) :: (rest ++ [k])).getLastD 0 = k := fun k => by
        rw [← List.cons_append, List.getLastD_concat]
      have hfront : ∀ k, ((count + index) :: (rest ++ [k])).dropLast = (count + index) :: rest :=
        fun k => by rw [← List.cons_append, List.dropLast_concat]
      simp only [placesBetween, List.cons_append, Place.moved, hlast, hfront, List.map_map]
      rw [← List.cons_append, List.getLastD_concat, ← List.cons_append, List.getLastD_concat,
        List.dropLast_concat]
      rfl

/-! ## Rows -/

lemma leavesFrom_moved (count index : Nat) (nodes : List Node) :
    Node.leavesFrom (count + index) nodes
      = (Node.leavesFrom index nodes).map (Leaf.moved count) := by
  induction nodes generalizing index with
  | nil => rfl
  | cons node rest ih =>
      rw [Node.leavesFrom, Node.leavesFrom, Nat.add_assoc, ih, List.map_append, List.map_map]
      rfl

lemma passagesFrom_moved (count offset start : Nat) (leaves : List Leaf) :
    passagesFrom (offset + start) (leaves.map (Leaf.moved count))
      = (passagesFrom start leaves).map (Passage.moved count offset) := by
  induction leaves generalizing start with
  | nil => rfl
  | cons leaf rest ih =>
      rw [List.map_cons, passagesFrom, passagesFrom, List.map_cons, ← ih]
      simp only [Leaf.moved, Nat.add_assoc]
      rfl

lemma markersFrom_moved (offset start : Nat) (t : Text) :
    markersFrom (offset + start) t = (markersFrom start t).map (Marker.moved offset) := by
  rw [markersFrom, markersFrom, tokensFrom_moved, List.filterMap_map, List.map_filterMap]
  refine List.filterMap_congr fun (position, token) _ => ?_
  obtain ⟨body, meaning⟩ := token
  cases meaning <;> rfl

namespace Spot

variable (count offset : Nat) (nodes : List Node)

/-- A row of children of the root further on. -/
lemma passages_moved :
    (⟨[], count, offset⟩ : Spot).passages nodes
      = (root.passages nodes).map (Passage.moved count offset) := by
  have hbelow : Leaf.below [] = id := rfl
  have hleaves := leavesFrom_moved count 0 nodes
  have hpassages := passagesFrom_moved count offset 0 (Node.leavesFrom 0 nodes)
  rw [Nat.add_zero] at hleaves hpassages
  simp only [passages, root, hbelow, List.map_id, hleaves, hpassages]

lemma markers_moved :
    (⟨[], count, offset⟩ : Spot).markers nodes
      = (root.markers nodes).map (Marker.moved offset) := by
  rw [markers, passages_moved, markers, List.flatMap_map, List.map_flatMap]
  exact List.flatMap_congr fun p _ => markersFrom_moved offset p.start p.node.content

end Spot

lemma Nested.moved {ms : List Marker} {blocks : List Block} (h : Nested ms blocks)
    (offset : Nat) : Nested (ms.map (Marker.moved offset)) (blocks.map (Block.moved offset)) := by
  induction h with
  | nil => exact .nil
  | plain _ _ ihinner ihrest =>
      rw [List.map_cons, List.map_append, List.map_cons]
      exact .plain ihinner ihrest
  | divided _ _ _ ihfirst ihsecond ihrest =>
      rw [List.map_cons, List.map_append, List.map_cons, List.map_append, List.map_cons]
      exact .divided ihfirst ihsecond ihrest

lemma Block.occurrences_moved (offset : Nat) (block : Block) :
    (block.moved offset).occurrences = block.occurrences.map (Occurrence.moved offset) := by
  cases h : block.alternative <;> simp [Block.occurrences, Block.moved, h]

/-! ## Edits -/

/-- What the two ends of a discarded span must be for its edits to move along. -/
def Selection.IsSpan (selection : Selection) : Prop :=
  ∀ first last, selection.discarded = some (first, last) →
    first.place = last.place ∨ ∃ (parent : Place) (i j : Nat),
      first.place = parent ++ [i] ∧ last.place = parent ++ [j]

def Selection.moved (count : Nat) (selection : Selection) : Selection :=
  ⟨selection.discarded.map fun (first, last) => (first.moved count, last.moved count),
    selection.stripped.map (Site.moved count)⟩

lemma boundaryEdit_moved (count : Nat) (stripped : List Site) (site : Site) (lost : Range) :
    boundaryEdit (stripped.map (Site.moved count)) (site.moved count) lost
      = (boundaryEdit stripped site lost).moved count := by
  have hany : (stripped.map (Site.moved count)).any (·.place == (site.moved count).place)
      = stripped.any (·.place == site.place) := by
    rw [List.any_map]
    refine congrArg (List.any stripped) (funext fun other => ?_)
    rw [Function.comp_apply, Bool.eq_iff_iff, beq_iff_eq, beq_iff_eq]
    exact Place.moved_inj
  rw [boundaryEdit, boundaryEdit, hany]
  split <;> rfl

lemma Selection.edits_moved {selection : Selection} (h : selection.IsSpan) (count : Nat) :
    (selection.moved count).edits = selection.edits.map (Edit.moved count) := by
  obtain ⟨discarded, stripped⟩ := selection
  have hcuts : (stripped.map (Site.moved count)).map (fun site => Edit.cut site.place site.range)
      = (stripped.map fun site => Edit.cut site.place site.range).map (Edit.moved count) := by
    rw [List.map_map, List.map_map]
    rfl
  cases discarded with
  | none => exact hcuts
  | some span =>
      obtain ⟨first, last⟩ := span
      simp only [Selection.edits, Selection.moved, Option.map_some, List.map_append, hcuts,
        boundaryEdit_moved, Site.place_moved, Place.moved_inj]
      refine congrArg _ ?_
      by_cases hsame : first.place = last.place
      · rw [if_pos hsame, if_pos hsame]
        rfl
      · rw [if_neg hsame, if_neg hsame]
        obtain ⟨parent, i, j, hfirst, hlast⟩ := (h first last rfl).resolve_left hsame
        simp only [hfirst, hlast, placesBetween_moved, List.map_cons, List.map_map]
        rfl

lemma SitedBlock.select_moved (count : Nat) (opening closing : Site) (alternative : Option Site)
    (holds : Bool) :
    SitedBlock.select ⟨opening.moved count, alternative.map (Site.moved count),
        closing.moved count⟩ holds
      = (SitedBlock.select ⟨opening, alternative, closing⟩ holds).moved count := by
  cases holds <;> cases alternative <;> rfl

lemma editsUnder_moved (count index : Nat) (edits : List Edit) :
    editsUnder (count + index) (edits.map (Edit.moved count)) = editsUnder index edits := by
  rw [editsUnder, editsUnder, List.filterMap_map]
  refine List.filterMap_congr fun edit _ => ?_
  rcases edit with ⟨_ | ⟨i, place⟩, range⟩ | ⟨_ | ⟨i, place⟩⟩ <;>
    simp [Edit.moved, Place.moved, Edit.under?]

/-- Edits do the same to a row further on. -/
lemma editFrom_moved (count index : Nat) (edits : List Edit) (nodes : List Node) :
    Node.editFrom (edits.map (Edit.moved count)) (count + index) nodes
      = Node.editFrom edits index nodes := by
  induction nodes generalizing index with
  | nil => rfl
  | cons node rest ih => rw [editFrom_cons, editFrom_cons, editsUnder_moved, Nat.add_assoc, ih]

lemma Edit.IsAmong.moved {low high : Nat} {edit : Edit} (h : edit.IsAmong low high)
    (count : Nat) : (edit.moved count).IsAmong (count + low) (count + high) := by
  obtain ⟨i, rest, hplace, hlow, hhigh⟩ := h
  refine ⟨count + i, rest, ?_, by omega, by omega⟩
  rcases edit with ⟨place, range⟩ | ⟨place⟩
  all_goals
    simp only [Edit.place] at hplace
    rw [hplace]
    rfl

/-! ## Edits stay among the children of the root -/

lemma head_of_mem_passages {tag : StartTag} (htag : tag.name ≠ Word.paragraph) {nodes : List Node}
    {p : Passage} (hp : p ∈ passages (.element tag nodes)) :
    ∃ i rest, p.place = i :: rest ∧ i < nodes.length := by
  have hleaf : p.toLeaf ∈ Node.leavesFrom 0 nodes := by
    rw [← leaves_of_element (by simpa using htag) nodes]
    exact mem_leaves_iff.mpr ⟨p, hp, rfl⟩
  obtain ⟨i, node, inner, hnode, -, hplace⟩ := mem_leavesFrom.mp hleaf
  refine ⟨i, inner.place, ?_, (List.getElem?_eq_some_iff.mp hnode).1⟩
  have := congrArg Leaf.place hplace
  rwa [Nat.zero_add] at this

/-- What lies between two children of one parent lies below the same child of the root as the
second one, or in front of it. -/
lemma head_of_mem_placesBetween {parent place : Place} {i j : Nat} {count : Nat}
    (h : place ∈ placesBetween (parent ++ [i]) (parent ++ [j]))
    (hlast : ∃ k rest, parent ++ [j] = k :: rest ∧ k < count) :
    ∃ k rest, place = k :: rest ∧ k < count := by
  obtain ⟨m, -, hm, rfl⟩ := mem_placesBetween.mp h
  obtain ⟨k, rest, hk, hcount⟩ := hlast
  cases parent with
  | nil =>
      obtain rfl : j = k := (List.cons.inj hk).1
      exact ⟨m, [], rfl, Nat.lt_trans hm hcount⟩
  | cons index rest' =>
      obtain rfl : index = k := (List.cons.inj hk).1
      exact ⟨index, rest' ++ [m], rfl, hcount⟩

/-- The places of two markers of a section that was located are one, or children of one parent. -/
lemma Block.Located.span {tree : Node} {block : Block} (h : block.Located tree)
    {m n : Occurrence} (hm : m ∈ block.occurrences) (hn : n ∈ block.occurrences) :
    (home tree m).place = (home tree n).place ∨ ∃ (parent : Place) (i j : Nat),
      (home tree m).place = parent ++ [i] ∧ (home tree n).place = parent ++ [j] := by
  have hmem : ∀ m ∈ block.occurrences,
      (home tree m).place ∈ block.occurrences.map fun m => (home tree m).place :=
    fun m hm => List.mem_map.mpr ⟨m, hm, rfl⟩
  rcases h.neighbours with hone | ⟨parent, hparent⟩
  · exact Or.inl (hone _ (hmem m hm) _ (hmem n hn))
  · obtain ⟨i, hi⟩ := hparent _ (hmem m hm)
    obtain ⟨j, hj⟩ := hparent _ (hmem n hn)
    exact Or.inr ⟨parent, i, j, hi, hj⟩

/-- **The edits of a section lie at or below children of the root.** -/
lemma Ruling.among {tag : StartTag} (htag : tag.name ≠ Word.paragraph) {nodes : List Node}
    {r : Ruling} (h : r.block.Located (.element tag nodes)) :
    ∀ e ∈ r.edits (.element tag nodes), e.IsAmong 0 nodes.length := by
  have hhead : ∀ m ∈ r.block.occurrences,
      ∃ i rest, (home (.element tag nodes) m).place = i :: rest ∧ i < nodes.length :=
    fun m hm => head_of_mem_passages htag (h.home_mem m hm)
  have hamong : ∀ {e : Edit}, (∃ i rest, e.place = i :: rest ∧ i < nodes.length) →
      e.IsAmong 0 nodes.length := by
    rintro e ⟨i, rest, hplace, hi⟩
    exact ⟨i, rest, hplace, Nat.zero_le i, hi⟩
  rintro (⟨place, range⟩ | ⟨place⟩) he
  · rcases cut_mem_edits.mp he with ⟨m, hm, rfl, -⟩ | ⟨first, last, hlost, hends⟩
    · exact hamong (hhead m (r.stripped_subset m hm))
    · obtain ⟨hfirst, hlast⟩ := mem_of_lost? hlost
      rcases hends with ⟨-, rfl, -⟩ | ⟨-, ⟨-, rfl, -⟩ | ⟨-, rfl, -⟩⟩
      · exact hamong (hhead first hfirst)
      · exact hamong (hhead first hfirst)
      · exact hamong (hhead last hlast)
  · obtain ⟨first, last, hlost, hdiff, hplaces⟩ := remove_mem_edits.mp he
    obtain ⟨hfirst, hlast⟩ := mem_of_lost? hlost
    rcases hplaces with ⟨-, rfl⟩ | ⟨-, rfl⟩ | hbetween
    · exact hamong (hhead first hfirst)
    · exact hamong (hhead last hlast)
    · obtain ⟨parent, i, j, hi, hj⟩ := (h.span hfirst hlast).resolve_left hdiff
      have hend := hhead last hlast
      rw [hj] at hend
      rw [hi, hj] at hbetween
      exact hamong (head_of_mem_placesBetween hbetween hend)

/-! ## Hosts -/

/-- The tree holds the passages of a part, with `count` children and a text of length `offset` in
front of them. -/
def Hosts (tree part : Node) (count offset : Nat) : Prop :=
  ∀ p ∈ passages part, p.moved count offset ∈ passages tree

lemma Passage.holds_moved (count offset : Nat) (p : Passage) (m : Occurrence) :
    (p.moved count offset).holds (m.moved offset) = p.holds m := by
  rw [Bool.eq_iff_iff, Passage.holds_eq_true, Passage.holds_eq_true]
  simp only [Passage.moved, Leaf.moved, Occurrence.moved, Passage.stop, Occurrence.stop]
  omega

lemma Passage.site_moved (count offset : Nat) (p : Passage) (m : Occurrence) :
    (p.moved count offset).site (m.moved offset) = (p.site m).moved count := by
  have hlow : offset + m.start - (offset + p.start) = m.start - p.start :=
    Nat.add_sub_add_left ..
  have hhigh : offset + m.start + m.text.length - (offset + p.start)
      = m.start + m.text.length - p.start := by
    rw [Nat.add_assoc, Nat.add_sub_add_left]
  simp only [Passage.site, Passage.moved, Leaf.moved, Occurrence.moved, Occurrence.stop,
    Site.moved, hlow, hhigh]

namespace Hosts

variable {tree part : Node} {count offset : Nat} (h : Hosts tree part count offset)

include h

lemma home {m : Occurrence} (hmem : home part m ∈ passages part)
    (hholds : (FormLetter.home part m).holds m = true) :
    FormLetter.home tree (m.moved offset) = (FormLetter.home part m).moved count offset :=
  eq_home (h _ hmem) (by rw [Passage.holds_moved, hholds])

/-- **A section of the part is located in its host.** -/
lemma located {block : Block} (hlocated : block.Located part) :
    (block.moved offset).Located tree := by
  have hhome : ∀ m ∈ block.occurrences,
      FormLetter.home tree (m.moved offset) = (FormLetter.home part m).moved count offset :=
    fun m hm => h.home (hlocated.home_mem m hm) (hlocated.holds m hm)
  have hplaces : (block.moved offset).occurrences.map (fun m => (FormLetter.home tree m).place)
      = (block.occurrences.map fun m => (FormLetter.home part m).place).map
        (Place.moved count) := by
    rw [Block.occurrences_moved, List.map_map, List.map_map]
    refine List.map_congr_left fun m hm => ?_
    rw [Function.comp_apply, hhome m hm]
    rfl
  refine ⟨?_, ?_, ?_, hplaces ▸ hlocated.neighbours.moved count⟩
  all_goals
    rw [Block.occurrences_moved]
    refine List.forall_mem_map.mpr fun m hm => ?_
    rw [hhome m hm]
  · exact h _ (hlocated.home_mem m hm)
  · exact hlocated.isParagraph m hm
  · rw [Passage.holds_moved]
    exact hlocated.holds m hm

/-- **Its edits are those of the part, moved.** -/
lemma edits {r : Ruling} (hlocated : r.block.Located part) :
    (r.moved offset).edits tree = (r.edits part).map (Edit.moved count) := by
  have hsite : ∀ m ∈ r.block.occurrences,
      homeSite tree (m.moved offset) = (homeSite part m).moved count := by
    intro m hm
    rw [homeSite, h.home (hlocated.home_mem m hm) (hlocated.holds m hm), Passage.site_moved]
    rfl
  have hsited : (r.block.moved offset).sited tree
      = ⟨(homeSite part r.block.opening).moved count,
          (r.block.alternative.map (homeSite part)).map (Site.moved count),
          (homeSite part r.block.closing).moved count⟩ := by
    rw [Block.sited, Block.moved, hsite _ (opening_mem_occurrences _),
      hsite _ (closing_mem_occurrences _), Option.map_map, Option.map_map]
    congr 1
    refine Option.map_congr fun m hm => hsite m ?_
    rw [Block.occurrences, Option.mem_def.mp hm]
    simp
  have hspan : (Selection.IsSpan ((r.block.sited part).select r.holds)) := by
    rw [Ruling.select_sited]
    intro first last hends
    obtain ⟨⟨m, n⟩, hlost, heq⟩ := Option.map_eq_some_iff.mp hends
    obtain ⟨rfl, rfl⟩ := Prod.mk.inj heq
    obtain ⟨hm, hn⟩ := Ruling.mem_of_lost? hlost
    exact hlocated.span hm hn
  rw [Ruling.edits, Ruling.edits, ← Selection.edits_moved hspan]
  simp only [Ruling.moved, hsited, SitedBlock.select_moved]
  rfl

end Hosts

/-- **A pass over a root with some children is a plan for these children in a host.** -/
theorem Hosts.plan_of_pass {tree next : Node} {tag : StartTag} {nodes : List Node}
    {data : Value} {resolved count offset : Nat} (htag : tag.name ≠ Word.paragraph)
    (h : Hosts tree (.element tag nodes) count offset)
    (hpass : resolvePass (.element tag nodes) data = .ok (next, resolved)) :
    ∃ (nodes' : List Node) (rulings : List Ruling), next = .element tag nodes'
      ∧ rulings.length = resolved
      ∧ Spot.Plan ⟨[], count, offset⟩ tree (fun path => isTruthy data path = .ok true) nodes nodes'
          rulings
      ∧ ∀ r ∈ rulings, isTruthy data r.block.condition.path = .ok r.holds := by
  have hbelow : ∀ es : List Edit, es.map (Edit.below []) = es := by
    intro es
    rw [List.map_congr_left (g := id) fun e _ => by cases e <;> rfl, List.map_id]
  have hmarkers : (⟨[], count, offset⟩ : Spot).markers nodes
      = (markers (flatText (.element tag nodes))).map (Marker.moved offset) := by
    rw [Spot.markers_moved, Spot.markers_root htag]
  rcases Nat.eq_zero_or_pos resolved with rfl | hpos
  · obtain ⟨rfl, hnone⟩ := resolvePass_eq_zero.mp hpass
    rw [hnone] at hmarkers
    exact ⟨nodes, [], rfl, rfl, .untouched hmarkers, by simp⟩
  · obtain ⟨rulings, hdecides, hplaced, hlength, rfl⟩ := exists_rulings hpass hpos
    have hnested := (pair_eq_ok_iff.mp hdecides.sections).moved offset
    have hlocated : ∀ r ∈ rulings, r.block.Located (.element tag nodes) :=
      fun r hr => (hplaced r hr).located
    have hamong : ∀ e ∈ rulings.flatMap (Ruling.edits (.element tag nodes)),
        e.IsAmong 0 nodes.length := by
      intro e he
      obtain ⟨r, hr, he⟩ := List.mem_flatMap.mp he
      exact Ruling.among htag (hlocated r hr) e he
    have hedits : (rulings.map (Ruling.moved offset)).flatMap (Ruling.edits tree)
        = (rulings.flatMap (Ruling.edits (.element tag nodes))).map (Edit.moved count) := by
      rw [List.flatMap_map, List.map_flatMap]
      exact List.flatMap_congr fun r hr => h.edits (hlocated r hr)
    refine ⟨_, rulings.map (Ruling.moved offset), ?_, by rw [List.length_map, hlength],
      ⟨?_, ?_, ?_, _, hedits.trans (hbelow _).symm, ?_, rfl⟩, ?_⟩
    · rw [edit_element, (nothing_here_of_among hamong).1, if_pos List.isEmpty_nil]
      exact congrArg (Node.element tag) (editFrom_moved count 0 _ nodes).symm
    · rw [hmarkers, List.map_map]
      rw [List.map_map] at hnested
      exact hnested
    · exact List.forall_mem_map.mpr fun r hr => h.located (hlocated r hr)
    · refine List.forall_mem_map.mpr fun r hr => ?_
      simp [Ruling.moved, Block.moved, hdecides.decisions r hr]
    · exact List.forall_mem_map.mpr fun e he => (hamong e he).moved count
    · exact List.forall_mem_map.mpr fun r hr => hdecides.decisions r hr

end FormLetter
