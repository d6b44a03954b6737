import Mathlib.Data.List.Forall2
import FormLetter.Proofs.FlatSections

/-!
# Where segments lie and where sections may stand

Sections are found in the flat text and carried out in the tree, so everything hangs on the way back
from a position to a paragraph.

* **Segments.** `mem_leaves_iff_isOutermost` — what makes up a segment, said without the traversal
  that finds it.  `isLaidOut` — the segments of any tree lie in its flat text one by one with a line
  end between them, their places lead to their paragraphs, and each marker is inside one of them,
  where the search finds it.
* **Sections.** `Block.Misplaced` — what can be wrong with where the markers of a section stand.
  `edits_eq_boundary` — a section fails over that, and over nothing else, before its condition is
  looked at.  `resolvePass_eq_boundary` — a pass fails over the first section that is misplaced,
  unless a condition fails before it.
* `sections_are_located` — all of it.
-/

namespace FormLetter

/-! ## Outermost nodes -/

/-- Whether a node makes up a segment if no paragraph contains it. -/
def Node.isSegment : Node → Bool
  | .text value => !value.isEmpty
  | .element tag _ => tag.name == Word.paragraph

/-- At the place stands a paragraph of the tree, or text that is not empty, and no paragraph is
around it. -/
structure Node.IsOutermost (tree : Node) (place : Place) (node : Node) : Prop where
  at_place : tree.at? place = some node
  isSegment : node.isSegment = true
  outside : ∀ above, above <+: place → above ≠ place → ∀ outer, tree.at? above = some outer →
    outer.isNamed Word.paragraph = false

lemma isOutermost_root {tree node : Node} :
    tree.IsOutermost [] node ↔ node = tree ∧ tree.isSegment = true := by
  constructor
  · rintro ⟨hat, hsegment, -⟩
    obtain rfl : tree = node := Option.some.inj hat
    exact ⟨rfl, hsegment⟩
  · rintro ⟨rfl, hsegment⟩
    exact ⟨rfl, hsegment, fun above habove hne => absurd (List.prefix_nil.mp habove) hne⟩

lemma isOutermost_child {tree node : Node} {index : Nat} {place : Place} :
    tree.IsOutermost (index :: place) node ↔
      tree.isNamed Word.paragraph = false
        ∧ ∃ child, tree.children[index]? = some child ∧ child.IsOutermost place node := by
  constructor
  · rintro ⟨hat, hsegment, houtside⟩
    obtain ⟨child, hchild, hat⟩ := Option.bind_eq_some_iff.mp hat
    refine ⟨houtside [] List.nil_prefix (by simp) tree rfl, child, hchild, hat, hsegment, ?_⟩
    intro above habove hne outer houter
    refine houtside (index :: above) (List.cons_prefix_cons.mpr ⟨rfl, habove⟩) (by simpa using hne)
      outer ?_
    rw [Node.at?, hchild, Option.bind_some, houter]
  · rintro ⟨htree, child, hchild, hat, hsegment, houtside⟩
    refine ⟨by rw [Node.at?, hchild, Option.bind_some, hat], hsegment, ?_⟩
    intro above habove hne outer houter
    cases above with
    | nil =>
        obtain rfl : tree = outer := Option.some.inj houter
        exact htree
    | cons first above =>
        obtain ⟨rfl, hbelow⟩ := List.cons_prefix_cons.mp habove
        rw [Node.at?, hchild, Option.bind_some] at houter
        exact houtside above hbelow (by simpa using hne) outer houter

lemma mem_leaves_root {tree node : Node} :
    (⟨[], node⟩ : Leaf) ∈ tree.leaves ↔ node = tree ∧ tree.isSegment = true := by
  constructor
  · intro h
    refine ⟨node_of_root_leaf h rfl, ?_⟩
    cases tree with
    | text value =>
        by_contra hempty
        rw [Node.leaves, if_pos (by simpa [Node.isSegment] using hempty)] at h
        exact absurd h List.not_mem_nil
    | element tag children =>
        by_contra hother
        rw [leaves_of_element hother] at h
        obtain ⟨k, rest, -, hplace⟩ := (pairwise_leavesFrom 0 children).2 _ h
        simp at hplace
  · rintro ⟨rfl, hsegment⟩
    cases node with
    | text value => simp_all [Node.leaves, Node.isSegment]
    | element tag children =>
        have hparagraph : (Node.element tag children).isNamed Word.paragraph = true := hsegment
        rw [leaves_of_paragraph hparagraph]
        exact List.mem_singleton_self _

lemma mem_leaves_child {tree node : Node} {index : Nat} {place : Place} :
    (⟨index :: place, node⟩ : Leaf) ∈ tree.leaves ↔
      tree.isNamed Word.paragraph = false
        ∧ ∃ child, tree.children[index]? = some child ∧ (⟨place, node⟩ : Leaf) ∈ child.leaves := by
  cases tree with
  | text value =>
      constructor
      · intro h
        exact absurd (Node.leaves_text_place h) (by simp)
      · rintro ⟨-, child, hchild, -⟩
        simp [Node.children] at hchild
  | element tag children =>
      by_cases hp : (Node.element tag children).isNamed Word.paragraph = true
      · simp [leaves_of_paragraph hp, hp]
      · rw [leaves_of_element hp, mem_leavesFrom]
        constructor
        · rintro ⟨k, child, inner, hchild, hinner, hleaf⟩
          obtain ⟨hplace, hnode⟩ := Leaf.mk.inj hleaf
          rw [Nat.zero_add] at hplace
          obtain ⟨rfl, rfl⟩ := List.cons.inj hplace
          subst hnode
          exact ⟨Bool.eq_false_iff.mpr hp, child, hchild, hinner⟩
        · rintro ⟨-, child, hchild, hinner⟩
          exact ⟨index, child, _, hchild, hinner, by rw [Nat.zero_add]; rfl⟩

/-- **What makes up a segment:** the leaves are the outermost paragraphs and the texts outside
paragraphs, empty ones excepted. -/
theorem mem_leaves_iff_isOutermost {tree node : Node} {place : Place} :
    (⟨place, node⟩ : Leaf) ∈ tree.leaves ↔ tree.IsOutermost place node := by
  induction place generalizing tree with
  | nil => rw [mem_leaves_root, isOutermost_root]
  | cons index place ih => simp only [mem_leaves_child, isOutermost_child, ih]

/-! ## Segments in the flat text -/

/-- Whether the segment holds all of a stretch of the flat text. -/
def Segment.Holds (segment : Segment) (m : Occurrence) : Prop :=
  segment.start ≤ m.start ∧ m.stop ≤ segment.stop

/-- The text of a segment. -/
def Segment.text (segment : Segment) (t : Text) : Text := (t.drop segment.start).take segment.length

/-- A passage is a stretch of the text that the leaves make up. -/
lemma exists_joined_eq {start : Nat} {leaves : List Leaf} {p : Passage}
    (h : p ∈ passagesFrom start leaves) :
    ∃ front back, Text.joinWith ['\n'] (leaves.map (·.node.content))
        = front ++ (p.node.content ++ back)
      ∧ p.start = start + front.length := by
  induction leaves generalizing start with
  | nil => exact absurd h List.not_mem_nil
  | cons leaf rest ih =>
      cases rest with
      | nil =>
          obtain rfl := List.mem_singleton.mp h
          exact ⟨[], [], (List.append_nil _).symm, rfl⟩
      | cons next others =>
          have hne : (next :: others).map (·.node.content) ≠ [] := by simp
          rw [List.map_cons, Text.joinWith_cons _ _ hne]
          rcases List.mem_cons.mp h with rfl | h
          · exact ⟨[], _, by rw [List.append_assoc]; rfl, rfl⟩
          · obtain ⟨front, back, heq, hstart⟩ := ih h
            refine ⟨leaf.node.content ++ ['\n'] ++ front, back, by rw [heq]; simp, ?_⟩
            rw [hstart, List.length_append, List.length_append, List.length_singleton]
            omega

/-- The segment of a passage shows the text of its node. -/
lemma text_segment {tree : Node} {p : Passage} (h : p ∈ passages tree) :
    p.segment.text (flatText tree) = p.node.content := by
  obtain ⟨front, back, heq, hstart⟩ := exists_joined_eq h
  have hfront : p.start = front.length := by rw [hstart, Nat.zero_add]
  have hlength : p.segment.length = p.node.content.length := Nat.add_sub_cancel_left _ _
  have hat : p.segment.start = front.length := hfront
  rw [flatText_eq, Segment.text, heq, hlength, hat, List.drop_left, List.take_left]

/-- A marker of the flat text lies in a passage. -/
lemma exists_holds {tree : Node} {marker : Marker} (h : marker ∈ markers (flatText tree)) :
    ∃ p ∈ passages tree, p.holds marker.here = true := by
  rw [markers_flatText] at h
  obtain ⟨p, hp, hmarker⟩ := List.mem_flatMap.mp h
  obtain ⟨hlow, -, hhigh⟩ := bounds_of_mem_markersFrom hmarker
  exact ⟨p, hp, Passage.holds_eq_true.mpr ⟨hlow, hhigh⟩⟩

/-- What a segment holds, the passage holds that stands behind it. -/
lemma mem_segments_holds {tree : Node} {s : Segment} {m : Occurrence} :
    s ∈ segments tree ∧ s.Holds m ↔ ∃ p ∈ passages tree, p.holds m = true ∧ p.segment = s := by
  rw [segments_eq, List.mem_map]
  constructor
  · rintro ⟨⟨p, hp, rfl⟩, hholds⟩
    exact ⟨p, hp, Passage.holds_eq_true.mpr hholds, rfl⟩
  · rintro ⟨p, hp, hholds, rfl⟩
    exact ⟨⟨p, hp, rfl⟩, Passage.holds_eq_true.mp hholds⟩

/-- How the segments of a tree lie in its flat text. -/
structure IsLaidOut (tree : Node) : Prop where
  /-- The nodes behind the segments are the outermost paragraphs and the texts outside them. -/
  outermost : ∀ place node, (⟨place, node⟩ : Leaf) ∈ tree.leaves ↔ tree.IsOutermost place node
  /-- They come in document order, each of them once. -/
  ordered : tree.leaves.Pairwise fun a b => Precedes a.place b.place
  /-- Each has a segment, which shows its text and knows the place of a paragraph. -/
  shown : List.Forall₂ (fun segment leaf =>
    segment.place = (if leaf.isParagraph then some leaf.place else none)
      ∧ segment.stop = segment.start + leaf.node.content.length
      ∧ segment.text (flatText tree) = leaf.node.content) (segments tree) tree.leaves
  /-- A segment begins behind the end of the one before. -/
  apart : (segments tree).Pairwise fun a b => a.stop < b.start
  /-- Nothing but a line end lies between two segments. -/
  joined : flatText tree = Text.joinWith ['\n'] (tree.leaves.map (·.node.content))
  /-- The place of a segment leads to the paragraph whose text it shows. -/
  leads : ∀ segment ∈ segments tree, ∀ place ∈ segment.place, ∃ paragraph,
    tree.at? place = some paragraph ∧ paragraph.isNamed Word.paragraph = true
      ∧ segment.text (flatText tree) = paragraph.content
  /-- Each marker lies in one segment only, and the search finds that one. -/
  holds : ∀ marker ∈ markers (flatText tree),
    (∃! segment, segment ∈ segments tree ∧ segment.Holds marker.here)
      ∧ ∃ segment ∈ segments tree, segment.Holds marker.here
        ∧ segmentAt? (segments tree) marker.here.start = some segment

/-- **The segments of a tree lie in its flat text as they should.** -/
theorem isLaidOut (tree : Node) : IsLaidOut tree where
  outermost _ _ := mem_leaves_iff_isOutermost
  ordered := pairwise_leaves tree
  shown := by
    rw [segments_eq, ← map_toLeaf_passages tree, List.forall₂_map_left_iff,
      List.forall₂_map_right_iff, List.forall₂_same]
    exact fun p hp => ⟨rfl, rfl, text_segment hp⟩
  apart := by
    rw [segments_eq, List.pairwise_map]
    exact (pairwise_passages tree).imp And.left
  joined := flatText_eq tree
  leads segment hsegment place hplace := by
    rw [segments_eq] at hsegment
    obtain ⟨p, hp, rfl⟩ := List.mem_map.mp hsegment
    simp only [Passage.segment, Option.mem_def, Option.ite_none_right_eq_some,
      Option.some.injEq] at hplace
    obtain ⟨hparagraph, rfl⟩ := hplace
    have hleaf : p.toLeaf ∈ tree.leaves := mem_leaves_iff.mpr ⟨p, hp, rfl⟩
    exact ⟨p.node, (mem_leaves_iff_isOutermost.mp hleaf).at_place, hparagraph, text_segment hp⟩
  holds marker hmarker := by
    obtain ⟨p, hp, hholds⟩ := exists_holds hmarker
    obtain ⟨hmem, hin⟩ := mem_segments_holds.mpr ⟨p, hp, hholds, rfl⟩
    refine ⟨⟨p.segment, ⟨hmem, hin⟩, ?_⟩, p.segment, hmem, hin, ?_⟩
    · rintro other hother
      obtain ⟨q, hq, hqholds, rfl⟩ := mem_segments_holds.mp hother
      rw [eq_of_holds hp hq hholds hqholds]
    · exact segmentAt?_passage hp hin.1 (Nat.le_trans marker.here.start_le_stop hin.2)

/-! ## Where sections may stand -/

/-- The marker stands in loose text. -/
def IsLoose (tree : Node) (m : Occurrence) : Prop :=
  ∃ segment ∈ segments tree, segment.Holds m ∧ segment.place = none

/-- The marker stands in the paragraph at the place. -/
def StandsAt (tree : Node) (m : Occurrence) (place : Place) : Prop :=
  ∃ segment ∈ segments tree, segment.Holds m ∧ segment.place = some place

/-- Where the parent of the node at a place stands; the root of a tree has none. -/
def Place.parent? : Place → Option Place
  | [] => none
  | place@(_ :: _) => some place.dropLast

/-- The paragraphs in which the markers of the section stand have one parent.  Only the root has
none, and where the root is a paragraph, all markers stand in it. -/
def Block.HasOneParent (tree : Node) (block : Block) : Prop :=
  ∃ parent : Option Place, ∀ m ∈ block.occurrences, ∀ place, StandsAt tree m place →
    Place.parent? place = parent

/-- What is wrong with where the markers of a section stand. -/
def Block.Misplaced (tree : Node) (block : Block) : BoundaryError → Prop
  | .openingLoose condition marker =>
    condition = block.condition ∧ marker = block.opening.text ∧ IsLoose tree block.opening
  | .closingLoose condition =>
    condition = block.condition ∧ ¬ IsLoose tree block.opening ∧ IsLoose tree block.closing
  | .alternativeLoose condition =>
    condition = block.condition ∧ ¬ IsLoose tree block.opening ∧ ¬ IsLoose tree block.closing
      ∧ ∃ m ∈ block.alternative, IsLoose tree m
  | .notSiblings condition =>
    condition = block.condition ∧ (∀ m ∈ block.occurrences, ¬ IsLoose tree m)
      ∧ ¬ block.HasOneParent tree

section

variable {tree : Node} {block : Block} {m : Occurrence}

lemma isLoose_iff : IsLoose tree m ↔
    ∃ p ∈ passages tree, p.holds m = true ∧ p.isParagraph = false := by
  constructor
  · rintro ⟨s, hs, hholds, hplace⟩
    obtain ⟨p, hp, hpholds, rfl⟩ := mem_segments_holds.mp ⟨hs, hholds⟩
    exact ⟨p, hp, hpholds, by simpa [Passage.segment] using hplace⟩
  · rintro ⟨p, hp, hpholds, hloose⟩
    obtain ⟨hs, hholds⟩ := mem_segments_holds.mpr ⟨p, hp, hpholds, rfl⟩
    exact ⟨p.segment, hs, hholds, by simp [Passage.segment, hloose]⟩

/-- A marker that a passage holds has a site exactly if it is not loose. -/
lemma site?_eq_none (h : ∃ p ∈ passages tree, p.holds m = true) :
    site? (segments tree) m = none ↔ IsLoose tree m := by
  obtain ⟨p, hp, hholds⟩ := h
  rw [isLoose_iff, Option.eq_none_iff_forall_ne_some]
  constructor
  · intro hnone
    refine ⟨p, hp, hholds, Bool.eq_false_iff.mpr fun hparagraph => ?_⟩
    exact hnone _ (site?_eq_some.mpr ⟨p, hp, hparagraph, hholds, rfl⟩)
  · rintro ⟨q, hq, hqholds, hloose⟩ s hsite
    obtain ⟨r, hr, hparagraph, hrholds, -⟩ := site?_eq_some.mp hsite
    rw [eq_of_holds hq hr hqholds hrholds, hparagraph] at hloose
    exact Bool.noConfusion hloose

lemma exists_site_iff (h : ∃ p ∈ passages tree, p.holds m = true) :
    (∃ s, site? (segments tree) m = some s) ↔ ¬ IsLoose tree m := by
  rw [← Option.ne_none_iff_exists', ne_eq, site?_eq_none h]

/-- The site of a marker is in the paragraph where it stands. -/
lemma standsAt_iff {s : Site} (h : site? (segments tree) m = some s) {place : Place} :
    StandsAt tree m place ↔ place = s.place := by
  obtain ⟨p, hp, hparagraph, hholds, rfl⟩ := site?_eq_some.mp h
  constructor
  · rintro ⟨segment, hs, hin, hplace⟩
    obtain ⟨q, hq, hqholds, rfl⟩ := mem_segments_holds.mp ⟨hs, hin⟩
    obtain rfl := eq_of_holds hp hq hholds hqholds
    simpa [Passage.segment, hparagraph, Passage.site, eq_comm] using hplace
  · rintro rfl
    obtain ⟨hs, hin⟩ := mem_segments_holds.mpr ⟨p, hp, hholds, rfl⟩
    exact ⟨p.segment, hs, hin, by simp [Passage.segment, hparagraph, Passage.site]⟩

lemma parent?_eq_none {place : Place} : Place.parent? place = none ↔ place = [] := by
  cases place <;> simp [Place.parent?]

lemma parent?_eq_some {place parent : Place} :
    Place.parent? place = some parent ↔ place ≠ [] ∧ place.dropLast = parent := by
  cases place <;> simp [Place.parent?]

/-- The sites of a section are aligned exactly if their paragraphs have one parent. -/
lemma isAligned_iff {sited : SitedBlock} : sited.isAligned = true ↔
    ∃ parent : Option Place, ∀ site ∈ sited.sites, Place.parent? site.place = parent := by
  simp only [SitedBlock.isAligned, Bool.or_eq_true, List.all_eq_true, beq_iff_eq,
    Bool.and_eq_true, Bool.not_eq_true', List.isEmpty_eq_false_iff]
  constructor
  · rintro (hsame | hsiblings)
    · exact ⟨_, fun site hsite => congrArg Place.parent? (hsame site hsite)⟩
    · exact ⟨_, fun site hsite => parent?_eq_some.mpr (hsiblings site hsite)⟩
  · rintro ⟨parent, hparent⟩
    have hopening := hparent sited.opening (by simp [SitedBlock.sites])
    cases parent with
    | none =>
        rw [parent?_eq_none] at hopening
        exact Or.inl fun site hsite => by
          rw [parent?_eq_none.mp (hparent site hsite), hopening]
    | some place =>
        obtain ⟨-, rfl⟩ := parent?_eq_some.mp hopening
        exact Or.inr fun site hsite => parent?_eq_some.mp (hparent site hsite)

/-- Of a section whose markers have sites, alignment is a matter of parents. -/
lemma isAligned_sited (h : ∀ m ∈ block.occurrences, ∃ s, site? (segments tree) m = some s) :
    (block.sited tree).isAligned = true ↔ block.HasOneParent tree := by
  rw [isAligned_iff, Block.sites_sited, Block.HasOneParent]
  refine exists_congr fun parent => ?_
  rw [List.forall_mem_map]
  refine forall₂_congr fun m hm => ?_
  obtain ⟨s, hs⟩ := h m hm
  obtain ⟨-, -, -, rfl⟩ := home_of_site? hs
  simp only [standsAt_iff hs, forall_eq]

lemma not_isLoose_of_markers (ho : ¬ IsLoose tree block.opening)
    (hc : ¬ IsLoose tree block.closing) (ha : ¬ ∃ m ∈ block.alternative, IsLoose tree m) :
    ∀ m ∈ block.occurrences, ¬ IsLoose tree m := by
  intro m hm hloose
  rcases List.mem_append.mp hm with hm | hm
  · rcases List.mem_cons.mp hm with rfl | hm
    · exact ho hloose
    · exact ha ⟨m, Option.mem_toList.mp hm, hloose⟩
  · exact hc (List.mem_singleton.mp hm ▸ hloose)

lemma ofReason_ne_boundary (condition : Condition) (reason : Reason) (error : BoundaryError) :
    Cause.ofReason condition reason ≠ .boundary error := by
  cases reason <;> simp [Cause.ofReason]

/-- The section fails over its place, and the report is of this kind and names its condition. -/
def Block.FailsAs (tree : Node) (data : Value) (block : Block) (kind : String) : Prop :=
  ∃ error : BoundaryError, block.edits (segments tree) data = .error (.boundary error)
    ∧ error.kind = kind ∧ error.condition = block.condition

/-- When a section fails over its place, and how. -/
structure Block.FailsByPlace (tree : Node) (data : Value) (block : Block) : Prop where
  opening : block.FailsAs tree data "if_marker_not_found" ↔ IsLoose tree block.opening
  closing : block.FailsAs tree data "endif_marker_not_found" ↔
    ¬ IsLoose tree block.opening ∧ IsLoose tree block.closing
  boundaries : block.FailsAs tree data "boundaries_not_found" ↔
    ¬ IsLoose tree block.opening ∧ ¬ IsLoose tree block.closing
      ∧ ((∃ m ∈ block.alternative, IsLoose tree m) ∨ ¬ block.HasOneParent tree)
  /-- The condition is not looked at: with any other data the section fails alike. -/
  regardless : ∀ error, block.edits (segments tree) data = .error (.boundary error) →
    ∀ other, block.edits (segments tree) other = .error (.boundary error)

lemma condition_of_misplaced {error : BoundaryError} (h : block.Misplaced tree error) :
    error.condition = block.condition := by
  cases error <;> exact h.1

section

variable (h : ∀ m ∈ block.occurrences, ∃ p ∈ passages tree, p.holds m = true)

include h

/-- A section that is not located is misplaced. -/
lemma misplaced_of_locate {error : BoundaryError}
    (hlocate : block.locate (segments tree) = .error error) : block.Misplaced tree error := by
  have hopening := h _ (opening_mem_occurrences block)
  have hclosing := h _ (closing_mem_occurrences block)
  by_cases ho : IsLoose tree block.opening
  · obtain rfl : .openingLoose block.condition block.opening.text = error := by
      simpa [Block.locate, (site?_eq_none hopening).mpr ho] using hlocate
    exact ⟨rfl, rfl, ho⟩
  obtain ⟨opening, hos⟩ := (exists_site_iff hopening).mpr ho
  by_cases hc : IsLoose tree block.closing
  · obtain rfl : .closingLoose block.condition = error := by
      simpa [Block.locate, hos, (site?_eq_none hclosing).mpr hc] using hlocate
    exact ⟨rfl, ho, hc⟩
  obtain ⟨closing, hcs⟩ := (exists_site_iff hclosing).mpr hc
  by_cases ha : ∃ m ∈ block.alternative, IsLoose tree m
  · obtain ⟨m, hm, hml⟩ := ha
    have hnone := (site?_eq_none (h m (alternative_mem_occurrences hm))).mpr hml
    obtain rfl : .alternativeLoose block.condition = error := by
      simpa [Block.locate, hos, hcs, Option.mem_def.mp hm, hnone] using hlocate
    exact ⟨rfl, ho, hc, m, hm, hml⟩
  · have hall := not_isLoose_of_markers ho hc ha
    have hsites := fun m hm => (exists_site_iff (h m hm)).mpr (hall m hm)
    rw [locate_of_sites hsites] at hlocate
    split at hlocate
    · simp at hlocate
    · next haligned =>
        obtain rfl := Except.error.inj hlocate
        exact ⟨rfl, hall, mt (isAligned_sited hsites).mpr haligned⟩

/-- A section that is misplaced is not located. -/
lemma locate_of_misplaced {error : BoundaryError} (hmisplaced : block.Misplaced tree error) :
    block.locate (segments tree) = .error error := by
  have hopening := h _ (opening_mem_occurrences block)
  have hclosing := h _ (closing_mem_occurrences block)
  cases error with
  | openingLoose condition marker =>
      obtain ⟨rfl, rfl, ho⟩ := hmisplaced
      simp [Block.locate, (site?_eq_none hopening).mpr ho]
  | closingLoose condition =>
      obtain ⟨rfl, ho, hc⟩ := hmisplaced
      obtain ⟨opening, hos⟩ := (exists_site_iff hopening).mpr ho
      simp [Block.locate, hos, (site?_eq_none hclosing).mpr hc]
  | alternativeLoose condition =>
      obtain ⟨rfl, ho, hc, m, hm, ha⟩ := hmisplaced
      obtain ⟨opening, hos⟩ := (exists_site_iff hopening).mpr ho
      obtain ⟨closing, hcs⟩ := (exists_site_iff hclosing).mpr hc
      have hnone := (site?_eq_none (h m (alternative_mem_occurrences hm))).mpr ha
      simp [Block.locate, hos, hcs, Option.mem_def.mp hm, hnone]
  | notSiblings condition =>
      obtain ⟨rfl, hall, hparent⟩ := hmisplaced
      have hsites := fun m hm => (exists_site_iff (h m hm)).mpr (hall m hm)
      rw [locate_of_sites hsites, if_neg (mt (isAligned_sited hsites).mp hparent)]

/-- **A section fails over its place exactly if it is misplaced,** whatever its condition comes
to. -/
theorem edits_eq_boundary (data : Value) {error : BoundaryError} :
    block.edits (segments tree) data = .error (.boundary error) ↔ block.Misplaced tree error := by
  have hlocate : block.locate (segments tree) = .error error ↔ block.Misplaced tree error :=
    ⟨misplaced_of_locate h, locate_of_misplaced h⟩
  rw [← hlocate, Block.edits, bind_eq_error]
  constructor
  · rintro (hfails | ⟨sited, -, hlater⟩)
    · obtain ⟨other, hother, heq⟩ := mapError_eq_error.mp hfails
      rw [hother, Cause.boundary.inj heq]
    · rcases bind_eq_error.mp hlater with hcondition | ⟨holds, -, hedits⟩
      · obtain ⟨reason, -, heq⟩ := mapError_eq_error.mp hcondition
        exact absurd heq (ofReason_ne_boundary _ _ _)
      · simp at hedits
  · intro hfails
    exact Or.inl (mapError_eq_error.mpr ⟨error, hfails, rfl⟩)

lemma failsAs_iff {data : Value} {kind : String} : block.FailsAs tree data kind ↔
      ∃ error, block.Misplaced tree error ∧ error.kind = kind := by
  refine exists_congr fun error => ?_
  rw [edits_eq_boundary h]
  exact ⟨fun ⟨hmisplaced, hkind, _⟩ => ⟨hmisplaced, hkind⟩,
    fun ⟨hmisplaced, hkind⟩ => ⟨hmisplaced, hkind, condition_of_misplaced hmisplaced⟩⟩

/-- **When a section fails over its place.** -/
theorem failsByPlace (data : Value) : block.FailsByPlace tree data where
  opening := by
    rw [failsAs_iff h]
    constructor
    · rintro ⟨error, hmisplaced, hkind⟩
      cases error with
      | openingLoose condition marker => exact hmisplaced.2.2
      | closingLoose | alternativeLoose | notSiblings => simp [BoundaryError.kind] at hkind
    · intro ho
      exact ⟨.openingLoose block.condition block.opening.text, ⟨rfl, rfl, ho⟩, rfl⟩
  closing := by
    rw [failsAs_iff h]
    constructor
    · rintro ⟨error, hmisplaced, hkind⟩
      cases error with
      | closingLoose condition => exact hmisplaced.2
      | openingLoose | alternativeLoose | notSiblings => simp [BoundaryError.kind] at hkind
    · intro hc
      exact ⟨.closingLoose block.condition, ⟨rfl, hc⟩, rfl⟩
  boundaries := by
    rw [failsAs_iff h]
    constructor
    · rintro ⟨error, hmisplaced, hkind⟩
      cases error with
      | openingLoose | closingLoose => simp [BoundaryError.kind] at hkind
      | alternativeLoose condition =>
          obtain ⟨-, ho, hc, ha⟩ := hmisplaced
          exact ⟨ho, hc, Or.inl ha⟩
      | notSiblings condition =>
          obtain ⟨-, hall, hparent⟩ := hmisplaced
          exact ⟨hall _ (opening_mem_occurrences block), hall _ (closing_mem_occurrences block),
            Or.inr hparent⟩
    · rintro ⟨ho, hc, hrest⟩
      by_cases ha : ∃ m ∈ block.alternative, IsLoose tree m
      · exact ⟨.alternativeLoose block.condition, ⟨rfl, ho, hc, ha⟩, rfl⟩
      · exact ⟨.notSiblings block.condition,
          ⟨rfl, not_isLoose_of_markers ho hc ha, hrest.resolve_left ha⟩, rfl⟩
  regardless error herror other :=
    (edits_eq_boundary h other).mpr ((edits_eq_boundary h data).mp herror)

end

end

/-! ## The first section that fails -/

/-- Sections fail with the first of them that fails. -/
lemma editsOfBlocks_eq_first {segments : List Segment} {data : Value} {cause : Cause} :
    ∀ {blocks : List Block}, editsOfBlocks segments data blocks = .error cause ↔
      ∃ before block after, blocks = before ++ block :: after
        ∧ (∀ b ∈ before, ∃ edits, b.edits segments data = .ok edits)
        ∧ block.edits segments data = .error cause
  | [] => by simp [editsOfBlocks]
  | first :: rest => by
      rw [editsOfBlocks, bind_eq_error]
      constructor
      · rintro (hfirst | ⟨edits, hfirst, hrest⟩)
        · exact ⟨[], first, rest, rfl, by simp, hfirst⟩
        · rcases bind_eq_error.mp hrest with hrest | ⟨others, -, hdone⟩
          · obtain ⟨before, block, after, rfl, hbefore, hblock⟩ := editsOfBlocks_eq_first.mp hrest
            exact ⟨first :: before, block, after, rfl,
              List.forall_mem_cons.mpr ⟨⟨edits, hfirst⟩, hbefore⟩, hblock⟩
          · simp at hdone
      · rintro ⟨before, block, after, heq, hbefore, hblock⟩
        cases before with
        | nil =>
            obtain ⟨rfl, rfl⟩ := List.cons.inj heq
            exact Or.inl hblock
        | cons other before =>
            obtain ⟨rfl, rfl⟩ := List.cons.inj heq
            obtain ⟨⟨edits, hfirst⟩, hbefore⟩ := List.forall_mem_cons.mp hbefore
            have hrest := editsOfBlocks_eq_first.mpr ⟨before, block, after, rfl, hbefore, hblock⟩
            exact Or.inr ⟨edits, hfirst, bind_eq_error.mpr (Or.inl hrest)⟩

/-- **A pass fails over a boundary exactly if the first of its sections that fails does.** -/
theorem resolvePass_eq_boundary {tree : Node} {data : Value} {blocks : List Block}
    (h : pair (markers (flatText tree)) = .ok blocks) {error : BoundaryError} :
    resolvePass tree data = .error (.boundary error) ↔
      ∃ before block after, blocks = before ++ block :: after
        ∧ (∀ b ∈ before, ∃ edits, b.edits (segments tree) data = .ok edits)
        ∧ block.edits (segments tree) data = .error (.boundary error) := by
  rw [← editsOfBlocks_eq_first, resolvePass]
  split
  · next hnone =>
      rw [List.isEmpty_iff] at hnone
      rw [hnone] at h
      obtain rfl : [] = blocks := Except.ok.inj h
      simp [editsOfBlocks]
  · rw [h, mapError_ok, ok_bind, bind_eq_error]
    simp

/-- The markers of outermost sections lie in passages. -/
lemma exists_holds_of_pair {tree : Node} {blocks : List Block}
    (h : pair (markers (flatText tree)) = .ok blocks) {block : Block} (hblock : block ∈ blocks) :
    ∀ m ∈ block.occurrences, ∃ p ∈ passages tree, p.holds m = true := by
  intro m hm
  have hmem : m ∈ blocks.flatMap Block.occurrences := List.mem_flatMap.mpr ⟨block, hblock, hm⟩
  obtain ⟨marker, hmarker, rfl⟩ := List.mem_map.mp ((pair_occurrences h).subset hmem)
  exact exists_holds hmarker

/-- **Sections are located.**  The segments of any tree lie in its flat text as they should.  So an
outermost section fails over its place exactly if one of its markers stands in loose text or its
paragraphs do not have one parent, the opening marker being blamed before the closing one and both
before the rest.  Its condition does not matter to that.  And this is what a pass reports if it comes
to such a section before one that fails otherwise. -/
theorem sections_are_located (tree : Node) :
    IsLaidOut tree ∧ ∀ (data : Value) (blocks : List Block),
      pair (markers (flatText tree)) = .ok blocks →
        (∀ block ∈ blocks, block.FailsByPlace tree data)
        ∧ ∀ error, resolvePass tree data = .error (.boundary error) ↔
          ∃ before block after, blocks = before ++ block :: after
            ∧ (∀ b ∈ before, ∃ edits, b.edits (segments tree) data = .ok edits)
            ∧ block.edits (segments tree) data = .error (.boundary error) := by
  refine ⟨isLaidOut tree, fun data blocks h => ⟨fun block hblock => ?_, fun error => ?_⟩⟩
  · exact failsByPlace (exists_holds_of_pair h hblock) data
  · exact resolvePass_eq_boundary h

/-- Three sections: one inside a paragraph, one with its alternative marker in loose text, and one
that ends outside the table in which it begins. -/
theorem sections_are_located_misplaced :
    let paragraph (t : String) : Node :=
      .element ⟨Word.paragraph, [], []⟩ [Word.makeRun t.toList none]
    let tree : Node := .element ⟨Word.named "body", [], []⟩
      [paragraph "@if:c@y@endif@", paragraph "@if:a@", .text "\n@else@".toList,
        paragraph "@endif@", .element ⟨Word.table, [], []⟩ [paragraph "@if:b@"],
        paragraph "@endif@"]
    let data := flags [("c", true)]
    let inside : Block :=
      ⟨⟨0, "@if:c@".toList⟩, .ofPath ["c".toList], none, ⟨7, "@endif@".toList⟩⟩
    let loose : Block := ⟨⟨15, "@if:a@".toList⟩, .ofPath ["a".toList],
      some ⟨23, "@else@".toList⟩, ⟨30, "@endif@".toList⟩⟩
    let across : Block :=
      ⟨⟨38, "@if:b@".toList⟩, .ofPath ["b".toList], none, ⟨45, "@endif@".toList⟩⟩
    pair (markers (flatText tree)) = .ok [inside, loose, across]
      ∧ IsLaidOut tree
      ∧ (∀ block ∈ [inside, loose, across], block.FailsByPlace tree data)
      ∧ resolvePass tree data = .error (.boundary (.alternativeLoose loose.condition))
      ∧ (∃ before block after, [inside, loose, across] = before ++ block :: after
        ∧ (∀ b ∈ before, ∃ edits, b.edits (segments tree) data = .ok edits)
        ∧ block.edits (segments tree) data
            = .error (.boundary (.alternativeLoose loose.condition)))
      ∧ across.FailsAs tree data "boundaries_not_found"
      ∧ ¬ across.HasOneParent tree := by
  intro paragraph tree data inside loose across
  have hpair : pair (markers (flatText tree)) = .ok [inside, loose, across] := by decide +kernel
  obtain ⟨hlaid, hsections⟩ := sections_are_located tree
  obtain ⟨hfails, hpass⟩ := hsections data _ hpair
  have hreport : resolvePass tree data
      = .error (.boundary (.alternativeLoose loose.condition)) := by decide +kernel
  have hacross : across.FailsAs tree data "boundaries_not_found" :=
    ⟨.notSiblings across.condition, by decide +kernel, rfl, rfl⟩
  obtain ⟨-, -, hrest⟩ := (hfails across (by simp)).boundaries.mp hacross
  exact ⟨hpair, hlaid, hfails, hreport, (hpass _).mp hreport, hacross,
    hrest.resolve_left (by simp [across])⟩

end FormLetter
