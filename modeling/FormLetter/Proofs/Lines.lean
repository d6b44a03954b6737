import FormLetter.Proofs.Boundaries
import FormLetter.Proofs.Courses

/-!
# Sections inside a paragraph

A paragraph may hold whole sections in its text.  All cuts that their rulings ask for land in this
one paragraph, over text nodes that end wherever they like.

* `Line` — a paragraph with a reading of its text as phrases.
* `Line.result` — what becomes of it in the end: the characters that the meaning of its text keeps,
  each in its text node (`content_result`).  `Line.vanishes` — it goes if it had a marker and shows
  nothing any more.
* `Line.plan` — the plan of one pass, which leaves `Line.remainder`, or nothing if `Line.drops`.
  `result_pass`, `vanishes_pass`, `vanishes_of_drops` — a pass does not change what becomes of the
  paragraph in the end.
* `Line.course` — the passes over a paragraph that is the whole tree, and so never goes.
-/

namespace FormLetter

/-- Every ruling deletes something. -/
lemma Ruling.deleted_ne_nil (r : Ruling) : r.deleted ≠ [] := by
  rcases r with ⟨⟨opening, condition, alternative, closing⟩, holds⟩
  cases holds <;> cases alternative <;> simp [Ruling.deleted, Ruling.stripped, Ruling.lost?]

/-- A section is located if its markers all stand in one paragraph. -/
lemma located_of_passage {tree : Node} {block : Block} {p : Passage} (hp : p ∈ passages tree)
    (hpar : p.isParagraph = true) (hholds : ∀ m ∈ block.occurrences, p.holds m = true) :
    block.Located tree := by
  have hhome : ∀ m ∈ block.occurrences, home tree m = p := fun m hm => eq_home hp (hholds m hm)
  refine ⟨fun m hm => hhome m hm ▸ hp, fun m hm => hhome m hm ▸ hpar,
    fun m hm => (hhome m hm).symm ▸ hholds m hm, Or.inl ?_⟩
  simp only [List.forall_mem_map]
  exact fun m hm n hn => by rw [hhome m hm, hhome n hn]

/-- A paragraph whose text reads as phrases.  Where it has sections, every at-sign of it belongs to
a token. -/
structure Line where
  node : Node
  phrases : Phrases
  isParagraph : node.isNamed Word.paragraph = true
  reads : phrases.pieces = pieces node.content
  sound : phrases.isPlain = true ∨ ∀ p ∈ phrases.pieces, p.IsSound

namespace Line

variable (line : Line) (holds : Path → Bool)

/-- The paragraph with the characters that the meaning of its text keeps. -/
def result : Node := line.node.sift (line.phrases.marks holds)

/-- Whether the paragraph goes: it had a marker, and shows nothing any more. -/
def vanishes : Bool := !line.phrases.isPlain && showsNothing (line.result holds)

/-- The paragraph with the characters that one pass keeps. -/
def remainder : Node := line.node.sift (line.phrases.passMarks holds)

/-- Whether one pass drops the paragraph. -/
def drops : Bool := !line.phrases.isPlain && showsNothing (line.remainder holds)

lemma length_content : line.node.content.length = line.phrases.length :=
  (Phrases.length_eq line.reads).symm

lemma text_phrases : line.phrases.text = line.node.content := Phrases.text_eq line.reads

/-- **The text of the paragraph becomes the meaning of its text.** -/
theorem content_result : (line.result holds).content = line.phrases.eval holds := by
  rw [result, content_sift, ← text_phrases, Phrases.siftText_marks]

lemma content_remainder :
    (line.remainder holds).content = (line.phrases.pass holds).text := by
  rw [remainder, content_sift, ← text_phrases, Phrases.siftText_passMarks]

/-- A paragraph without sections stays as it is. -/
lemma remainder_of_isPlain (h : line.phrases.isPlain = true) :
    line.remainder holds = line.node := by
  rw [remainder, Phrases.passMarks_of_isPlain holds h]
  refine sift_eq_self line.node ?_ fun mark hm => (List.mem_replicate.mp hm).2
  rw [List.length_replicate, length_content]

/-- The paragraph that one pass leaves, with its reading. -/
def pass : Line where
  node := line.remainder holds
  phrases := line.phrases.pass holds
  isParagraph := (isNamed_sift _ _ _).trans line.isParagraph
  reads := by
    rcases line.sound with hplain | hsound
    · rw [Phrases.pass_of_isPlain holds hplain, line.remainder_of_isPlain holds hplain, line.reads]
    · rw [content_remainder, Phrases.text, pieces_spell fun p hp =>
        hsound p ((Phrases.pieces_pass_sublist holds _).subset hp)]
  sound := by
    rcases line.sound with hplain | hsound
    · exact Or.inl (by rwa [Phrases.pass_of_isPlain holds hplain])
    · exact Or.inr fun p hp => hsound p ((Phrases.pieces_pass_sublist holds _).subset hp)

/-- A pass does not change what becomes of the paragraph in the end. -/
lemma result_pass : (line.pass holds).result holds = line.result holds :=
  (sift_sift _ _ line.node).trans
    (congrArg (line.node.sift ·) (Phrases.thin_marks holds line.phrases))

/-- If no section is left after a pass, the pass has done everything. -/
lemma remainder_eq_result (h : (line.phrases.pass holds).isPlain = true) :
    line.remainder holds = line.result holds := by
  rw [← result_pass, result]
  have hmarks := Phrases.marks_of_isPlain holds h
  have hlen := (line.pass holds).length_content
  simp only [pass] at hlen ⊢
  rw [hmarks]
  refine (sift_eq_self _ ?_ fun mark hm => (List.mem_replicate.mp hm).2).symm
  rw [List.length_replicate, hlen]

/-- A paragraph without sections stays as it is. -/
lemma result_of_isPlain (h : line.phrases.isPlain = true) : line.result holds = line.node := by
  have hpass := Phrases.pass_of_isPlain holds h
  rw [← line.remainder_eq_result holds (by rwa [hpass]), line.remainder_of_isPlain holds h]

/-- In a paragraph that a pass drops it leaves no section: a blank text has no markers. -/
lemma isPlain_of_drops (h : line.drops holds = true) :
    (line.phrases.pass holds).isPlain = true := by
  rw [drops, showsNothing, Bool.and_eq_true, Bool.and_eq_true] at h
  have hreads := (line.pass holds).reads
  simp only [pass] at hreads
  rw [Phrases.isPlain_iff_signs, hreads, ← sign?_of_isBlank (line.remainder holds).content,
    ← pieces_spell (isSound_of_isBlank h.2.1), flatMap_text_map_char]

/-- A paragraph that a pass drops vanishes. -/
lemma vanishes_of_drops (h : line.drops holds = true) : line.vanishes holds = true := by
  rw [vanishes, ← line.remainder_eq_result holds (line.isPlain_of_drops holds h)]
  exact h

/-- A paragraph that a pass does not drop vanishes exactly if it does so afterwards. -/
lemma vanishes_pass (h : line.drops holds = false) :
    (line.pass holds).vanishes holds = line.vanishes holds := by
  have hphrases : (line.pass holds).phrases = line.phrases.pass holds := rfl
  rw [vanishes, vanishes, result_pass, hphrases]
  cases hplain : line.phrases.isPlain with
  | true => rw [Phrases.pass_of_isPlain holds hplain, hplain]
  | false =>
      cases hrest : (line.phrases.pass holds).isPlain with
      | false => rfl
      | true =>
          rw [drops, hplain, line.remainder_eq_result holds hrest] at h
          simpa using h.symm

/-! ### The plan for a paragraph -/

lemma markersFrom_content (start : Nat) :
    markersFrom start line.node.content = markersAmong start line.phrases.pieces := by
  rw [line.reads]
  rfl

variable {tree : Node} {holds}

/-- The edits of the rulings on the sections of the paragraph: cuts from its text. -/
lemma edits_rulings {p : Passage} (hp : p ∈ passages tree) (hnode : p.node = line.node)
    {r : Ruling} (hr : r ∈ line.phrases.rulings holds p.start) :
    r.block.Located tree ∧ r.edits tree = r.deleted.map fun range =>
      .cut p.place ⟨range.low - p.start, range.high - p.start⟩ := by
  have hholds : ∀ m ∈ r.block.occurrences, p.holds m = true := by
    intro m hm
    have hmem : m ∈ ((line.phrases.rulings holds p.start).map Ruling.block).flatMap
        Block.occurrences := List.mem_flatMap.mpr ⟨r.block, List.mem_map_of_mem hr, hm⟩
    obtain ⟨marker, hmarker, rfl⟩ := List.mem_map.mp ((pair_occurrences
      (pair_eq_ok_iff.mpr (line.phrases.nested_rulings holds p.start))).subset hmem)
    rw [← line.markersFrom_content, ← hnode] at hmarker
    obtain ⟨hlow, -, hhigh⟩ := bounds_of_mem_markersFrom hmarker
    exact Passage.holds_eq_true.mpr ⟨hlow, hhigh⟩
  have hhome : ∀ m ∈ r.block.occurrences, home tree m = p := fun m hm => eq_home hp (hholds m hm)
  have hpar : p.isParagraph = true := by
    rw [Leaf.isParagraph, hnode]
    exact line.isParagraph
  refine ⟨located_of_passage hp hpar hholds, ?_⟩
  have hstripped : (r.stripped.map fun m =>
        Edit.cut (homeSite tree m).place (homeSite tree m).range)
      = (r.stripped.map Occurrence.range).map fun range =>
        Edit.cut p.place ⟨range.low - p.start, range.high - p.start⟩ := by
    rw [List.map_map]
    refine List.map_congr_left fun m hm => ?_
    rw [homeSite, hhome m (r.stripped_subset m hm)]
    rfl
  cases hlost : r.lost? with
  | none =>
      rw [edits_kept hlost, hstripped, Ruling.deleted, hlost]
      simp
  | some span =>
      obtain ⟨first, last⟩ := span
      obtain ⟨hf, hl⟩ := Ruling.mem_of_lost? hlost
      rw [Ruling.edits, Ruling.select_sited, Selection.edits, Ruling.deleted, hlost]
      simp only [Option.map_some, List.map_map, Function.comp_def] at hstripped ⊢
      rw [hstripped, homeSite, homeSite, hhome first hf, hhome last hl]
      simp [Passage.site]

/-- Cutting what rulings delete leaves the remainder. -/
lemma cut_deletedBy (holds : Path → Bool) (start : Nat) :
    line.node.cut ((deletedBy (line.phrases.rulings holds start)).map fun range =>
        ⟨range.low - start, range.high - start⟩) 0
      = line.remainder holds := by
  have hshift : line.node.cut ((deletedBy (line.phrases.rulings holds start)).map fun range =>
        ⟨range.low - start, range.high - start⟩) 0
      = line.node.cut (deletedBy (line.phrases.rulings holds start)) start := by
    refine cut_congr line.node fun i _ => ?_
    simp only [covered, List.any_map]
    congr 1
    funext range
    simp only [Function.comp_apply, Range.covers, Bool.and_eq_decide, decide_eq_true_eq]
    exact decide_eq_decide.mpr (by omega)
  rw [hshift, cut_eq_sift, line.length_content, Phrases.uncovered_rulings, remainder]

lemma cutsHere_cuts (ranges : List Range) : cutsHere (ranges.map (Edit.cut [])) = ranges := by
  rw [cutsHere, List.filterMap_map]
  exact (List.filterMap_congr fun range _ => rfl).trans List.filterMap_some

/-- What the cuts of a text leave of its paragraph. -/
lemma edit_cuts {ranges : List Range} (hne : ranges ≠ []) :
    line.node.edit (ranges.map (Edit.cut [])) = line.node.cut ranges 0 := by
  have hpar := line.isParagraph
  have hsome : ranges.isEmpty = false := by simpa using hne
  cases hnode : line.node with
  | text value =>
      rw [hnode] at hpar
      simp [Node.isNamed] at hpar
  | element tag children =>
      rw [edit_element, cutsHere_cuts, hsome]
      rfl

/-- What the cuts of a text leave of its paragraph among its siblings. -/
lemma editChild?_cuts {ranges : List Range} (hne : ranges ≠ []) :
    line.node.editChild? (ranges.map (Edit.cut []))
      = if showsNothing (line.node.cut ranges 0) then none else some (line.node.cut ranges 0) := by
  have hremove : removesHere (ranges.map (Edit.cut [])) = false := by
    simp [removesHere]
  have hsome : ranges.isEmpty = false := by simpa using hne
  rw [Node.editChild?, hremove, line.edit_cuts hne, cutsHere_cuts, hsome]
  simp

lemma editsUnder_cuts (index : Nat) (ranges : List Range) :
    editsUnder index (ranges.map (Edit.cut [index])) = ranges.map (Edit.cut []) := by
  induction ranges with
  | nil => rfl
  | cons range rest ih => simp [editsUnder, Edit.under?]

/-- The cuts that the rulings on the sections of the paragraph ask for. -/
def cuts (holds : Path → Bool) (start : Nat) : List Range :=
  (deletedBy (line.phrases.rulings holds start)).map fun range =>
    ⟨range.low - start, range.high - start⟩

lemma edits_cuts (holds : Path → Bool) {p : Passage} (hp : p ∈ passages tree)
    (hnode : p.node = line.node) :
    (line.phrases.rulings holds p.start).flatMap (Ruling.edits tree)
      = (line.cuts holds p.start).map (Edit.cut p.place) := by
  rw [cuts, List.map_map, deletedBy, List.map_flatMap]
  exact List.flatMap_congr fun r hr => (line.edits_rulings hp hnode hr).2

/-- Something is cut exactly if there are sections. -/
lemma cuts_eq_nil_iff (holds : Path → Bool) (start : Nat) :
    line.cuts holds start = [] ↔ line.phrases.isPlain = true := by
  have hconditions := line.phrases.map_condition_rulings holds start
  rw [cuts, List.map_eq_nil_iff, Phrases.isPlain_iff_front]
  cases hrulings : line.phrases.rulings holds start with
  | nil =>
      rw [hrulings, List.map_nil, eq_comm, List.map_eq_nil_iff] at hconditions
      simp [hconditions, deletedBy]
  | cons r rest =>
      rw [hrulings, List.map_cons] at hconditions
      have hfront : line.phrases.front ≠ [] := fun hnil => by
        rw [hnil] at hconditions
        simp at hconditions
      simp [hfront, Phrases.deletedBy_cons, r.deleted_ne_nil]

/-- What a pass makes of the paragraph among its siblings. -/
lemma editChild?_line (holds : Path → Bool) (start : Nat) :
    line.node.editChild? ((line.cuts holds start).map (Edit.cut []))
      = if line.drops holds then none else some (line.remainder holds) := by
  cases hplain : line.phrases.isPlain with
  | true =>
      rw [(line.cuts_eq_nil_iff holds start).mpr hplain, drops, hplain,
        line.remainder_of_isPlain holds hplain, Node.editChild?]
      simp [removesHere, cutsHere, edit_nil]
  | false =>
      have hsome : line.cuts holds start ≠ [] := fun hnil => by
        rw [line.cuts_eq_nil_iff holds start, hplain] at hnil
        exact Bool.noConfusion hnil
      rw [line.editChild?_cuts hsome, cuts, line.cut_deletedBy, drops, hplain]
      rfl

/-- **The plan for a paragraph:** one pass over its text. -/
lemma plan {s : Spot} (hplaced : ∀ p ∈ s.passages [line.node], p ∈ passages tree) :
    s.Plan tree holds [line.node] (if line.drops holds then [] else [line.remainder holds])
      (line.phrases.rulings holds s.start) := by
  rw [Spot.passages_paragraph _ line.isParagraph, List.forall_mem_singleton] at hplaced
  refine ⟨?_, fun r hr => (line.edits_rulings hplaced rfl hr).1,
    fun r hr => Phrases.holds_of_mem_rulings hr,
    (line.cuts holds s.start).map (Edit.cut [s.index]), ?_, ?_, ?_⟩
  · rw [Spot.markers_paragraph _ line.isParagraph, line.markersFrom_content]
    exact line.phrases.nested_rulings holds s.start
  · rw [List.map_map]
    exact line.edits_cuts holds hplaced rfl
  · exact List.forall_mem_map.mpr fun range _ =>
      ⟨s.index, [], rfl, Nat.le_refl _, Nat.lt_succ_self _⟩
  · rw [editFrom_cons, editsUnder_cuts, editChild?_line]
    cases line.drops holds <;> rfl

/-! ### A paragraph that is the whole tree -/

lemma passages_node : passages line.node = [⟨⟨[], line.node⟩, 0⟩] := by
  rw [passages, leaves_of_paragraph line.isParagraph]
  rfl

/-- A pass over the paragraph, if it is the whole tree. -/
lemma settles (holds : Path → Bool) :
    Settles line.node holds (line.phrases.rulings holds 0) (line.remainder holds) := by
  have hmem : (⟨⟨[], line.node⟩, 0⟩ : Passage) ∈ passages line.node := by simp [passages_node]
  refine ⟨?_, fun r hr => (line.edits_rulings hmem rfl hr).1,
    fun r hr => Phrases.holds_of_mem_rulings hr, ?_⟩
  · rw [markers_flatText, passages_node, List.flatMap_singleton, line.markersFrom_content]
    exact line.phrases.nested_rulings holds 0
  · have hedits := line.edits_cuts holds hmem rfl
    rw [show (Passage.start ⟨⟨[], line.node⟩, 0⟩) = 0 from rfl] at hedits
    rw [hedits]
    cases hplain : line.phrases.isPlain with
    | true =>
        rw [(line.cuts_eq_nil_iff holds 0).mpr hplain, List.map_nil, edit_nil,
          line.remainder_of_isPlain holds hplain]
    | false =>
        have hsome : line.cuts holds 0 ≠ [] := fun hnil => by
          rw [line.cuts_eq_nil_iff holds 0, hplain] at hnil
          exact Bool.noConfusion hnil
        rw [← line.cut_deletedBy holds 0]
        exact line.edit_cuts hsome

/-- The passes over a paragraph that is the whole tree. -/
def course (holds : Path → Bool) : Course holds Line where
  tree := node
  next line := line.pass holds
  result line := line.result holds
  front line := line.phrases.front
  reached line := line.phrases.reached holds
  settled line := ⟨_, line.settles holds, line.phrases.map_condition_rulings holds 0⟩
  result_next line := line.result_pass holds
  mem_reached line _ := Phrases.mem_reached holds
  finished line h := by
    have hplain := Phrases.isPlain_iff_front.mpr h
    exact ⟨line.result_of_isPlain holds hplain, Phrases.reached_of_isPlain holds hplain⟩

end Line

end FormLetter
