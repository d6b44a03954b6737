import FormLetter.Proofs.Phrases
import FormLetter.Proofs.Planning

/-!
# Sections over whole children

A section may run over several children of one parent.  Its markers then stand in paragraphs of
their own, which show nothing but the marker, so a pass deals in whole children: the paragraphs of
the markers go, and with them the branch that the condition does not select.

* `Boundary` — such a paragraph, with its marker.  It goes when the marker is cut
  (`Boundary.editChild?_marker`).
* `removal` — the edits that take out a span of children; `edits_lost`, `edits_kept` — these and
  the cuts of markers are all that a ruling asks for here.
* `plan_plain`, `plan_divided` — the plans for a section of one branch and of two.  The branches
  need not be read: it is enough that their markers nest.
-/

namespace FormLetter

/-! ## Paragraphs with one marker -/

/-- Whether an element inside makes the paragraph worth keeping even without text. -/
def hasContentElement (paragraph : Node) : Bool :=
  paragraph.tags.any fun tag => Word.contentNames.contains tag.name

/-- A paragraph that shows nothing but one conditional marker. -/
structure Boundary (meaning : Meaning) where
  node : Node
  body : Text
  front : Text
  back : Text
  isParagraph : node.isNamed Word.paragraph = true
  sound : Meaning.ofBody? body = some meaning
  content : node.content = front ++ (Token.text ⟨body, meaning⟩ ++ back)
  blank_front : front.isBlank = true
  blank_back : back.isBlank = true
  bare : hasContentElement node = false

lemma isSound_of_isBlank {t : Text} (h : t.isBlank = true) : ∀ p ∈ t.map Piece.char, p.IsSound := by
  intro p hp
  obtain ⟨c, hc, rfl⟩ := List.mem_map.mp hp
  rintro rfl
  have := List.all_eq_true.mp h '@' hc
  exact absurd this (by decide)

lemma sign?_of_isBlank (t : Text) : (t.map Piece.char).filterMap Piece.sign? = [] := by
  induction t with
  | nil => rfl
  | cons c rest ih => simp [Piece.sign?]

namespace Boundary

variable {meaning : Meaning} (b : Boundary meaning)

/-- The marker. -/
def token : Token := ⟨b.body, meaning⟩

/-- Where the marker stands if the paragraph starts at the given position. -/
def marker (start : Nat) : Occurrence := ⟨start + b.front.length, b.token.text⟩

lemma content_eq : b.node.content = b.front ++ (b.token.text ++ b.back) := b.content

lemma pieces_content :
    pieces b.node.content
      = b.front.map Piece.char ++ .token b.token :: b.back.map Piece.char := by
  have hspell : b.node.content
      = (b.front.map Piece.char ++ .token b.token :: b.back.map Piece.char).flatMap
          Piece.text := by
    rw [b.content, List.flatMap_append, List.flatMap_cons, flatMap_text_map_char,
      flatMap_text_map_char]
    rfl
  rw [hspell, pieces_spell]
  simp only [List.forall_mem_append, List.forall_mem_cons]
  exact ⟨isSound_of_isBlank b.blank_front, b.sound, isSound_of_isBlank b.blank_back⟩

lemma markersAmong_chars (start : Nat) (t : Text) (ps : List Piece) :
    markersAmong start (t.map Piece.char ++ ps) = markersAmong (start + t.length) ps := by
  induction t generalizing start with
  | nil => rfl
  | cons c rest ih =>
      rw [List.map_cons, List.cons_append, markersAmong_bare rfl, ih]
      congr 1
      simp [Piece.text]
      omega

lemma markersFrom_content (start : Nat) :
    markersFrom start b.node.content
      = (b.token.marker? (start + b.front.length)).toList := by
  have hback : ∀ start, markersAmong start (b.back.map Piece.char) = [] := fun start => by
    have := markersAmong_chars start b.back []
    rwa [List.append_nil] at this
  have hfrom : markersFrom start b.node.content
      = markersAmong start (pieces b.node.content) := rfl
  rw [hfrom, pieces_content, markersAmong_chars]
  cases hm : b.token.marker? (start + b.front.length) with
  | none =>
      rw [markersAmong, tokensFrom, List.filterMap_cons_none (by exact hm)]
      exact hback _
  | some m =>
      rw [markersAmong, tokensFrom, List.filterMap_cons_some (by exact hm)]
      exact congrArg _ (hback _)

lemma isBlank_append (s t : Text) : Text.isBlank (s ++ t) = (s.isBlank && t.isBlank) :=
  List.all_append

/-- Without its marker the paragraph shows nothing. -/
lemma showsNothing_cut :
    showsNothing (b.node.cut [⟨b.front.length, b.front.length + b.token.text.length⟩] 0)
      = true := by
  have hfront : keepOutside [⟨b.front.length, b.front.length + b.token.text.length⟩] 0 b.front
      = b.front :=
    keepOutside_of_uncovered fun k hk => by simp [covered, Range.covers]; omega
  have htoken : keepOutside [⟨b.front.length, b.front.length + b.token.text.length⟩]
      (0 + b.front.length) b.token.text = [] :=
    keepOutside_of_covered fun k hk => by simp [covered, Range.covers]; omega
  have hback : keepOutside [⟨b.front.length, b.front.length + b.token.text.length⟩]
      (0 + b.front.length + b.token.text.length) b.back = b.back :=
    keepOutside_of_uncovered fun k hk => by simp [covered, Range.covers]
  have hbare := b.bare
  rw [hasContentElement] at hbare
  rw [showsNothing, content_cut, tags_cut, hbare, b.content_eq, keepOutside_append,
    keepOutside_append, hfront, htoken, hback, isBlank_append, b.blank_front, List.nil_append,
    b.blank_back]
  rfl

/-- The passage of the paragraph where it is the first of a row. -/
def passage (s : Spot) : Passage := ⟨⟨s.here, b.node⟩, s.start⟩

lemma holds_marker (s : Spot) : (b.passage s).holds (b.marker s.start) = true := by
  rw [Passage.holds_eq_true]
  simp only [passage, marker, Occurrence.stop, Passage.stop, b.content_eq, List.length_append]
  omega

/-- Where the marker stands in its paragraph. -/
lemma homeSite_marker {tree : Node} {s : Spot} (h : b.passage s ∈ passages tree) :
    homeSite tree (b.marker s.start)
      = ⟨s.here, ⟨b.front.length, b.front.length + b.token.text.length⟩,
          b.node.content.length⟩ := by
  rw [homeSite, eq_home h (b.holds_marker s)]
  simp only [Passage.site, passage, marker, Occurrence.stop, Site.mk.injEq, Range.mk.injEq,
    true_and, and_true]
  omega

lemma editChild?_marker :
    b.node.editChild? [.cut [] ⟨b.front.length, b.front.length + b.token.text.length⟩] = none := by
  have hnothing := b.showsNothing_cut
  have hpar := b.isParagraph
  cases hnode : b.node with
  | text value => rw [hnode] at hpar; simp [Node.isNamed] at hpar
  | element tag children =>
      rw [hnode] at hnothing
      have hedit : (Node.element tag children).edit
          [.cut [] ⟨b.front.length, b.front.length + b.token.text.length⟩]
            = (Node.element tag children).cut
              [⟨b.front.length, b.front.length + b.token.text.length⟩] 0 := by
        rw [edit_element]
        rfl
      rw [Node.editChild?, if_neg (by simp [removesHere]), hedit, hnothing]
      rfl

end Boundary

/-! ## Sections over children -/

/-- A section is located if its markers stand in paragraphs that are children of one parent. -/
lemma located_of_siblings {tree : Node} {block : Block} (parent : Place)
    (h : ∀ m ∈ block.occurrences, ∃ p ∈ passages tree, p.isParagraph = true ∧ p.holds m = true
      ∧ ∃ i, p.place = parent ++ [i]) : block.Located tree := by
  have hhome : ∀ m ∈ block.occurrences, home tree m ∈ passages tree
      ∧ (home tree m).isParagraph = true ∧ (home tree m).holds m = true
      ∧ ∃ i, (home tree m).place = parent ++ [i] := fun m hm => by
    obtain ⟨p, hp, hpar, hholds, hplace⟩ := h m hm
    rw [eq_home hp hholds]
    exact ⟨hp, hpar, hholds, hplace⟩
  refine ⟨fun m hm => (hhome m hm).1, fun m hm => (hhome m hm).2.1,
    fun m hm => (hhome m hm).2.2.1, Or.inr ⟨parent, fun place hplace => ?_⟩⟩
  obtain ⟨m, hm, rfl⟩ := List.mem_map.mp hplace
  exact (hhome m hm).2.2.2

/-- The edits that remove all children from one position to another. -/
def removal (i j : Nat) : List Edit :=
  .remove [i] :: .remove [j] :: (List.range' (i + 1) (j - (i + 1))).map fun k => .remove [k]

lemma mem_removal {i j k : Nat} (h : i ≤ k) (h' : k ≤ j) : .remove [k] ∈ removal i j := by
  simp only [removal, List.mem_cons, Edit.remove.injEq, List.cons.injEq, and_true, List.mem_map,
    List.mem_range'_1, exists_eq_right]
  omega

lemma isAmong_of_mem_removal {i j : Nat} (h : i < j) :
    ∀ e ∈ removal i j, e.IsAmong i (j + 1) := by
  simp only [removal, List.forall_mem_cons, List.forall_mem_map, List.mem_range'_1]
  exact ⟨⟨i, [], rfl, by omega, by omega⟩, ⟨j, [], rfl, by omega, by omega⟩,
    fun k hk => ⟨k, [], rfl, by omega, by omega⟩⟩

lemma editFrom_removal {i j : Nat} {nodes : List Node} (h : i + nodes.length = j + 1) :
    Node.editFrom (removal i j) i nodes = [] :=
  editFrom_removed fun k hk => mem_removal (by omega) (by omega)

/-- The edits for a lost span of several children. -/
lemma map_below_removal (parent : Place) (i j : Nat) :
    (removal i j).map (Edit.below parent)
      = Edit.remove (parent ++ [i]) :: Edit.remove (parent ++ [j])
        :: (placesBetween (parent ++ [i]) (parent ++ [j])).map Edit.remove := by
  simp only [removal, List.map_cons, List.map_map, placesBetween, List.getLastD_concat,
    List.dropLast_concat]
  rfl

/-- The edits of a ruling by which nothing is lost but markers. -/
lemma edits_kept {tree : Node} {r : Ruling} (h : r.lost? = none) :
    r.edits tree
      = r.stripped.map fun m => Edit.cut (homeSite tree m).place (homeSite tree m).range := by
  rw [Ruling.edits, Ruling.select_sited, Selection.edits, h, Option.map_none, List.map_map]
  rfl

/-- The edits of a ruling by which several children are lost, none of them with a kept marker. -/
lemma edits_lost {tree : Node} {r : Ruling} (parent : Place) (i j : Nat)
    (first last : Occurrence) (hlost : r.lost? = some (first, last))
    (hfirst : (homeSite tree first).place = parent ++ [i])
    (hlast : (homeSite tree last).place = parent ++ [j]) (hij : i ≠ j)
    (hstripped : ∀ m ∈ r.stripped, (homeSite tree m).place ≠ parent ++ [i]
      ∧ (homeSite tree m).place ≠ parent ++ [j]) :
    r.edits tree
      = (r.stripped.map fun m => Edit.cut (homeSite tree m).place (homeSite tree m).range)
        ++ (removal i j).map (Edit.below parent) := by
  have hunshared : ∀ k, k = i ∨ k = j →
      (r.stripped.map (homeSite tree)).any (·.place == parent ++ [k]) = false := by
    intro k hk
    rw [List.any_map, List.any_eq_false]
    intro n hn
    have := hstripped n hn
    rcases hk with rfl | rfl
    · simpa using this.1
    · simpa using this.2
  have hplaces : parent ++ [i] ≠ parent ++ [j] := by simpa using hij
  rw [Ruling.edits, Ruling.select_sited, Selection.edits, hlost, map_below_removal]
  simp only [Option.map_some, List.map_map, Function.comp_def, boundaryEdit, hfirst, hlast,
    hunshared i (Or.inl rfl), hunshared j (Or.inr rfl), hplaces, if_false, Bool.false_eq_true]

/-- Children in front of all edits stay. -/
lemma editFrom_behind {edits : List Edit} {index high : Nat} {front nodes : List Node}
    (h : ∀ e ∈ edits, e.IsAmong (index + front.length) high) :
    Node.editFrom edits index (front ++ nodes)
      = front ++ Node.editFrom edits (index + front.length) nodes := by
  rw [editFrom_append,
    editFrom_untouched front fun k hk => editsUnder_of_among h (Or.inl (by omega))]

/-- Children behind all edits stay. -/
lemma editFrom_before {edits : List Edit} (low : Nat) {index : Nat} {nodes back : List Node}
    (h : ∀ e ∈ edits, e.IsAmong low (index + nodes.length)) :
    Node.editFrom edits index (nodes ++ back) = Node.editFrom edits index nodes ++ back := by
  rw [editFrom_append,
    editFrom_untouched back fun k hk => editsUnder_of_among h (Or.inr (by omega))]

namespace Boundary

variable {meaning : Meaning} (b : Boundary meaning)

/-- The edit that cuts the marker where the paragraph is the child at the given position. -/
def strip (index : Nat) : Edit :=
  .cut [index] ⟨b.front.length, b.front.length + b.token.text.length⟩

lemma isAmong_strip {low high index : Nat} (hlow : low ≤ index) (hhigh : index < high) :
    ∀ e ∈ [b.strip index], e.IsAmong low high :=
  List.forall_mem_singleton.mpr ⟨index, [], rfl, hlow, hhigh⟩

lemma below_strip {tree : Node} {s : Spot} (h : b.passage s ∈ passages tree) :
    Edit.cut (homeSite tree (b.marker s.start)).place (homeSite tree (b.marker s.start)).range
      = (b.strip s.index).below s.parent := by
  rw [b.homeSite_marker h]
  rfl

/-- The paragraph goes when its marker is cut, whatever happens to other children. -/
lemma editFrom_strip {edits : List Edit} {index : Nat} (h : editsUnder index edits = []) :
    Node.editFrom ([b.strip index] ++ edits) index [b.node] = [] := by
  have hunder : editsUnder index ([b.strip index] ++ edits)
      = [.cut [] ⟨b.front.length, b.front.length + b.token.text.length⟩] := by
    rw [editsUnder_append, h, List.append_nil, editsUnder, strip]
    simp [Edit.under?]
  rw [editFrom_cons, hunder, b.editChild?_marker]
  rfl

lemma editsUnder_strip {index k : Nat} (h : k ≠ index) (edits : List Edit) :
    editsUnder k ([b.strip index] ++ edits) = editsUnder k edits := by
  rw [editsUnder_append, editsUnder_of_among (b.isAmong_strip (Nat.le_refl _) (Nat.lt_succ_self _))
    (by omega), List.nil_append]

/-- A paragraph in front of other children goes, and the edits of these do the rest. -/
lemma editFrom_strip_cons {edits : List Edit} {index high : Nat} {nodes : List Node}
    (h : ∀ e ∈ edits, e.IsAmong (index + 1) high) :
    Node.editFrom ([b.strip index] ++ edits) index (b.node :: nodes)
      = Node.editFrom edits (index + 1) nodes := by
  have hsplit : b.node :: nodes = [b.node] ++ nodes := rfl
  rw [hsplit, editFrom_append,
    b.editFrom_strip (editsUnder_of_among h (Or.inl (Nat.lt_succ_self _))), List.nil_append]
  exact editFrom_congr fun k hk => b.editsUnder_strip (by simp; omega) edits

/-- A paragraph behind other children goes, and the edits of these do the rest. -/
lemma editFrom_strip_concat {edits : List Edit} (low : Nat) {index : Nat} {nodes : List Node}
    (h : ∀ e ∈ edits, e.IsAmong low (index + nodes.length)) :
    Node.editFrom ([b.strip (index + nodes.length)] ++ edits) index (nodes ++ [b.node])
      = Node.editFrom edits index nodes := by
  rw [editFrom_append, b.editFrom_strip (editsUnder_of_among h (Or.inr (Nat.le_refl _))),
    List.append_nil]
  exact editFrom_congr fun k hk => b.editsUnder_strip (by omega) edits

end Boundary

section

variable {tree : Node} {holds : Path → Bool} {s : Spot} {path : Path}
  (opening : Boundary (.opening path)) (middle : Boundary .alternative)
  (closing : Boundary .closing)

/-- The edits of a ruling make one row of children another. -/
def Spot.Carries (s : Spot) (tree : Node) (r : Ruling) (nodes next : List Node) : Prop :=
  ∃ edits : List Edit, r.edits tree = edits.map (.below s.parent)
    ∧ (∀ e ∈ edits, e.IsAmong s.index (s.index + nodes.length))
    ∧ Node.editFrom edits s.index nodes = next

/-! ### Sections of one branch -/

/-- The ruling on a section of one branch over children. -/
def plainRuling (holds : Path → Bool) (s : Spot) (branch : List Node) : Ruling :=
  ⟨⟨opening.marker s.start, .ofPath path, none,
    closing.marker ((s.after [opening.node]).after branch).start⟩, holds path⟩

section

variable {branch : List Node} (hopening : opening.passage s ∈ passages tree)
  (hclosing : closing.passage ((s.after [opening.node]).after branch) ∈ passages tree)

include hopening hclosing

lemma located_plain : (plainRuling opening closing holds s branch).block.Located tree := by
  refine located_of_siblings s.parent ?_
  simp only [Block.occurrences, plainRuling, Option.toList_none, List.cons_append,
    List.nil_append, List.forall_mem_cons]
  exact ⟨⟨_, hopening, opening.isParagraph, opening.holds_marker s, _, rfl⟩,
    ⟨_, hclosing, closing.isParagraph, closing.holds_marker _, _, rfl⟩, by simp⟩

/-- If its condition holds, the section is cut down to its branch. -/
lemma carries_branch (hholds : holds path = true) :
    s.Carries tree (plainRuling opening closing holds s branch)
      (opening.node :: (branch ++ [closing.node])) branch := by
  have hlen : (opening.node :: (branch ++ [closing.node])).length = branch.length + 2 := by simp
  have hedits : (plainRuling opening closing holds s branch).edits tree
      = ([opening.strip s.index] ++ ([closing.strip (s.index + 1 + branch.length)] ++ [])).map
          (Edit.below s.parent) := by
    rw [edits_kept (by simp [plainRuling, Ruling.lost?, hholds])]
    simp only [plainRuling, Ruling.stripped, hholds, List.map_cons, List.map_nil,
      opening.below_strip hopening, closing.below_strip hclosing]
    rfl
  have hlast := closing.isAmong_strip (Nat.le_add_right (s.index + 1) branch.length)
    (Nat.lt_succ_self _)
  refine ⟨_, hedits, ?_, ?_⟩
  · exact List.forall_mem_append.mpr
      ⟨opening.isAmong_strip (Nat.le_refl _) (by omega), fun e he =>
        (hlast e (by simpa using he)).mono (by omega) (by omega)⟩
  · rw [opening.editFrom_strip_cons (by simpa using hlast),
      closing.editFrom_strip_concat 0 (by simp), editFrom_nil]

/-- If its condition does not hold, nothing is left of the section. -/
lemma carries_nothing (hholds : holds path = false) :
    s.Carries tree (plainRuling opening closing holds s branch)
      (opening.node :: (branch ++ [closing.node])) [] := by
  have hlen : (opening.node :: (branch ++ [closing.node])).length = branch.length + 2 := by simp
  have hstripped : (plainRuling opening closing holds s branch).stripped = [] := by
    simp [plainRuling, Ruling.stripped, hholds]
  have hedits : (plainRuling opening closing holds s branch).edits tree
      = (removal s.index (s.index + 1 + branch.length)).map (Edit.below s.parent) := by
    rw [edits_lost s.parent s.index (s.index + 1 + branch.length) (opening.marker s.start)
      (closing.marker ((s.after [opening.node]).after branch).start)
      (by simp [plainRuling, Ruling.lost?, hholds])
      (by rw [opening.homeSite_marker hopening]; rfl)
      (by rw [closing.homeSite_marker hclosing]; rfl) (by omega) (by simp [hstripped]), hstripped]
    rfl
  exact ⟨_, hedits,
    fun e he => (isAmong_of_mem_removal (by omega) e he).mono (Nat.le_refl _) (by omega),
    editFrom_removal (by omega)⟩

end

/-- **The plan for a section of one branch:** the branch stays as it is, or everything goes. -/
lemma plan_plain {branch : List Node} {inside : List Block}
    (hbranch : Nested ((s.after [opening.node]).markers branch) inside)
    (hplaced : ∀ p ∈ s.passages (opening.node :: (branch ++ [closing.node])), p ∈ passages tree) :
    s.Plan tree holds (opening.node :: (branch ++ [closing.node]))
      (if holds path then branch else []) [plainRuling opening closing holds s branch] := by
  rw [Spot.passages_cons, Spot.passages_append, Spot.passages_paragraph _ closing.isParagraph,
    Spot.passages_paragraph _ opening.isParagraph] at hplaced
  have hopening : opening.passage s ∈ passages tree := hplaced _ (by simp [Boundary.passage])
  have hclosing : closing.passage ((s.after [opening.node]).after branch) ∈ passages tree :=
    hplaced _ (by simp [Boundary.passage])
  refine ⟨?_, ?_, by simp [plainRuling, Condition.ofPath], ?_⟩
  · rw [Spot.markers_cons, Spot.markers_append, Spot.markers_paragraph _ opening.isParagraph,
      Spot.markers_paragraph _ closing.isParagraph, opening.markersFrom_content,
      closing.markersFrom_content]
    exact .plain hbranch .nil
  · exact List.forall_mem_singleton.mpr (located_plain opening closing hopening hclosing)
  · rw [List.flatMap_singleton]
    cases hholds : holds path with
    | true => exact carries_branch opening closing hopening hclosing hholds
    | false => exact carries_nothing opening closing hopening hclosing hholds

/-! ### Sections of two branches -/

/-- The ruling on a section of two branches over children. -/
def dividedRuling (holds : Path → Bool) (s : Spot) (first second : List Node) : Ruling :=
  ⟨⟨opening.marker s.start, .ofPath path,
    some (middle.marker ((s.after [opening.node]).after first).start),
    closing.marker
      ((((s.after [opening.node]).after first).after [middle.node]).after second).start⟩,
    holds path⟩

section

variable {first second : List Node} (hopening : opening.passage s ∈ passages tree)
  (hmiddle : middle.passage ((s.after [opening.node]).after first) ∈ passages tree)
  (hclosing : closing.passage
    ((((s.after [opening.node]).after first).after [middle.node]).after second) ∈ passages tree)

include hopening hmiddle hclosing

lemma located_divided :
    (dividedRuling opening middle closing holds s first second).block.Located tree := by
  refine located_of_siblings s.parent ?_
  simp only [Block.occurrences, dividedRuling, Option.toList_some, List.cons_append,
    List.nil_append, List.forall_mem_cons]
  exact ⟨⟨_, hopening, opening.isParagraph, opening.holds_marker s, _, rfl⟩,
    ⟨_, hmiddle, middle.isParagraph, middle.holds_marker _, _, rfl⟩,
    ⟨_, hclosing, closing.isParagraph, closing.holds_marker _, _, rfl⟩, by simp⟩

/-- If its condition holds, the section is cut down to its first branch. -/
lemma carries_first (hholds : holds path = true) :
    s.Carries tree (dividedRuling opening middle closing holds s first second)
      (opening.node :: (first ++ middle.node :: (second ++ [closing.node]))) first := by
  have hlen : (opening.node :: (first ++ middle.node :: (second ++ [closing.node]))).length
      = first.length + second.length + 3 := by simp; omega
  have hstripped : (dividedRuling opening middle closing holds s first second).stripped
      = [opening.marker s.start] := by
    simp [dividedRuling, Ruling.stripped, hholds]
  have hedits : (dividedRuling opening middle closing holds s first second).edits tree
      = ([opening.strip s.index] ++ removal (s.index + 1 + first.length)
          (s.index + 1 + first.length + 1 + second.length)).map (Edit.below s.parent) := by
    rw [edits_lost s.parent (s.index + 1 + first.length)
      (s.index + 1 + first.length + 1 + second.length)
      (middle.marker ((s.after [opening.node]).after first).start)
      (closing.marker
        ((((s.after [opening.node]).after first).after [middle.node]).after second).start)
      (by simp [dividedRuling, Ruling.lost?, hholds])
      (by rw [middle.homeSite_marker hmiddle]; rfl)
      (by rw [closing.homeSite_marker hclosing]; rfl) (by omega)
      (by
        rw [hstripped, List.forall_mem_singleton, opening.homeSite_marker hopening]
        simp [Spot.here]
        omega),
      hstripped, List.map_singleton, opening.below_strip hopening]
    rfl
  have hremoval := isAmong_of_mem_removal (i := s.index + 1 + first.length)
    (j := s.index + 1 + first.length + 1 + second.length) (by omega)
  refine ⟨_, hedits, ?_, ?_⟩
  · exact List.forall_mem_append.mpr
      ⟨opening.isAmong_strip (Nat.le_refl _) (by omega), fun e he =>
        (hremoval e he).mono (by omega) (by omega)⟩
  · rw [opening.editFrom_strip_cons fun e he =>
        (hremoval e he).mono (Nat.le_add_right _ _) (Nat.le_refl _),
      editFrom_behind hremoval, editFrom_removal (by simp; omega), List.append_nil]

/-- If its condition does not hold, the section is cut down to its second branch. -/
lemma carries_second (hholds : holds path = false) :
    s.Carries tree (dividedRuling opening middle closing holds s first second)
      (opening.node :: (first ++ middle.node :: (second ++ [closing.node]))) second := by
  have hstripped : (dividedRuling opening middle closing holds s first second).stripped
      = [closing.marker
        ((((s.after [opening.node]).after first).after [middle.node]).after second).start] := by
    simp [dividedRuling, Ruling.stripped, hholds]
  have hedits : (dividedRuling opening middle closing holds s first second).edits tree
      = ([closing.strip (s.index + 1 + first.length + 1 + second.length)]
          ++ removal s.index (s.index + 1 + first.length)).map (Edit.below s.parent) := by
    rw [edits_lost s.parent s.index (s.index + 1 + first.length) (opening.marker s.start)
      (middle.marker ((s.after [opening.node]).after first).start)
      (by simp [dividedRuling, Ruling.lost?, hholds])
      (by rw [opening.homeSite_marker hopening]; rfl)
      (by rw [middle.homeSite_marker hmiddle]; rfl) (by omega)
      (by
        rw [hstripped, List.forall_mem_singleton, closing.homeSite_marker hclosing]
        simp [Spot.here, Spot.after]
        omega),
      hstripped, List.map_singleton, closing.below_strip hclosing]
    rfl
  have hremoval := isAmong_of_mem_removal (i := s.index) (j := s.index + 1 + first.length)
    (by omega)
  have hsplit : opening.node :: (first ++ middle.node :: (second ++ [closing.node]))
      = ((opening.node :: (first ++ [middle.node])) ++ second) ++ [closing.node] := by simp
  have hbound : (opening.node :: (first ++ [middle.node])).length = first.length + 2 := by simp
  have hlast : s.index + 1 + first.length + 1 + second.length
      = s.index + ((opening.node :: (first ++ [middle.node])) ++ second).length := by
    rw [List.length_append, hbound]
    omega
  rw [hsplit]
  refine ⟨_, hedits, ?_, ?_⟩
  · rw [List.length_append, ← Nat.add_assoc, ← hlast]
    exact List.forall_mem_append.mpr
      ⟨closing.isAmong_strip (by omega) (Nat.lt_succ_self _), fun e he =>
        (hremoval e he).mono (Nat.le_refl _) (by simp; omega)⟩
  · rw [hlast, closing.editFrom_strip_concat s.index fun e he =>
        (hremoval e he).mono (Nat.le_refl _) (by rw [List.length_append, hbound]; omega),
      editFrom_before s.index fun e he => (hremoval e he).mono (Nat.le_refl _) (by omega),
      editFrom_removal (by omega)]
    rfl

end

/-- **The plan for a section of two branches:** one of them stays as it is. -/
lemma plan_divided {first second : List Node} {inside inside' : List Block}
    (hfirst : Nested ((s.after [opening.node]).markers first) inside)
    (hsecond : Nested ((((s.after [opening.node]).after first).after [middle.node]).markers second)
      inside')
    (hplaced : ∀ p ∈ s.passages
      (opening.node :: (first ++ middle.node :: (second ++ [closing.node]))), p ∈ passages tree) :
    s.Plan tree holds (opening.node :: (first ++ middle.node :: (second ++ [closing.node])))
      (if holds path then first else second)
      [dividedRuling opening middle closing holds s first second] := by
  rw [Spot.passages_cons, Spot.passages_append, Spot.passages_cons (_ : Spot) middle.node,
    Spot.passages_append, Spot.passages_paragraph _ closing.isParagraph,
    Spot.passages_paragraph _ middle.isParagraph,
    Spot.passages_paragraph _ opening.isParagraph] at hplaced
  have hopening : opening.passage s ∈ passages tree := hplaced _ (by simp [Boundary.passage])
  have hmiddle : middle.passage ((s.after [opening.node]).after first) ∈ passages tree :=
    hplaced _ (by simp [Boundary.passage])
  have hclosing : closing.passage
      ((((s.after [opening.node]).after first).after [middle.node]).after second)
        ∈ passages tree := hplaced _ (by simp [Boundary.passage])
  refine ⟨?_, ?_, by simp [dividedRuling, Condition.ofPath], ?_⟩
  · rw [Spot.markers_cons, Spot.markers_append, Spot.markers_cons (_ : Spot) middle.node,
      Spot.markers_append, Spot.markers_paragraph _ opening.isParagraph,
      Spot.markers_paragraph _ middle.isParagraph, Spot.markers_paragraph _ closing.isParagraph,
      opening.markersFrom_content, middle.markersFrom_content, closing.markersFrom_content]
    exact .divided hfirst hsecond .nil
  · exact List.forall_mem_singleton.mpr
      (located_divided opening middle closing hopening hmiddle hclosing)
  · rw [List.flatMap_singleton]
    cases hholds : holds path with
    | true => exact carries_first opening middle closing hopening hmiddle hclosing hholds
    | false => exact carries_second opening middle closing hopening hmiddle hclosing hholds

end

end FormLetter
