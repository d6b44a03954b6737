import FormLetter.Proofs.Drafts

/-!
# Documents with sections inside paragraphs

If all sections of a document stand inside single paragraphs, resolving them leaves the meaning of
the text of each paragraph, whatever the text nodes and the runs are over which the sections
spread.

* `Node.IsSelfContained` — a paragraph whose sections are its own, or loose text without markers.
* `Node.resolved` — the document with every paragraph in its meaning: the characters that the
  meaning of its text keeps, each in its text node.  A paragraph that had a marker and shows nothing
  any more is missing, unless it is the root.
* **Sections have their meaning.** `resolveSections_inline` — resolving gives this document if all
  conditions that the meaning depends on can be evaluated, and fails with one of them otherwise.
* `resolveSections_inline_signal` — a condition on a number that signals is not reported as one that
  cannot be evaluated.
-/

namespace FormLetter

/-! ## Meanings of paragraphs -/

/-- The reading of a text as phrases, if its markers pair. -/
def Phrases.ofText? (t : Text) : Option Phrases := ofPieces? (FormLetter.pieces t)

namespace Node

section

variable (holds : Path → Bool)

/-- The paragraph with the characters that the meaning of its text keeps, each in its text node. -/
def inMeaning (paragraph : Node) : Node :=
  match Phrases.ofText? paragraph.content with
  | some phrases => paragraph.sift (phrases.marks holds)
  | none => paragraph

/-- Whether the paragraph goes: it had a marker, and shows nothing any more. -/
def vanishes (paragraph : Node) : Bool :=
  !(markers paragraph.content).isEmpty && showsNothing (paragraph.inMeaning holds)

mutual

/-- The tree with every paragraph in its meaning. -/
def resolved : Node → Node
  | .text value => .text value
  | .element tag children =>
    if tag.name == Word.paragraph then (Node.element tag children).inMeaning holds
    else .element tag (resolvedAll children)

/-- Neighbouring trees with every paragraph in its meaning, without those that go. -/
def resolvedAll : List Node → List Node
  | [] => []
  | node :: rest =>
    (if node.isNamed Word.paragraph && node.vanishes holds then [] else [resolved node])
      ++ resolvedAll rest

end

mutual

/-- The conditions that the meaning of the paragraphs depends on. -/
def reached : Node → List Path
  | .text _ => []
  | .element tag children =>
    if tag.name == Word.paragraph then
      ((Phrases.ofText? (Node.element tag children).content).map (·.reached holds)).getD []
    else reachedAll children

/-- The conditions that the meaning of the paragraphs of several trees depends on. -/
def reachedAll : List Node → List Path
  | [] => []
  | node :: rest => reached node ++ reachedAll rest

end

lemma resolved_paragraph {node : Node} (h : node.isNamed Word.paragraph = true) :
    node.resolved holds = node.inMeaning holds := by
  cases node with
  | text value => simp [isNamed] at h
  | element tag children => exact if_pos h

lemma resolved_element {tag : StartTag} (h : tag.name ≠ Word.paragraph) (children : List Node) :
    (element tag children).resolved holds = .element tag (resolvedAll holds children) := by
  rw [resolved, if_neg (by simpa using h)]

lemma reached_paragraph {node : Node} (h : node.isNamed Word.paragraph = true) :
    node.reached holds = ((Phrases.ofText? node.content).map (·.reached holds)).getD [] := by
  cases node with
  | text value => simp [isNamed] at h
  | element tag children => exact if_pos h

lemma reached_element {tag : StartTag} (h : tag.name ≠ Word.paragraph) (children : List Node) :
    (element tag children).reached holds = reachedAll holds children := by
  rw [reached, if_neg (by simpa using h)]

end

/-- Whether sections do not leave the node: the markers of a paragraph pair and all its at-signs
belong to tokens, and loose text has no markers. -/
structure IsSelfContained (node : Node) : Prop where
  balanced : node.isNamed Word.paragraph = true →
    ∃ blocks, pair (markers node.content) = .ok blocks
  tokenized : node.isNamed Word.paragraph = true → IsTokenized node.content
  loose : node.isNamed Word.paragraph = false → markers node.content = []

instance (node : Node) : Decidable node.IsSelfContained :=
  decidable_of_iff
    (if node.isNamed Word.paragraph then
      (pair (markers node.content)).isOk ∧ Piece.char '@' ∉ pieces node.content
    else markers node.content = []) <| by
      cases hpar : node.isNamed Word.paragraph with
      | true =>
          rw [if_pos rfl, ← isTokenized_iff]
          exact ⟨fun h => ⟨fun _ => isOk_eq_true.mp h.1, fun _ => h.2, by simp [hpar]⟩,
            fun h => ⟨isOk_eq_true.mpr (h.balanced hpar), h.tokenized hpar⟩⟩
      | false =>
          rw [if_neg (by simp)]
          exact ⟨fun h => ⟨by simp [hpar], by simp [hpar], fun _ => h⟩, fun h => h.loose hpar⟩

end Node

/-! ## Readings of self-contained nodes -/

/-- Self-contained loose text has no markers. -/
lemma markers_of_isSelfContained {value : Text}
    (h : ∀ leaf ∈ (Node.text value).leaves, leaf.node.IsSelfContained) : markers value = [] := by
  cases value with
  | nil => rfl
  | cons c t =>
      have hloose := (h ⟨[], .text (c :: t)⟩ (by simp [Node.leaves])).loose rfl
      rwa [content_text] at hloose

/-- A self-contained paragraph has a reading. -/
lemma exists_line {node : Node} (hpar : node.isNamed Word.paragraph = true)
    (h : node.IsSelfContained) : ∃ line : Line, line.node = node := by
  obtain ⟨blocks, hblocks⟩ := h.balanced hpar
  obtain ⟨phrases, hphrases⟩ := Phrases.exists_phrases (nested_of_pair hblocks)
    (map_meaning_markersFrom 0 node.content).symm
  exact ⟨⟨node, phrases, hpar, hphrases, Or.inr fun p hp => h.tokenized hpar p (hphrases ▸ hp)⟩,
    rfl⟩

namespace Line

variable (line : Line) (holds : Path → Bool)

lemma ofText?_content : Phrases.ofText? line.node.content = some line.phrases := by
  rw [Phrases.ofText?, ← line.reads, Phrases.ofPieces?_pieces]

lemma inMeaning_node : line.node.inMeaning holds = line.result holds := by
  rw [Node.inMeaning, ofText?_content]
  rfl

lemma vanishes_node : line.node.vanishes holds = line.vanishes holds := by
  have hplain : (markers line.node.content).isEmpty = line.phrases.isPlain := by
    have hsigns := map_meaning_markersFrom 0 line.node.content
    rw [← line.reads] at hsigns
    rw [Bool.eq_iff_iff, Phrases.isPlain_iff_signs, ← hsigns, List.map_eq_nil_iff,
      List.isEmpty_iff]
    rfl
  rw [Node.vanishes, Line.vanishes, inMeaning_node, hplain]

lemma resolved_node : line.node.resolved holds = line.result holds := by
  rw [Node.resolved_paragraph holds line.isParagraph, inMeaning_node]

lemma reached_node : line.node.reached holds = line.phrases.reached holds := by
  rw [Node.reached_paragraph holds line.isParagraph, ofText?_content]
  rfl

end Line

/-- **A row of trees whose leaves are self-contained is a draft,** and the draft has the meaning of
the row. -/
theorem exists_draft (holds : Path → Bool) : ∀ (index : Nat) (nodes : List Node),
    (∀ leaf ∈ Node.leavesFrom index nodes, leaf.node.IsSelfContained) →
      ∃ draft : Draft, draft.nodes = nodes ∧ draft.eval holds = Node.resolvedAll holds nodes
        ∧ draft.reached holds = Node.reachedAll holds nodes
  | _, [], _ => ⟨.nil, rfl, rfl, rfl⟩
  | index, .text value :: rest, h => by
      rw [Node.leavesFrom, List.forall_mem_append, List.forall_mem_map] at h
      obtain ⟨draft, hnodes, heval, hreached⟩ := exists_draft holds (index + 1) rest h.2
      refine ⟨.loose value (markers_of_isSelfContained h.1) draft, by rw [Draft.nodes, hnodes],
        ?_, ?_⟩
      · rw [Draft.eval, heval]
        rfl
      · rw [Draft.reached, hreached]
        rfl
  | index, .element tag children :: rest, h => by
      rw [Node.leavesFrom, List.forall_mem_append, List.forall_mem_map] at h
      obtain ⟨draft, hnodes, heval, hreached⟩ := exists_draft holds (index + 1) rest h.2
      cases hpar : (Node.element tag children).isNamed Word.paragraph with
      | true =>
          obtain ⟨line, hline⟩ := exists_line hpar
            (h.1 ⟨[], .element tag children⟩ (by simp [leaves_of_paragraph hpar]))
          refine ⟨.paragraph line draft, by rw [Draft.nodes, hnodes, hline], ?_, ?_⟩
          · rw [Draft.eval, Node.resolvedAll, heval, ← hline, line.isParagraph, line.vanishes_node,
              line.resolved_node, Bool.true_and]
          · rw [Draft.reached, Node.reachedAll, hreached, ← hline, line.reached_node]
      | false =>
          have htag : tag.name ≠ Word.paragraph := by simpa [Node.isNamed] using hpar
          obtain ⟨inner, hinner, heval', hreached'⟩ := exists_draft holds 0 children fun leaf hl =>
            h.1 leaf (by rwa [leaves_of_element (by simpa using htag)])
          refine ⟨.element tag htag inner draft, by rw [Draft.nodes, hnodes, hinner], ?_, ?_⟩
          · rw [Draft.eval, Node.resolvedAll, heval, heval', hpar, Node.resolved_element holds htag]
            rfl
          · rw [Draft.reached, Node.reachedAll, hreached, hreached',
              Node.reached_element holds htag]

/-- A tree whose leaves are self-contained has a course that leads to its meaning. -/
lemma exists_course (holds : Path → Bool) {tree : Node}
    (h : ∀ leaf ∈ tree.leaves, leaf.node.IsSelfContained) :
    ∃ (σ : Type) (c : Course holds σ) (s : σ), c.tree s = tree
      ∧ c.result s = tree.resolved holds ∧ c.reached s = tree.reached holds := by
  cases hpar : tree.isNamed Word.paragraph with
  | true =>
      obtain ⟨line, rfl⟩ := exists_line hpar (h ⟨[], tree⟩ (by simp [leaves_of_paragraph hpar]))
      exact ⟨Line, Line.course holds, line, rfl, (line.resolved_node holds).symm,
        (line.reached_node holds).symm⟩
  | false =>
      cases tree with
      | text value =>
          have hbare : markers (flatText (.text value)) = [] := by
            rw [flatText_text]
            exact markers_of_isSelfContained h
          exact ⟨Unit, .still hbare holds, (), rfl, rfl, rfl⟩
      | element tag children =>
          have htag : tag.name ≠ Word.paragraph := by simpa [Node.isNamed] using hpar
          obtain ⟨draft, rfl, heval, hreached⟩ := exists_draft holds 0 children fun leaf hl =>
            h leaf (by rwa [leaves_of_element (by simpa using htag)])
          refine ⟨Draft, Draft.course htag holds, draft, rfl, ?_, ?_⟩
          · rw [Node.resolved_element holds htag, ← heval]
            rfl
          · rw [Node.reached_element holds htag, ← hreached]
            rfl

/-! ## Sections have their meaning -/

/-- **Sections inside paragraphs have their meaning.**  If all conditions that the meaning depends
on can be evaluated, resolving the sections leaves every paragraph in its meaning, and otherwise it
fails with such a condition.  The text of a paragraph in its meaning is the meaning of its text. -/
theorem resolveSections_inline {tree : Node}
    (h : ∀ leaf ∈ tree.leaves, leaf.node.IsSelfContained) (data : Value) :
    ((∀ path ∈ tree.reached (truth data), Decided data path) →
        resolveSections tree data = .ok (tree.resolved (truth data)))
      ∧ ((∃ path ∈ tree.reached (truth data), ¬ Decided data path) →
        ∃ path ∈ tree.reached (truth data), ∃ reason, isTruthy data path = .error reason
          ∧ resolveSections tree data = .error (.ofReason (.ofPath path) reason))
      ∧ ∀ leaf ∈ tree.leaves, leaf.isParagraph = true →
        ∃ phrases : Phrases, phrases.pieces = pieces leaf.node.content
          ∧ (leaf.node.inMeaning (truth data)).content = phrases.eval (truth data)
          ∧ (leaf.node.inMeaning (truth data)).tags = leaf.node.tags := by
  obtain ⟨σ, course, state, rfl, hresult, hreached⟩ := exists_course (truth data) h
  rw [← hresult, ← hreached]
  refine ⟨course.resolveSections_ok state, course.resolveSections_error state,
    fun leaf hleaf hpar => ?_⟩
  obtain ⟨line, hline⟩ := exists_line hpar (h leaf hleaf)
  rw [← hline, line.inMeaning_node]
  exact ⟨line.phrases, line.reads, line.content_result _, tags_sift _ _⟩

/-- A body of paragraphs with runs that show the given texts. -/
def brokenBody (paragraphs : List (List String)) : Node :=
  .element ⟨Word.named "body", [], []⟩ <| paragraphs.map fun texts =>
    .element ⟨Word.paragraph, [], []⟩ (texts.map fun t => Word.makeRun t.toList none)

theorem resolveSections_inline_broken :
    let tree := brokenBody [["Dear @if:a@Sir@i", "f:b@ or ", "@endif@@else@Madam@endif@,"],
      ["@if:b@@end", "if@ "], ["@name@"]]
    let data := flags [("a", true), ("b", false)]
    (∀ leaf ∈ tree.leaves, leaf.node.IsSelfContained)
      ∧ (∀ path ∈ tree.reached (truth data), Decided data path)
      ∧ resolveSections tree data = .ok (brokenBody [["Dear Sir", "", ","], ["@name@"]]) := by
  intro tree data
  have hleaves : ∀ leaf ∈ tree.leaves, leaf.node.IsSelfContained := by decide +kernel
  have hdecided : ∀ path ∈ tree.reached (truth data), Decided data path := by decide +kernel
  have hresolved : tree.resolved (truth data) = brokenBody [["Dear Sir", "", ","], ["@name@"]] := by
    decide +kernel
  exact ⟨hleaves, hdecided, hresolved ▸ (resolveSections_inline hleaves data).1 hdecided⟩

/-- A condition on a number that signals cannot be evaluated, but the failure does not say so: it is
one of arithmetic. -/
theorem resolveSections_inline_signal :
    let tree := plainBody ["@if:a@x@endif@"]
    let data : Value := .mapping [(.text ['a'], .decimal (.nan false true 0))]
    (∀ leaf ∈ tree.leaves, leaf.node.IsSelfContained)
      ∧ tree.reached (truth data) = [[['a']]]
      ∧ isTruthy data [['a']] = .error .signal
      ∧ resolveSections tree data = .error .signal := by
  decide +kernel

end FormLetter
