import FormLetter.Merge.Inspection
import FormLetter.Merge.Render
import FormLetter.Proofs.Balance

/-!
# Pairing problems: what inspection sees and what merging meets

Inspection pairs the markers of the template once.  Merging pairs them again in every pass, so the
two can only disagree in one way: the template is in order, and a pass leaves markers that are not.

* `issues_inspectTree` — inspection reports exactly the pairing problem of the template as it
  stands.
* `resolvePass_eq_pairing` — a pass fails over the pairing of the markers it finds and over nothing
  that comes later; neither boundaries nor conditions nor rows nor placeholders raise such a
  problem.
* `renderTree_pairing` — a merge meets a pairing problem exactly if inspection reports it, or if
  inspection reports none and the rulings of some pass leave text in which the markers do not pair.
  If every at-sign of the template belongs to a token, such a pass strands a marker.
* `renderTree_orphan_after_valid_inspection` — the second case arises: a boundary paragraph goes as
  a whole although it also holds the opening marker of a section in the kept branch of another.
-/

namespace FormLetter

/-! ## Inspection -/

lemma issues_inspectTree (tree : Node) (location : String) :
    (inspectTree tree location).issues
      = match pair (markers (flatText (joinRuns tree))) with
        | .ok _ => []
        | .error error => [⟨error, location⟩] :=
  List.append_nil _

lemma issues_eq_singleton {tree : Node} {location : String} {error : PairingError} :
    (inspectTree tree location).issues = [⟨error, location⟩]
      ↔ pair (markers (flatText (joinRuns tree))) = .error error := by
  rw [issues_inspectTree]
  cases pair (markers (flatText (joinRuns tree))) <;> simp

lemma isValid_inspectTree {tree : Node} {location : String} :
    (inspectTree tree location).isValid = true
      ↔ ∃ blocks, pair (markers (flatText (joinRuns tree))) = .ok blocks := by
  rw [Report.isValid, issues_inspectTree]
  cases pair (markers (flatText (joinRuns tree))) <;> simp

/-! ## A single pass -/

lemma ofReason_ne_pairing (condition : Condition) (reason : Reason) (error : PairingError) :
    Cause.ofReason condition reason ≠ .pairing error := by
  cases reason <;> simp [Cause.ofReason]

/-- The edits of sections fail over where their markers stand or what their conditions come to. -/
lemma editsOfBlocks_eq_error {segments : List Segment} {data : Value} {cause : Cause} :
    ∀ {blocks : List Block}, editsOfBlocks segments data blocks = .error cause →
      (∃ error, cause = .boundary error) ∨ ∃ condition reason, cause = .ofReason condition reason
  | [], h => by simp [editsOfBlocks] at h
  | block :: rest, h => by
      rw [editsOfBlocks, bind_eq_error] at h
      rcases h with h | ⟨first, -, h⟩
      · rw [Block.edits, bind_eq_error] at h
        rcases h with h | ⟨sited, -, h⟩
        · obtain ⟨boundary, -, rfl⟩ := mapError_eq_error.mp h
          exact Or.inl ⟨boundary, rfl⟩
        · rcases bind_eq_error.mp h with h | ⟨holds, -, h⟩
          · obtain ⟨reason, -, rfl⟩ := mapError_eq_error.mp h
            exact Or.inr ⟨block.condition, reason, rfl⟩
          · simp at h
      · rcases bind_eq_error.mp h with h | ⟨others, -, h⟩
        · exact editsOfBlocks_eq_error h
        · simp at h

lemma editsOfBlocks_ne_pairing {segments : List Segment} {data : Value} {error : PairingError}
    {blocks : List Block} : editsOfBlocks segments data blocks ≠ .error (.pairing error) := by
  intro h
  rcases editsOfBlocks_eq_error h with ⟨boundary, h⟩ | ⟨condition, reason, h⟩
  · simp at h
  · exact ofReason_ne_pairing _ _ _ h.symm

/-- **A pass fails over pairing exactly if the markers it finds do not pair.** -/
theorem resolvePass_eq_pairing {tree : Node} {data : Value} {error : PairingError} :
    resolvePass tree data = .error (.pairing error)
      ↔ pair (markers (flatText tree)) = .error error := by
  rw [resolvePass]
  split
  · next hnone =>
      rw [List.isEmpty_iff] at hnone
      simp [hnone, pair, pairFrom]
  · rw [bind_eq_error]
    constructor
    · rintro (h | ⟨blocks, -, h⟩)
      · obtain ⟨e, he, heq⟩ := mapError_eq_error.mp h
        rw [he, Cause.pairing.inj heq]
      · rcases bind_eq_error.mp h with h | ⟨es, -, h⟩
        · exact absurd h editsOfBlocks_ne_pairing
        · simp at h
    · intro h
      exact Or.inl (mapError_eq_error.mpr ⟨error, h, rfl⟩)

/-! ## The later stages -/

lemma analyzeRow_eq_error {data : Value} {index : Nat} {row : Node} {cause : Cause}
    (h : analyzeRow data index row = .error cause) : ∃ i keys, cause = .multipleLists i keys := by
  rw [analyzeRow] at h
  split at h
  · simp at h
  · simp at h
  · exact ⟨_, _, (Except.error.inj h).symm⟩

mutual

/-- Expanding tables fails over rows that draw on several lists and over nothing else. -/
theorem expandNode_eq_error {data : Value} : ∀ (node : Node) {cause : Cause},
    expandNode data node = .error cause → ∃ i keys, cause = .multipleLists i keys
  | .text value, cause, h => by simp [expandNode] at h
  | .element tag children, cause, h => by
      rw [expandNode] at h
      split at h
      · cases hrows : expandRows data 0 none children with
        | ok expansion => simp [hrows] at h
        | error other =>
            rw [hrows, map_error] at h
            exact Except.error.inj h ▸ expandRows_eq_error children hrows
      · cases hall : expandAll data children with
        | ok expansion => simp [hall] at h
        | error other =>
            rw [hall, map_error] at h
            exact Except.error.inj h ▸ expandAll_eq_error children hall

theorem expandAll_eq_error {data : Value} : ∀ (nodes : List Node) {cause : Cause},
    expandAll data nodes = .error cause → ∃ i keys, cause = .multipleLists i keys
  | [], cause, h => by simp [expandAll] at h
  | node :: rest, cause, h => by
      rw [expandAll] at h
      rcases bind_eq_error.mp h with h | ⟨first, -, h⟩
      · exact expandNode_eq_error node h
      · rcases bind_eq_error.mp h with h | ⟨others, -, h⟩
        · exact expandAll_eq_error rest h
        · simp at h

theorem expandRows_eq_error {data : Value} : ∀ (nodes : List Node) {index : Nat}
    {group : RowGroup} {cause : Cause}, expandRows data index group nodes = .error cause →
    ∃ i keys, cause = .multipleLists i keys
  | [], index, group, cause, h => by simp [expandRows] at h
  | node :: rest, index, group, cause, h => by
      rw [expandRows] at h
      split at h
      · rcases bind_eq_error.mp h with h | ⟨binding, -, h⟩
        · exact analyzeRow_eq_error h
        · split at h
          · rcases bind_eq_error.mp h with h | ⟨inner, -, h⟩
            · exact expandNode_eq_error node h
            · rcases bind_eq_error.mp h with h | ⟨others, -, h⟩
              · exact expandRows_eq_error rest h
              · simp at h
          · split at h
            · split at h
              · exact expandRows_eq_error rest h
              · rcases bind_eq_error.mp h with h | ⟨others, -, h⟩
                · exact expandRows_eq_error rest h
                · simp at h
            · exact expandRows_eq_error rest h
      · rcases bind_eq_error.mp h with h | ⟨inner, -, h⟩
        · exact expandNode_eq_error node h
        · rcases bind_eq_error.mp h with h | ⟨others, -, h⟩
          · exact expandRows_eq_error rest h
          · simp at h

end

lemma fillTree_eq_error {tree : Node} {data : Value} {cause : Cause}
    (h : fillTree tree data = .error cause) : ∃ failures, cause = .placeholders failures := by
  rw [fillTree] at h
  split at h
  · simp at h
  · exact ⟨_, (Except.error.inj h).symm⟩

/-- **A merge fails over pairing exactly if its passes do.** -/
theorem renderTree_eq_pairing {tree : Node} {data : Value} {part : Option String}
    {error : PairingError} :
    renderTree tree data part = .error ⟨.pairing error, part⟩
      ↔ resolveSections (joinRuns tree) data = .error (.pairing error) := by
  rw [renderTree, mapError_eq_error]
  constructor
  · rintro ⟨cause, h, heq⟩
    obtain rfl : cause = .pairing error := (RenderError.mk.inj heq).1
    rw [mergeTree] at h
    rcases bind_eq_error.mp h with h | ⟨resolved, -, h⟩
    · exact h
    · rcases bind_eq_error.mp h with h | ⟨expanded, -, h⟩
      · rw [expandTables] at h
        rcases bind_eq_error.mp h with h | ⟨expansion, -, h⟩
        · obtain ⟨i, keys, h⟩ := expandNode_eq_error resolved h
          simp at h
        · simp at h
      · obtain ⟨cause, h, htraced⟩ := mapError_eq_error.mp h
        obtain ⟨failures, rfl⟩ := fillTree_eq_error h
        simp [Cause.traced] at htraced
  · intro h
    refine ⟨.pairing error, ?_, rfl⟩
    rw [mergeTree, h, error_bind]

/-! ## Where inspection and merging part -/

lemma Passes.last {data : Value} {tree last : Node} (h : Passes data tree last) :
    tree = last ∨ ∃ before count, Passes data tree before
      ∧ resolvePass before data = .ok (last, count) ∧ 0 < count := by
  induction h with
  | start tree => exact Or.inl rfl
  | @pass tree next last count hpass hcount hrest ih =>
      right
      rcases ih with rfl | ⟨before, k, hbefore, hlast, hk⟩
      · exact ⟨tree, count, .start tree, hpass, hcount⟩
      · exact ⟨before, k, .pass hpass hcount hbefore, hlast, hk⟩

lemma Passes.snoc {data : Value} {tree before last : Node} {count : Nat}
    (h : Passes data tree before) (hpass : resolvePass before data = .ok (last, count))
    (hcount : 0 < count) : Passes data tree last := by
  induction h with
  | start tree => exact .pass hpass hcount (.start last)
  | pass hfirst hfirstCount _ ih => exact .pass hfirst hfirstCount (ih hpass)

/-- A template with which a pass succeeds is in order. -/
lemma Passes.paired {data : Value} {tree before last : Node} {count : Nat}
    (h : Passes data tree before) (hpass : resolvePass before data = .ok (last, count))
    (hcount : 0 < count) : ∃ blocks, pair (markers (flatText tree)) = .ok blocks := by
  cases h with
  | start tree =>
      obtain ⟨rulings, hd, -⟩ := exists_rulings hpass hcount
      exact ⟨_, hd.sections⟩
  | pass hfirst hfirstCount _ =>
      obtain ⟨rulings, hd, -⟩ := exists_rulings hfirst hfirstCount
      exact ⟨_, hd.sections⟩

/-- Sections and data leave no choice of rulings. -/
lemma eq_of_decisions {data : Value} : ∀ {rs ss : List Ruling},
    rs.map Ruling.block = ss.map Ruling.block →
    (∀ r ∈ rs, isTruthy data r.block.condition.path = .ok r.holds) →
    (∀ s ∈ ss, isTruthy data s.block.condition.path = .ok s.holds) → rs = ss
  | [], ss, h, _, _ => (List.map_eq_nil_iff.mp h.symm).symm
  | r :: rs, [], h, _, _ => by simp at h
  | r :: rs, s :: ss, h, hr, hs => by
      obtain ⟨hblock, hrest⟩ := List.cons.inj h
      obtain ⟨hr, hrs⟩ := List.forall_mem_cons.mp hr
      obtain ⟨hs, hss⟩ := List.forall_mem_cons.mp hs
      have hholds : r.holds = s.holds := by
        rw [hblock, hs] at hr
        exact (Except.ok.inj hr).symm
      rw [eq_of_decisions hrest hrs hss]
      congr 1
      cases r
      cases s
      simp only at hblock hholds
      rw [hblock, hholds]

lemma Decides.eq {tree : Node} {data : Value} {rs ss : List Ruling} (hr : Decides tree data rs)
    (hs : Decides tree data ss) : rs = ss :=
  eq_of_decisions (Except.ok.inj (hr.sections.symm.trans hs.sections)) hr.decisions hs.decisions

/-- The text that a pass leaves is the one that its rulings leave. -/
lemma flatText_of_pass {tree next : Node} {data : Value} {count : Nat} {rulings : List Ruling}
    (h : resolvePass tree data = .ok (next, count)) (hcount : 0 < count)
    (hd : Decides tree data rulings) : flatText next = textLeft tree rulings := by
  obtain ⟨others, hothers, hplaced, -, rfl⟩ := exists_rulings h hcount
  rw [hd.eq hothers]
  exact flatText_of_leaves (leaves_edit_rulings hplaced)

/-- Passes lead to a tree for which these are the rulings of a pass that succeeds. -/
structure RulesOn (data : Value) (tree before : Node) (rulings : List Ruling) : Prop where
  passes : Passes data tree before
  succeeds : ∃ next count, resolvePass before data = .ok (next, count) ∧ 0 < count
  decides : Decides before data rulings

/-- The rulings of some pass leave text in which the markers do not pair. -/
def LeavesUnpaired (data : Value) (tree : Node) (error : PairingError) : Prop :=
  ∃ before rulings, RulesOn data tree before rulings
    ∧ pair (markers (textLeft before rulings)) = .error error

/-- Some pass removes a passage with a marker in it that its rulings keep. -/
def StrandsMarker (data : Value) (tree : Node) : Prop :=
  ∃ before rulings, RulesOn data tree before rulings ∧ Strands before rulings

/-- In a tokenized tree, only a pass that strands a marker leaves text that does not pair. -/
lemma strandsMarker_of_leavesUnpaired {data : Value} {tree : Node} {error : PairingError}
    (ht : Tokenized tree) (h : LeavesUnpaired data tree error) : StrandsMarker data tree := by
  obtain ⟨before, rulings, hrules, hleft⟩ := h
  refine ⟨before, rulings, hrules, ?_⟩
  by_contra hstrands
  obtain ⟨blocks, hpaired⟩ :=
    paired_unless_stranded (hrules.passes.tokenized ht) hrules.decides hstrands
  rw [hpaired] at hleft
  simp at hleft

/-- **Inspection and merging part over what passes leave, and over nothing else.**  A problem that
inspection reports is the one that the merge fails with, whatever the data.  A merge that fails over
pairing where inspection reports nothing does so because the rulings of some pass leave text in
which the markers do not pair, and it reports the problem of that text.  In a template whose
at-signs all belong to tokens it takes a pass that removes a passage with a marker in it that the
rulings keep. -/
theorem renderTree_pairing (tree : Node) (data : Value) (part : Option String)
    (location : String) (error : PairingError) :
    (renderTree tree data part = .error ⟨.pairing error, part⟩ ↔
      (inspectTree tree location).issues = [⟨error, location⟩]
        ∨ (inspectTree tree location).isValid = true
          ∧ LeavesUnpaired data (joinRuns tree) error)
      ∧ (Tokenized (joinRuns tree) → LeavesUnpaired data (joinRuns tree) error →
        StrandsMarker data (joinRuns tree)) := by
  refine ⟨?_, strandsMarker_of_leavesUnpaired⟩
  rw [renderTree_eq_pairing, resolveSections_eq_error, issues_eq_singleton, isValid_inspectTree]
  constructor
  · rintro ⟨last, hpasses, hlast⟩
    rw [resolvePass_eq_pairing] at hlast
    rcases hpasses.last with rfl | ⟨before, count, hbefore, hpass, hcount⟩
    · exact Or.inl hlast
    · obtain ⟨rulings, hd, -⟩ := exists_rulings hpass hcount
      rw [flatText_of_pass hpass hcount hd] at hlast
      have hrules : RulesOn data (joinRuns tree) before rulings :=
        ⟨hbefore, ⟨last, count, hpass, hcount⟩, hd⟩
      exact Or.inr ⟨hbefore.paired hpass hcount, before, rulings, hrules, hlast⟩
  · rintro (h | ⟨-, before, rulings, ⟨hbefore, ⟨next, count, hpass, hcount⟩, hd⟩, hleft⟩)
    · exact ⟨joinRuns tree, .start _, resolvePass_eq_pairing.mpr h⟩
    · rw [← flatText_of_pass hpass hcount hd] at hleft
      exact ⟨next, hbefore.snoc hpass hcount, resolvePass_eq_pairing.mpr hleft⟩

/-- In this template the pass that strands a marker is the first one. -/
theorem renderTree_pairing_stranded :
    let tree := plainBody ["@if:a@", "@else@@if:b@", "@endif@", "@endif@"]
    let data := flags [("a", false), ("b", true)]
    (inspectTree tree "body").isValid = true ∧ Tokenized (joinRuns tree)
      ∧ renderTree tree data none = .error ⟨.pairing (.orphanEndif 0), none⟩
      ∧ StrandsMarker data (joinRuns tree) := by
  intro tree data
  have hvalid : (inspectTree tree "body").isValid = true := by decide +kernel
  have hissues : (inspectTree tree "body").issues ≠ [⟨.orphanEndif 0, "body"⟩] := by decide +kernel
  have htexts : ∀ t ∈ (joinRuns tree).texts, Piece.char '@' ∉ pieces t := by decide +kernel
  have htokenized : Tokenized (joinRuns tree) := fun t ht => isTokenized_iff.mpr (htexts t ht)
  have hrender : renderTree tree data none = .error ⟨.pairing (.orphanEndif 0), none⟩ := by
    decide +kernel
  obtain ⟨hiff, hstrands⟩ := renderTree_pairing tree data none "body" (.orphanEndif 0)
  obtain ⟨-, hleaves⟩ := (hiff.mp hrender).resolve_left hissues
  exact ⟨hvalid, htokenized, hrender, hstrands htokenized hleaves⟩

/-- The first section loses its branch, and with it the paragraph of its closing marker.  There, in
the kept branch of the second section, the third one opens, and its closing marker stays behind. -/
theorem renderTree_orphan_after_valid_inspection :
    let tree := plainBody ["@if:a@gone", "@endif@@if:b@@if:c@inner", "text@endif@@endif@ tail"]
    let data := flags [("a", false), ("b", true), ("c", true)]
    (inspectTree tree "body").isValid = true
      ∧ resolvePass tree data = .ok (plainBody ["text@endif@ tail"], 2)
      ∧ renderTree tree data none = .error ⟨.pairing (.orphanEndif 4), none⟩ := by
  decide +kernel

end FormLetter
