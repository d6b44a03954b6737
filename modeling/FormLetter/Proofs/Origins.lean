import FormLetter.Proofs.Expanded
import FormLetter.Proofs.PairingReports

/-!
# Where failures come from

A placeholder that fails is reported with the token that was resolved and with the token that the
template spells in its place.  The two differ in copies of template rows, where the first of them
has been redirected.  Expansion remembers what redirected tokens were spelled as, but it remembers
it for tokens and not for places: of all copied placeholders with one token, the first decides what
every failure of this token is traced back to.

* `uses` — the placeholders of the expanded tree, each with the token and the path that are resolved
  and with what the template spells in this place.
* `reportedToken` — what failures of a token are traced back to.
* `renderTree_placeholder_failures` — which failures a merge reports, and when one of them names the
  token of its own place.
-/

namespace FormLetter

/-! ## Uses of placeholders -/

/-- A placeholder of the expanded tree: its token and its path, what the template spells in its
place, and whether it stands in the copy of a template row. -/
structure Use where
  token : Text
  path : Path
  spelled : Text
  copied : Bool
deriving DecidableEq, Repr

/-- The placeholders of a text of the result. -/
def Source.uses (source : Source) : List Use :=
  (placeholders source.spelled).map fun placeholder =>
    match source.scope? with
    | none => ⟨placeholder.text, placeholder.path, placeholder.text, false⟩
    | some scope =>
      ⟨scope.token placeholder, scope.resolve placeholder.path, placeholder.text, true⟩

/-- The placeholders of the expanded tree, in order. -/
def uses (data : Value) (tree : Node) : List Use := (sources data tree).flatMap Source.uses

/-- The failure of a placeholder, if it fails, traced back to its own place in the template. -/
def Use.failure? (data : Value) (use : Use) : Option Failure :=
  match valueText data use.path with
  | .ok _ => none
  | .error reason => some ⟨use.token, use.path, reason, use.spelled⟩

/-- The first copied placeholder with this token. -/
def firstCopied? (uses : List Use) (token : Text) : Option Use :=
  uses.find? fun use => use.copied && token == use.token

/-- The token that failures of a token are traced back to. -/
def reportedToken (uses : List Use) (token : Text) : Text :=
  ((firstCopied? uses token).map (·.spelled)).getD token

/-- The failures of placeholders, each traced back as its token is. -/
def reportedFailures (data : Value) (uses : List Use) : List Failure :=
  uses.filterMap fun use => (use.failure? data).map fun failure =>
    { failure with templateToken := reportedToken uses use.token }

/-! ## The placeholders of the expanded tree -/

section

variable {data : Value} {source : Source}

/-- What is made of the tokens and the paths of the placeholders of a text of the result. -/
lemma filterMap_placeholders_shown {α : Type} (f : Text → Path → Option α)
    (hname : ∀ scope, source.scope? = some scope → isName scope.segment = true) :
    (placeholders source.shown).filterMap (fun p => f p.text p.path)
      = source.uses.filterMap fun use => f use.token use.path := by
  obtain ⟨spelled, scope?⟩ := source
  rw [Source.uses, List.filterMap_map]
  cases scope? with
  | none => rfl
  | some scope =>
      -- the token of a redirected placeholder is spelled from its path, so the old token drops out
      let redirected : Text → Path → Option α := fun _ path =>
        f ('@' :: (scope.resolve path).dotted ++ ['@']) (scope.resolve path)
      have hredirect : ∀ p : Piece, (scope.redirect p).asks f = p.asks redirected := by
        rintro (c | ⟨body, meaning⟩)
        · rfl
        · cases meaning <;> rfl
      calc (placeholders (mapPlaceholders scope.token spelled)).filterMap (fun p => f p.text p.path)
          = ((pieces spelled).map scope.redirect).filterMap (Piece.asks f) := by
            rw [filterMap_placeholders, pieces_bound (hname scope rfl)]
        _ = (pieces spelled).filterMap (Piece.asks redirected) := by
            rw [List.filterMap_map]
            exact List.filterMap_congr fun p _ => hredirect p
        _ = (placeholders spelled).filterMap fun p => redirected p.text p.path :=
            (filterMap_placeholders redirected spelled).symm

lemma filterMap_placeholders_uses {α : Type} (f : Text → Path → Option α) (tree : Node) :
    ((sources data tree).map Source.shown).flatMap
        (fun t => (placeholders t).filterMap fun p => f p.text p.path)
      = (uses data tree).filterMap fun use => f use.token use.path := by
  rw [uses, List.flatMap_map, List.filterMap_flatMap]
  refine List.flatMap_congr fun source hsource => ?_
  refine filterMap_placeholders_shown f fun scope hscope => ?_
  obtain ⟨key, hwithin⟩ := within_of_mem_sources tree source hsource scope hscope
  exact hwithin.isName

/-- The failures of a text are the failures of its placeholders. -/
lemma failuresIn_eq_filterMap (t : Text) : failuresIn data t
    = (placeholders t).filterMap fun p => Use.failure? data ⟨p.text, p.path, p.text, false⟩ := by
  rw [filterMap_placeholders fun spelling path =>
    Use.failure? data ⟨spelling, path, spelling, false⟩]
  refine List.filterMap_congr fun p _ => ?_
  rcases p with c | ⟨body, meaning⟩
  · rfl
  · cases meaning with
    | placeholder path =>
        simp only [Piece.fill, Piece.asks, Use.failure?]
        cases valueText data path <;> rfl
    | opening path => rfl
    | alternative => rfl
    | closing => rfl

/-! ## Tracing back -/

lemma aliases_eq_uses (source : Source) : source.aliases
    = (source.uses.filter (·.copied)).map fun use => (use.token, use.spelled) := by
  obtain ⟨spelled, scope?⟩ := source
  cases scope? with
  | none => simp [Source.aliases, Source.uses, List.filter_map, Function.comp_def]
  | some scope => simp [Source.aliases, Source.uses, List.filter_map, Function.comp_def]

lemma lookup_copied (token : Text) : ∀ us : List Use,
    ((us.filter (·.copied)).map fun use => (use.token, use.spelled)).lookup token
      = (firstCopied? us token).map (·.spelled)
  | [] => rfl
  | use :: rest => by
      rw [firstCopied?, List.find?_cons, ← firstCopied?]
      cases hcopied : use.copied with
      | false => rw [List.filter_cons_of_neg (by simp [hcopied]), lookup_copied token rest]; rfl
      | true =>
          rw [List.filter_cons_of_pos hcopied, List.map_cons, List.lookup_cons]
          cases token == use.token with
          | false => exact lookup_copied token rest
          | true => rfl

/-- A failure names the token of its own place unless the first copied placeholder with the same
token comes from another one. -/
lemma reportedToken_eq_spelled {us : List Use} {use : Use} (huse : use ∈ us)
    (hplain : use.copied = false → use.spelled = use.token) :
    reportedToken us use.token = use.spelled
      ↔ ∀ first, firstCopied? us use.token = some first → first.spelled = use.spelled := by
  rw [reportedToken]
  cases hfirst : firstCopied? us use.token with
  | some first => simp
  | none =>
      have hcopied : use.copied = false := by
        have hnone := List.find?_eq_none.mp hfirst use huse
        simpa using hnone
      simp [hplain hcopied]

lemma spelled_of_mem_uses {tree : Node} {use : Use} (h : use ∈ uses data tree) :
    (∃ t ∈ tree.texts, ∃ p ∈ placeholders t, p.text = use.spelled)
      ∧ (use.copied = false → use.spelled = use.token) := by
  obtain ⟨source, hsource, h⟩ := List.mem_flatMap.mp h
  obtain ⟨p, hp, rfl⟩ := List.mem_map.mp h
  have hspelled := spelled_mem_of_mem_sources tree source hsource
  split
  · exact ⟨⟨source.spelled, hspelled, p, hp, rfl⟩, fun _ => rfl⟩
  · exact ⟨⟨source.spelled, hspelled, p, hp, rfl⟩, fun hcopied => by simp at hcopied⟩

end

/-! ## Whole merges -/

section

variable {tree resolved expanded : Node} {data : Value} {aliases : List Alias}

lemma resolvePass_ne_placeholders {failures : List Failure} :
    resolvePass tree data ≠ .error (.placeholders failures) := by
  intro h
  rw [resolvePass] at h
  split at h
  · simp at h
  · rcases bind_eq_error.mp h with h | ⟨blocks, -, h⟩
    · obtain ⟨error, -, h⟩ := mapError_eq_error.mp h
      simp at h
    · rcases bind_eq_error.mp h with h | ⟨edits, -, h⟩
      · rcases editsOfBlocks_eq_error h with ⟨error, h⟩ | ⟨condition, reason, h⟩
        · simp at h
        · cases reason <;> simp [Cause.ofReason] at h
      · simp at h

/-- Sections fail for other reasons than placeholders do. -/
lemma resolveSections_ne_placeholders {failures : List Failure} :
    resolveSections tree data ≠ .error (.placeholders failures) := by
  have hends := loopEnds_resolveSections tree data
  generalize resolveSections tree data = outcome at hends
  induction hends with
  | failed hpass => exact fun h => resolvePass_ne_placeholders (Except.error.inj h ▸ hpass)
  | finished _ => simp
  | again _ _ _ ih => exact ih

/-- The placeholders of the expanded tree are its uses. -/
lemma placeholders_of_expandTables (h : expandTables resolved data = .ok (expanded, aliases)) :
    (expanded.texts.flatMap placeholders).map (fun p => (p.text, p.path))
      = (uses data resolved).map fun use => (use.token, use.path) := by
  have hplaced := @filterMap_placeholders_uses data _
    (fun spelling path => some (spelling, path)) resolved
  rw [← (drawnFrom_of_expandTables h).1] at hplaced
  rw [List.map_flatMap]
  simpa only [List.filterMap_eq_map'] using hplaced

lemma traced_failures (h : expandTables resolved data = .ok (expanded, aliases)) :
    (expanded.texts.flatMap (failuresIn data)).map (·.traced aliases)
      = reportedFailures data (uses data resolved) := by
  have htraced : ∀ token, templateToken? aliases token
      = (firstCopied? (uses data resolved) token).map (·.spelled) := by
    intro token
    have haliases : aliases = ((uses data resolved).filter (·.copied)).map
        fun use => (use.token, use.spelled) := by
      rw [(drawnFrom_of_expandTables h).2, uses, List.filter_flatMap, List.map_flatMap]
      exact List.flatMap_congr fun source _ => aliases_eq_uses source
    rw [templateToken?, haliases, lookup_copied]
  have hfailures : expanded.texts.flatMap (failuresIn data)
      = (uses data resolved).filterMap fun use =>
        Use.failure? data ⟨use.token, use.path, use.token, false⟩ := by
    rw [← filterMap_placeholders_uses fun spelling path =>
      Use.failure? data ⟨spelling, path, spelling, false⟩, (drawnFrom_of_expandTables h).1]
    exact List.flatMap_congr fun t _ => failuresIn_eq_filterMap t
  rw [hfailures, List.map_filterMap, reportedFailures]
  refine List.filterMap_congr fun use _ => ?_
  rw [Use.failure?, Use.failure?]
  cases valueText data use.path with
  | ok value => rfl
  | error reason => simp only [Option.map_some, Failure.traced, htraced, reportedToken]

end

/-- **A failed merge traces tokens back, not places.**  The placeholders that are filled in are the
uses of the tree whose sections are resolved, and each of them spells a placeholder of this tree.
The failures that are reported are those of the uses that fail, in order.  But each is traced back
to what the first copied use of its token spells, so it names the token of its own place exactly if
that use spells the same. -/
theorem renderTree_placeholder_failures {tree : Node} {data : Value} {part part' : Option String}
    {failures : List Failure}
    (h : renderTree tree data part = .error ⟨.placeholders failures, part'⟩) :
    ∃ resolved expanded aliases, resolveSections (joinRuns tree) data = .ok resolved
      ∧ expandTables resolved data = .ok (expanded, aliases)
      ∧ (expanded.texts.flatMap placeholders).map (fun p => (p.text, p.path))
        = (uses data resolved).map (fun use => (use.token, use.path))
      ∧ (∀ use ∈ uses data resolved,
        (∃ t ∈ resolved.texts, ∃ p ∈ placeholders t, p.text = use.spelled)
          ∧ (use.copied = false → use.spelled = use.token))
      ∧ failures = reportedFailures data (uses data resolved)
      ∧ ∀ use ∈ uses data resolved, reportedToken (uses data resolved) use.token = use.spelled
        ↔ ∀ first, firstCopied? (uses data resolved) use.token = some first →
          first.spelled = use.spelled := by
  obtain ⟨cause, hmerge, hcause⟩ := mapError_eq_error.mp h
  obtain rfl : cause = .placeholders failures := (RenderError.mk.inj hcause).1
  rw [mergeTree] at hmerge
  rcases bind_eq_error.mp hmerge with hfail | ⟨resolved, hresolved, hmerge⟩
  · exact absurd hfail resolveSections_ne_placeholders
  · rcases bind_eq_error.mp hmerge with hfail | ⟨⟨expanded, aliases⟩, hexpanded, hmerge⟩
    · rcases bind_eq_error.mp hfail with hfail | ⟨expansion, -, hfail⟩
      · obtain ⟨row, keys, heq⟩ := expandNode_eq_error resolved hfail
        simp at heq
      · simp at hfail
    · obtain ⟨cause, hfill, htraced⟩ := mapError_eq_error.mp hmerge
      obtain ⟨found, rfl⟩ := fillTree_eq_error hfill
      obtain rfl := failures_of_fillTree hfill
      refine ⟨resolved, expanded, aliases, hresolved, hexpanded,
        placeholders_of_expandTables hexpanded, fun use => spelled_of_mem_uses, ?_, fun use huse =>
        reportedToken_eq_spelled huse (spelled_of_mem_uses huse).2⟩
      rw [← traced_failures hexpanded]
      exact (Cause.placeholders.inj htraced).symm

/-- A plain placeholder, and two placeholders of a row that are redirected to one token. -/
theorem renderTree_placeholder_failures_row :
    let paragraph := fun t : String =>
      Node.element ⟨Word.paragraph, [], []⟩ [Word.makeRun t.toList none]
    let table := fun t : String =>
      Node.element ⟨Word.table, [], []⟩ [.element ⟨Word.row, [], []⟩ [paragraph t]]
    let tree := Node.element ⟨Word.named "body", [], []⟩ [paragraph "@x@", table "@l.n@ @n@"]
    let data : Value := .mapping [(.text ['l'], .list [.mapping [(.text ['n'], .null)]])]
    let path : Path := [['l'], ['0'], ['n']]
    let failures : List Failure :=
      [⟨"@x@".toList, [['x']], .pathNotFound [['x']], "@x@".toList⟩,
        ⟨"@l.0.n@".toList, path, .nilValue, "@l.n@".toList⟩,
        ⟨"@l.0.n@".toList, path, .nilValue, "@l.n@".toList⟩]
    renderTree tree data none = .error ⟨.placeholders failures, none⟩
      ∧ ∃ resolved expanded aliases, resolveSections (joinRuns tree) data = .ok resolved
        ∧ expandTables resolved data = .ok (expanded, aliases)
        ∧ (expanded.texts.flatMap placeholders).map (fun p => (p.text, p.path))
          = (uses data resolved).map (fun use => (use.token, use.path))
        ∧ (∀ use ∈ uses data resolved,
          (∃ t ∈ resolved.texts, ∃ p ∈ placeholders t, p.text = use.spelled)
            ∧ (use.copied = false → use.spelled = use.token))
        ∧ failures = reportedFailures data (uses data resolved)
        ∧ ∀ use ∈ uses data resolved, reportedToken (uses data resolved) use.token = use.spelled
          ↔ ∀ first, firstCopied? (uses data resolved) use.token = some first →
            first.spelled = use.spelled := by
  intro paragraph table tree data path failures
  have h : renderTree tree data none = .error ⟨.placeholders failures, none⟩ := by decide +kernel
  exact ⟨h, renderTree_placeholder_failures h⟩

/-- A placeholder of a paragraph fails and is traced back to a token of a row below it, which is
redirected to the same token. -/
theorem renderTree_traces_paragraph_to_row :
    let paragraph := fun t : String =>
      Node.element ⟨Word.paragraph, [], []⟩ [Word.makeRun t.toList none]
    let table := fun t : String =>
      Node.element ⟨Word.table, [], []⟩ [.element ⟨Word.row, [], []⟩ [paragraph t]]
    let tree := Node.element ⟨Word.named "body", [], []⟩
      [paragraph "@items.0.missing@", table "@items.missing@"]
    let data : Value := .mapping [(.text "items".toList, .list [.mapping []])]
    let token := "@items.0.missing@".toList
    let path : Path := ["items".toList, ['0'], "missing".toList]
    let rowToken := "@items.missing@".toList
    let failure : Failure := ⟨token, path, .pathNotFound path, rowToken⟩
    resolveSections (joinRuns tree) data = .ok tree
      ∧ uses data tree = [⟨token, path, token, false⟩, ⟨token, path, rowToken, true⟩]
      ∧ renderTree tree data none = .error ⟨.placeholders [failure, failure], none⟩
      ∧ (uses data tree).filterMap (Use.failure? data) ≠ [failure, failure] := by
  decide +kernel

end FormLetter
