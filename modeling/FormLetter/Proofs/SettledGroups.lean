import FormLetter.Proofs.RunGroups

/-!
# The tokens of settled groups

Joining goes through a paragraph once and settles a group of runs as soon as its text is finished,
whatever comes next.  So it must never be that a token begins in a finished text and ends behind it.

* **Two texts.** `tokens_append_of_finished` — behind a finished text, the tokens are those of the
  text that follows, each so much later.  `apart_of_finished` — no token crosses the border.
* **Portions.** `portionsFrom` is joining with its decisions left in the open: which runs it settles
  together, which it passes over, which other children it comes across.
  `joinParagraph_eq_portions` — this is what `joinParagraph` does.
* **Stretches.** Runs that follow each other, proofing marks between them apart, make up a stretch.
  A group never reaches out of its stretch (`portionsFrom_stretch`), and the groups have the tokens
  of the stretch among themselves (`tokensFrom_portions`).
* `settling_cuts_no_token` — all of it.
-/

namespace FormLetter

/-! ## Two texts -/

/-- From a later position on, the tokens of a text are found so much later. -/
lemma tokensFrom_pieces (offset : Nat) (t : Text) :
    tokensFrom offset (pieces t)
      = (tokens t).map fun (position, token) => (offset + position, token) :=
  tokensFrom_moved offset 0 (pieces t)

lemma tokensFrom_append_of_finished {t : Text} (h : isUnfinished t = false) (start : Nat)
    (u : Text) :
    tokensFrom start (pieces (t ++ u))
      = tokensFrom start (pieces t) ++ tokensFrom (start + t.length) (pieces u) := by
  rw [pieces_append_of_finished h, tokensFrom_append, spelledLength_pieces]

/-- **Behind a finished text, the tokens are found as if nothing stood in front,** only later. -/
theorem tokens_append_of_finished {t : Text} (h : isUnfinished t = false) (u : Text) :
    tokens (t ++ u)
      = tokens t ++ (tokens u).map fun (position, token) => (t.length + position, token) := by
  rw [← tokensFrom_pieces, tokens, tokensFrom_append_of_finished h, Nat.zero_add]
  rfl

/-- No token crosses the border behind a finished text. -/
lemma apart_of_finished {t u : Text} (h : isUnfinished t = false) {position : Nat} {token : Token}
    (hmem : (position, token) ∈ tokens (t ++ u)) :
    position + token.text.length ≤ t.length ∨ t.length ≤ position := by
  rcases (mem_tokens_append (pieces_append_of_finished h u)).mp hmem with hfirst | ⟨_, -, rfl⟩
  · exact Or.inl (stop_le_of_mem_tokens hfirst)
  · exact Or.inr (Nat.le_add_right _ _)

lemma tokensFrom_of_no_at {t : Text} (h : '@' ∉ t) (start : Nat) :
    tokensFrom start (pieces t) = [] := by
  refine List.eq_nil_iff_forall_not_mem.mpr fun (_, token) hmem => h ?_
  rw [← spelled_pieces t]
  exact List.mem_flatMap.mpr ⟨.token token, mem_of_mem_tokensFrom hmem, List.mem_cons_self⟩

/-! ## Portions of a paragraph -/

/-- What joining deals with at once: runs that it settles together, a run that it passes over since
nothing waits and it holds no at-sign, or another child. -/
inductive Portion
  | settled (runs : List Node)
  | passed (run : Node)
  | other (node : Node)

/-- The children that come out of a portion. -/
def Portion.joined : Portion → List Node
  | .settled runs => settleGroup runs
  | .passed run => [run]
  | .other node => [joinRuns node]

/-- The text runs that went into a portion. -/
def Portion.runs : Portion → List Node
  | .settled runs => runs
  | .passed run => [run]
  | .other _ => []

/-- The runs that wait as a portion, if there are any. -/
def settledPortion (waiting : List Node) : List Portion :=
  if waiting.isEmpty then [] else [.settled waiting]

/-- The portions of the remaining children of a paragraph, when the runs of `waiting` form an
unfinished group. -/
def portionsFrom (waiting : List Node) : List Node → List Portion
  | [] => settledPortion waiting
  | node :: rest =>
    if isTextRun node then
      if waiting.isEmpty && !(runContent node).contains '@' then
        .passed node :: portionsFrom [] rest
      else
        let group := waiting ++ [node]
        if isUnfinished (groupText group) then portionsFrom group rest
        else .settled group :: portionsFrom [] rest
    else if !waiting.isEmpty && node.isNamed Word.proofingMark then portionsFrom waiting rest
    else settledPortion waiting ++ .other node :: portionsFrom [] rest

lemma joined_settledPortion (waiting : List Node) :
    (settledPortion waiting).flatMap Portion.joined = settleGroup waiting := by
  cases waiting with
  | nil => exact settleGroup_nil.symm
  | cons run rest => exact List.flatMap_singleton _ _

lemma runs_settledPortion (waiting : List Node) :
    (settledPortion waiting).flatMap Portion.runs = waiting := by
  cases waiting with
  | nil => rfl
  | cons run rest => exact List.flatMap_singleton _ _

/-- **Joining brings out portion by portion.** -/
theorem joinParagraph_eq_portions (waiting nodes : List Node) :
    joinParagraph waiting nodes = (portionsFrom waiting nodes).flatMap Portion.joined := by
  fun_induction portionsFrom waiting nodes with
  | case1 waiting => rw [joinParagraph, joined_settledPortion]
  | case2 waiting node rest hrun hpassed ih =>
      rw [joinParagraph, if_pos hrun, if_pos hpassed, ih]
      rfl
  | case3 waiting node rest hrun htaken group hopen ih =>
      rw [joinParagraph_run hrun htaken, if_pos hopen, ih]
  | case4 waiting node rest hrun htaken group hfinished ih =>
      rw [joinParagraph_run hrun htaken, if_neg hfinished, ih]
      rfl
  | case5 waiting node rest hrun hdropped ih =>
      rw [joinParagraph, if_neg hrun, if_pos hdropped, ih]
  | case6 waiting node rest hrun hbreaks ih =>
      rw [joinParagraph, if_neg hrun, if_neg hbreaks, List.flatMap_append, joined_settledPortion, ih]
      rfl

/-- Each text run goes into one portion, in order. -/
lemma runs_portionsFrom (waiting nodes : List Node) :
    (portionsFrom waiting nodes).flatMap Portion.runs = waiting ++ textRuns nodes := by
  fun_induction portionsFrom waiting nodes with
  | case1 waiting => simp [runs_settledPortion, textRuns]
  | case2 waiting node rest hrun hpassed ih =>
      rw [Bool.and_eq_true, List.isEmpty_iff] at hpassed
      rw [hpassed.1, textRuns_run hrun, List.flatMap_cons, ih]
      rfl
  | case3 waiting node rest hrun htaken group hopen ih =>
      rw [ih, textRuns_run hrun, List.append_assoc]
      rfl
  | case4 waiting node rest hrun htaken group hfinished ih =>
      rw [List.flatMap_cons, ih, textRuns_run hrun, Portion.runs, List.append_assoc]
      rfl
  | case5 waiting node rest hrun hdropped ih =>
      rw [ih, textRuns_other (Bool.eq_false_iff.mpr hrun)]
  | case6 waiting node rest hrun hbreaks ih =>
      rw [List.flatMap_append, runs_settledPortion, List.flatMap_cons, ih,
        textRuns_other (Bool.eq_false_iff.mpr hrun)]
      rfl

/-! ## Stretches -/

/-- Text runs of a paragraph with the proofing marks next to them, all of them up to another child
or the end on both sides. -/
structure IsStretch (before stretch after : List Node) : Prop where
  members : ∀ node ∈ stretch, isRunOrMark node = true
  before : ∀ node ∈ before.getLast?, isRunOrMark node = false
  after : ∀ node ∈ after.head?, isRunOrMark node = false

instance (before stretch after : List Node) : Decidable (IsStretch before stretch after) :=
  decidable_of_iff
    ((∀ node ∈ stretch, isRunOrMark node = true)
      ∧ (∀ node ∈ before.getLast?, isRunOrMark node = false)
      ∧ ∀ node ∈ after.head?, isRunOrMark node = false)
    ⟨fun ⟨hmembers, hbefore, hafter⟩ => ⟨hmembers, hbefore, hafter⟩,
      fun ⟨hmembers, hbefore, hafter⟩ => ⟨hmembers, hbefore, hafter⟩⟩

/-- In front of a child that is neither run nor mark, whatever waits is settled. -/
lemma portionsFrom_fixed {node : Node} (h : isRunOrMark node = false) (waiting rest : List Node) :
    portionsFrom waiting (node :: rest)
      = settledPortion waiting ++ .other node :: portionsFrom [] rest := by
  rw [isRunOrMark, Bool.or_eq_false_iff] at h
  rw [portionsFrom, if_neg (by simp [h.1]), if_neg (by simp [h.2])]

/-- Nothing waits where a child follows that is neither run nor mark, or none at all. -/
lemma portionsFrom_append_of_head {after : List Node}
    (h : ∀ node ∈ after.head?, isRunOrMark node = false) (waiting nodes : List Node) :
    portionsFrom waiting (nodes ++ after)
      = portionsFrom waiting nodes ++ portionsFrom [] after := by
  fun_induction portionsFrom waiting nodes with
  | case1 waiting =>
      cases after with
      | nil => exact (List.append_nil _).symm
      | cons node rest =>
          rw [List.nil_append, portionsFrom_fixed (h node rfl), portionsFrom_fixed (h node rfl) []]
          rfl
  | case2 waiting node rest hrun hpassed ih =>
      rw [List.cons_append, portionsFrom, if_pos hrun, if_pos hpassed, ih, List.cons_append]
  | case3 waiting node rest hrun htaken group hopen ih =>
      rw [List.cons_append, portionsFrom, if_pos hrun, if_neg htaken, ← ih]
      exact if_pos hopen
  | case4 waiting node rest hrun htaken group hfinished ih =>
      rw [List.cons_append, portionsFrom, if_pos hrun, if_neg htaken, List.cons_append, ← ih]
      exact if_neg hfinished
  | case5 waiting node rest hrun hdropped ih =>
      rw [List.cons_append, portionsFrom, if_neg hrun, if_pos hdropped, ih]
  | case6 waiting node rest hrun hbreaks ih =>
      rw [List.cons_append, portionsFrom, if_neg hrun, if_neg hbreaks, ih, List.append_assoc,
        List.cons_append]

/-- Nothing waits behind a child that is neither run nor mark. -/
lemma portionsFrom_append_of_last {before : List Node}
    (h : ∀ node ∈ before.getLast?, isRunOrMark node = false) (rest : List Node) :
    portionsFrom [] (before ++ rest) = portionsFrom [] before ++ portionsFrom [] rest := by
  rcases List.eq_nil_or_concat before with rfl | ⟨front, last, rfl⟩
  · rfl
  · have hlast : isRunOrMark last = false := h last (by simp)
    have hfixed : ∀ others, ∀ node ∈ (last :: others).head?, isRunOrMark node = false := by
      rintro others node ⟨⟩
      exact hlast
    rw [List.concat_eq_append, List.append_assoc, List.singleton_append,
      portionsFrom_append_of_head (hfixed rest), portionsFrom_append_of_head (hfixed []),
      portionsFrom_fixed hlast, portionsFrom_fixed hlast, List.append_assoc]
    rfl

/-- **No group reaches out of its stretch.** -/
theorem portionsFrom_stretch {before stretch after : List Node}
    (h : IsStretch before stretch after) :
    portionsFrom [] (before ++ stretch ++ after)
      = portionsFrom [] before ++ portionsFrom [] stretch ++ portionsFrom [] after := by
  rw [portionsFrom_append_of_head h.after, portionsFrom_append_of_last h.before]

/-- The groups that are settled among some portions of a stretch, each with the position at which its
text starts, when the text of the first portion starts at `offset`. -/
def groupsFrom (offset : Nat) : List Portion → List (Nat × List Node)
  | [] => []
  | .settled runs :: rest => (offset, runs) :: groupsFrom (offset + (groupText runs).length) rest
  | .passed run :: rest => groupsFrom (offset + (runContent run).length) rest
  | .other _ :: rest => groupsFrom offset rest

/-- The tokens of groups, each group read on its own and its tokens moved to where the group
stands. -/
def tokensOfGroups (groups : List (Nat × List Node)) : List (Nat × Token) :=
  groups.flatMap fun (offset, runs) =>
    (tokens (groupText runs)).map fun (position, token) => (offset + position, token)

lemma tokensOfGroups_cons (offset : Nat) (runs : List Node) (rest : List (Nat × List Node)) :
    tokensOfGroups ((offset, runs) :: rest)
      = tokensFrom offset (pieces (groupText runs)) ++ tokensOfGroups rest := by
  rw [tokensOfGroups, List.flatMap_cons, tokensFrom_pieces]
  rfl

/-- **The groups of a stretch have its tokens.**  The induction follows the portions: the text of a
group that is settled before the stretch ends is finished, and that of a run that is passed over is
finished and holds no token. -/
theorem tokensFrom_portions (waiting : List Node) {nodes : List Node}
    (h : ∀ node ∈ nodes, isRunOrMark node = true) (offset : Nat) :
    tokensFrom offset (pieces (groupText (waiting ++ textRuns nodes)))
      = tokensOfGroups (groupsFrom offset (portionsFrom waiting nodes)) := by
  fun_induction portionsFrom waiting nodes generalizing offset with
  | case1 waiting =>
      have hnone : textRuns [] = [] := rfl
      rw [hnone, List.append_nil]
      cases waiting with
      | nil => rfl
      | cons run rest =>
          rw [settledPortion, if_neg (by simp), groupsFrom, tokensOfGroups_cons]
          exact (List.append_nil _).symm
  | case2 waiting run rest hrun hpassed ih =>
      rw [Bool.and_eq_true, List.isEmpty_iff] at hpassed
      obtain ⟨rfl, hno⟩ := hpassed
      have hplain : '@' ∉ groupText [run] := by simpa [groupText_singleton] using hno
      rw [List.nil_append, textRuns_run hrun, ← List.singleton_append, groupText_append,
        tokensFrom_append_of_finished (isUnfinished_of_no_at hplain), tokensFrom_of_no_at hplain,
        List.nil_append, groupText_singleton]
      exact ih (List.forall_mem_cons.mp h).2 _
  | case3 waiting run rest hrun htaken group hopen ih =>
      rw [textRuns_run hrun, ← List.singleton_append, ← List.append_assoc]
      exact ih (List.forall_mem_cons.mp h).2 offset
  | case4 waiting run rest hrun htaken group hfinished ih =>
      rw [textRuns_run hrun, ← List.singleton_append, ← List.append_assoc, groupText_append,
        tokensFrom_append_of_finished (Bool.eq_false_iff.mpr hfinished), groupsFrom,
        tokensOfGroups_cons]
      exact congrArg _ (ih (List.forall_mem_cons.mp h).2 _)
  | case5 waiting mark rest hrun hdropped ih =>
      rw [textRuns_other (Bool.eq_false_iff.mpr hrun)]
      exact ih (List.forall_mem_cons.mp h).2 offset
  | case6 waiting mark rest hrun hbreaks ih =>
      -- the child is a mark, and so no run waits
      obtain ⟨hmark, hrest⟩ := List.forall_mem_cons.mp h
      rw [isRunOrMark, Bool.eq_false_iff.mpr hrun, Bool.false_or] at hmark
      obtain rfl : waiting = [] := by simpa [hmark] using hbreaks
      rw [textRuns_other (Bool.eq_false_iff.mpr hrun)]
      exact ih hrest offset

/-- **Settling at a finished text cuts no token.**  Behind a finished text, tokens are found as if
the text stood alone, and none crosses the border.  So when joining takes a paragraph apart, the
groups that it settles in a stretch of runs have the tokens of the stretch among themselves, in
order; and no group reaches out of its stretch.  A proofing mark between runs does not end a stretch,
since joining goes on behind it with the runs that wait. -/
theorem settling_cuts_no_token :
    (∀ t u : Text, isUnfinished t = false →
      tokens (t ++ u)
          = tokens t ++ (tokens u).map (fun (position, token) => (t.length + position, token))
        ∧ ∀ position token, (position, token) ∈ tokens (t ++ u) →
          position + token.text.length ≤ t.length ∨ t.length ≤ position)
    ∧ (∀ children, joinParagraph [] children = (portionsFrom [] children).flatMap Portion.joined)
    ∧ ∀ before stretch after, IsStretch before stretch after →
      portionsFrom [] (before ++ stretch ++ after)
          = portionsFrom [] before ++ portionsFrom [] stretch ++ portionsFrom [] after
        ∧ (portionsFrom [] stretch).flatMap Portion.runs = textRuns stretch
        ∧ tokens (groupText (textRuns stretch))
          = tokensOfGroups (groupsFrom 0 (portionsFrom [] stretch)) := by
  refine ⟨fun t u h => ?_, fun children => joinParagraph_eq_portions [] children,
    fun before stretch after h => ?_⟩
  · exact ⟨tokens_append_of_finished h u, fun position token hmem => apart_of_finished h hmem⟩
  · exact ⟨portionsFrom_stretch h, runs_portionsFrom [] stretch, tokensFrom_portions [] h.members 0⟩

/-- A paragraph whose stretch of runs has a group over a proofing mark, a run that is passed over,
and a group that the end of the stretch leaves unfinished. -/
theorem settling_cuts_no_token_fragmented :
    let t : Text := "@name@ a@b ".toList
    let u : Text := "x@y@".toList
    let before := [wordElement "bookmarkStart" []]
    let group := [dividedRun ["Dear @na"], dividedRun ["me@,"]]
    let last := [dividedRun [" x@@a@ c@"]]
    let stretch := [dividedRun ["Dear @na"], wordElement "proofErr" [], dividedRun ["me@,"],
      dividedRun [" and"], dividedRun [" x@@a@ c@"]]
    let after := [wordElement "hyperlink" [], dividedRun ["d@"]]
    isUnfinished t = false ∧ IsStretch before stretch after
      ∧ groupsFrom 0 (portionsFrom [] stretch) = [(0, group), (16, last)]
      ∧ (tokens (t ++ u)
          = tokens t ++ (tokens u).map (fun (position, token) => (t.length + position, token))
        ∧ ∀ position token, (position, token) ∈ tokens (t ++ u) →
          position + token.text.length ≤ t.length ∨ t.length ≤ position)
      ∧ joinParagraph [] (before ++ stretch ++ after)
          = (portionsFrom [] (before ++ stretch ++ after)).flatMap Portion.joined
      ∧ portionsFrom [] (before ++ stretch ++ after)
          = portionsFrom [] before ++ portionsFrom [] stretch ++ portionsFrom [] after
      ∧ (portionsFrom [] stretch).flatMap Portion.runs = textRuns stretch
      ∧ tokens (groupText (textRuns stretch))
          = tokensOfGroups (groupsFrom 0 (portionsFrom [] stretch)) := by
  intro t u before group last stretch after
  have hfinished : isUnfinished t = false := by decide +kernel
  have hstretch : IsStretch before stretch after := by decide +kernel
  obtain ⟨htexts, hjoined, hstretches⟩ := settling_cuts_no_token
  exact ⟨hfinished, hstretch, by decide +kernel, htexts t u hfinished, hjoined _,
    hstretches before stretch after hstretch⟩

end FormLetter
