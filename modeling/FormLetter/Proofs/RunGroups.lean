import FormLetter.Proofs.Regrouping

/-!
# Which runs are merged

A run waits while the text so far may still grow a token, and merging is then all or nothing: when a
token spans some runs of a group, the other runs of the group go into the merged run with them, even
if no token touches them.

* **Borders.** The borders of a row of runs are counted from its first run on.  `IsOpen` — the text
  up to a border is unfinished; `IsCrossed` — a token goes over it.
* **Borders of a group.** Where a text is finished, what comes behind is read as if it stood alone
  (`isUnfinished_append`), so the borders of a group behave as in the whole row
  (`isOpen_append`, `isCrossed_append`).
* **Runs of a paragraph.** `IsDrawnIn` — only open borders lie between a run and one that is
  crossed.  `joinParagraph_merges_iff` — exactly these runs are merged, and every other run stays.
  `joinParagraph_merges_apart` — no token need go over the border of such a run.
-/

namespace FormLetter

/-! ## Finished texts -/

/-- Behind an at-sign the state does not depend on a candidate that could not grow into a token. -/
lemma readPieces_some_snd {body : Text} (h : isBodyStart body.reverse = false) (t : Text) :
    (readPieces (some body) t).2 = (readPieces none t).2
      ∨ (readPieces none t).2 = none ∧ (readPieces (some body) t).2 = some (t.reverse ++ body) := by
  induction t generalizing body with
  | nil => exact Or.inr ⟨rfl, rfl⟩
  | cons c rest ih =>
      by_cases hc : c = '@'
      · have hnone : Meaning.ofBody? body.reverse = none := by
          cases hm : Meaning.ofBody? body.reverse with
          | none => rfl
          | some meaning =>
              rw [← List.append_nil body.reverse] at hm
              exact absurd ((isBodyStart_of_ofBody? hm).symm.trans h) (by decide)
        left
        simp [readPieces, hc, hnone]
      · have hlonger : isBodyStart (c :: body).reverse = false := by
          rw [List.reverse_cons]
          exact Bool.eq_false_iff.mpr fun hstart =>
            absurd ((isBodyStart_of_append hstart).symm.trans h) (by decide)
        have ih := ih hlonger
        simpa [readPieces, hc] using ih

/-- **Behind a finished text, a text is finished if it is so on its own.** -/
theorem isUnfinished_append {t : Text} (h : isUnfinished t = false) (u : Text) :
    isUnfinished (t ++ u) = isUnfinished u := by
  rw [isUnfinished] at h ⊢
  rw [readPieces_append]
  cases hstate : (readPieces none t).2 with
  | none => rw [isUnfinished]
  | some body =>
      rw [hstate] at h
      rw [isUnfinished]
      rcases readPieces_some_snd h u with heq | ⟨hnone, hsome⟩
      · rw [heq]
      · simp only [hnone, hsome, List.reverse_append, List.reverse_reverse]
        exact Bool.eq_false_iff.mpr fun hstart =>
          absurd ((isBodyStart_of_append hstart).symm.trans h) (by decide)

/-! ## Borders between runs -/

/-- The text of the row up to the border is unfinished.  Borders are counted from the one in front
of the first run. -/
def IsOpen (runs : List Node) (border : Nat) : Prop :=
  isUnfinished (groupText (runs.take border)) = true

/-- A token of the row goes over the border. -/
def IsCrossed (runs : List Node) (border : Nat) : Prop :=
  ∃ entry ∈ tokens (groupText runs),
    entry.1 < (groupText (runs.take border)).length
      ∧ (groupText (runs.take border)).length < entry.1 + entry.2.text.length

/-- All borders inside the row are open. -/
def HangsTogether (runs : List Node) : Prop :=
  ∀ border, 0 < border → border < runs.length → IsOpen runs border

instance (runs : List Node) (border : Nat) : Decidable (IsOpen runs border) :=
  inferInstanceAs (Decidable (_ = true))

instance (runs : List Node) (border : Nat) : Decidable (IsCrossed runs border) :=
  inferInstanceAs (Decidable (∃ entry ∈ tokens (groupText runs),
    entry.1 < (groupText (runs.take border)).length
      ∧ (groupText (runs.take border)).length < entry.1 + entry.2.text.length))

lemma stop_le_of_mem_tokens {t : Text} {position : Nat} {token : Token}
    (h : (position, token) ∈ tokens t) : position + token.text.length ≤ t.length := by
  obtain ⟨before, after, hps, hposition⟩ := mem_tokensFrom.mp h
  have hlength := spelledLength_pieces t
  rw [hps] at hlength
  simp only [spelledLength_append, spelledLength_cons, Piece.text] at hlength
  omega

/-- The tokens of two texts that are read apart. -/
lemma mem_tokens_append {t u : Text} (h : pieces (t ++ u) = pieces t ++ pieces u) {position : Nat}
    {token : Token} :
    (position, token) ∈ tokens (t ++ u) ↔ (position, token) ∈ tokens t
      ∨ ∃ offset, (offset, token) ∈ tokens u ∧ position = t.length + offset := by
  rw [tokens, h, tokensFrom_append, List.mem_append, spelledLength_pieces, Nat.zero_add]
  refine or_congr Iff.rfl ?_
  simp only [tokens, mem_tokensFrom, Nat.zero_add]
  constructor
  · rintro ⟨before, after, hps, rfl⟩
    exact ⟨_, ⟨before, after, hps, rfl⟩, rfl⟩
  · rintro ⟨_, ⟨before, after, hps, rfl⟩, rfl⟩
    exact ⟨before, after, hps, rfl⟩

lemma length_groupText_take_le (runs : List Node) (border : Nat) :
    (groupText (runs.take border)).length ≤ (groupText runs).length := by
  conv_rhs => rw [← List.take_append_drop border runs, groupText_append]
  rw [List.length_append]
  exact Nat.le_add_right _ _

/-- Only a border between two runs is crossed. -/
lemma IsCrossed.bounds {runs : List Node} {border : Nat} (h : IsCrossed runs border) :
    0 < border ∧ border < runs.length := by
  obtain ⟨⟨position, token⟩, hmem, hlow, hhigh⟩ := h
  refine ⟨?_, ?_⟩
  · by_contra hzero
    rw [Nat.eq_zero_of_not_pos hzero] at hlow
    exact absurd hlow (Nat.not_lt_zero _)
  · by_contra hlast
    rw [List.take_of_length_le (Nat.le_of_not_lt hlast)] at hhigh
    exact absurd (stop_le_of_mem_tokens hmem) (Nat.not_le_of_lt hhigh)

lemma mem_bordersFrom {runs : List Node} {start position : Nat} :
    position ∈ bordersFrom start runs ↔ ∃ border, 0 < border ∧ border < runs.length
      ∧ position = start + (groupText (runs.take border)).length := by
  induction runs generalizing start with
  | nil => simp [bordersFrom]
  | cons run rest ih =>
      cases rest with
      | nil =>
          simp only [bordersFrom, List.not_mem_nil, List.length_singleton, false_iff]
          rintro ⟨border, hpos, hlt, -⟩
          omega
      | cons second others =>
          have htake : ∀ border, (groupText ((run :: second :: others).take (border + 1))).length
              = (runContent run).length + (groupText ((second :: others).take border)).length := by
            intro border
            rw [List.take_succ_cons, groupText, List.flatMap_cons, List.length_append, groupText]
          have hborders : bordersFrom start (run :: second :: others)
              = (start + (runContent run).length)
                :: bordersFrom (start + (runContent run).length) (second :: others) := rfl
          rw [hborders, List.mem_cons, ih]
          constructor
          · rintro (rfl | ⟨border, hpos, hlt, rfl⟩)
            · exact ⟨1, by omega, by simp, by simp [groupText]⟩
            · refine ⟨border + 1, by omega, by simpa using hlt, ?_⟩
              rw [htake, Nat.add_assoc]
          · rintro ⟨border, hpos, hlt, rfl⟩
            obtain ⟨border, rfl⟩ := Nat.exists_eq_add_of_lt hpos
            rw [Nat.zero_add] at hlt ⊢
            rw [htake]
            rcases Nat.eq_zero_or_pos border with rfl | hpos
            · exact Or.inl (by simp [groupText])
            · exact Or.inr ⟨border, hpos, by simpa using hlt, by omega⟩

/-- A row is spanned if one of its borders is crossed. -/
lemma isSpanned_iff {runs : List Node} :
    isSpanned runs = true ↔ ∃ border, IsCrossed runs border := by
  simp only [isSpanned, List.any_eq_true, Bool.and_eq_true, decide_eq_true_eq, mem_bordersFrom,
    Nat.zero_add]
  constructor
  · rintro ⟨⟨position, token⟩, hmem, _, ⟨border, -, -, rfl⟩, hlow, hhigh⟩
    exact ⟨border, (position, token), hmem, hlow, hhigh⟩
  · rintro ⟨border, hcrossed⟩
    obtain ⟨hpos, hlt⟩ := hcrossed.bounds
    obtain ⟨⟨position, token⟩, hmem, hlow, hhigh⟩ := hcrossed
    exact ⟨(position, token), hmem, _, ⟨border, hpos, hlt, rfl⟩, hlow, hhigh⟩

section

variable {front runs rest : List Node} {border : Nat}

lemma groupText_take_append : groupText ((front ++ runs).take (front.length + border))
    = groupText front ++ groupText (runs.take border) := by
  rw [List.take_length_add_append, groupText_append]

/-- Behind a finished row, borders are open or not as they are without it. -/
lemma isOpen_append (h : isUnfinished (groupText front) = false) :
    IsOpen (front ++ runs) (front.length + border) ↔ IsOpen runs border := by
  rw [IsOpen, IsOpen, groupText_take_append, isUnfinished_append h]

/-- Behind a finished row, borders are crossed or not as they are without it. -/
lemma isCrossed_append (h : isUnfinished (groupText front) = false) :
    IsCrossed (front ++ runs) (front.length + border) ↔ IsCrossed runs border := by
  have hsplit := pieces_append_of_finished h (groupText runs)
  simp only [IsCrossed, groupText_take_append, groupText_append, List.length_append]
  constructor
  · rintro ⟨⟨position, token⟩, hmem, hlow, hhigh⟩
    simp only at hlow hhigh
    rcases (mem_tokens_append hsplit).mp hmem with hfront | ⟨offset, hruns, rfl⟩
    · have := stop_le_of_mem_tokens hfront
      omega
    · exact ⟨(offset, token), hruns, by simp only; omega, by simp only; omega⟩
  · rintro ⟨⟨offset, token⟩, hmem, hlow, hhigh⟩
    simp only at hlow hhigh
    exact ⟨(_, token), (mem_tokens_append hsplit).mpr (Or.inr ⟨offset, hmem, rfl⟩),
      by simp only; omega, by simp only; omega⟩

/-- What is read apart from a row does not matter to the borders in the row. -/
lemma isCrossed_append_left
    (h : pieces (groupText runs ++ groupText rest)
      = pieces (groupText runs) ++ pieces (groupText rest)) (hborder : border ≤ runs.length) :
    IsCrossed (runs ++ rest) border ↔ IsCrossed runs border := by
  have hshort := length_groupText_take_le runs border
  simp only [IsCrossed, groupText_append, List.take_append_of_le_length hborder]
  constructor
  · rintro ⟨⟨position, token⟩, hmem, hlow, hhigh⟩
    rcases (mem_tokens_append h).mp hmem with hmem | ⟨offset, -, rfl⟩
    · exact ⟨_, hmem, hlow, hhigh⟩
    · simp only at hlow
      omega
  · rintro ⟨⟨position, token⟩, hmem, hlow, hhigh⟩
    exact ⟨_, (mem_tokens_append h).mpr (Or.inl hmem), hlow, hhigh⟩

end

/-! ## Groups that wait -/

/-- Every text of a waiting group's first runs is unfinished. -/
lemma IsWaiting.isOpen {group : List Node} (h : IsWaiting group) {border : Nat} (hpos : 0 < border)
    (hle : border ≤ group.length) : IsOpen group border := by
  induction h with
  | nil => exact absurd hpos (Nat.not_lt_of_le hle)
  | @concat group run h hrun hopen ih =>
      rcases Nat.lt_or_ge group.length border with hlast | hearly
      · rw [List.length_append, List.length_singleton] at hle
        rw [IsOpen, List.take_of_length_le (by simpa using Nat.succ_le_of_lt hlast)]
        exact hopen
      · have ih := ih hearly
        rwa [IsOpen, ← List.take_append_of_le_length hearly] at ih

/-- A waiting group hangs together with the run that comes next, whatever it is. -/
lemma IsWaiting.hangsTogether {group : List Node} (h : IsWaiting group) (run : Node) :
    HangsTogether (group ++ [run]) := by
  intro border hpos hlt
  have hle : border ≤ group.length := by
    rw [List.length_append] at hlt
    exact Nat.le_of_lt_succ hlt
  rw [IsOpen, List.take_append_of_le_length hle]
  exact h.isOpen hpos hle

/-- How far joining is after some children of a paragraph: those in `done` have come out as `front`,
and the runs of those in `group`, which follow them, wait. -/
structure HasJoined (nodes done group front : List Node) : Prop where
  nodes_eq : nodes = done ++ group
  members : ∀ node ∈ group, isRunOrMark node = true
  waiting : IsWaiting (textRuns group)
  regrouped : Regrouped done front
  finished : (∀ node ∈ nodes, isRunOrMark node = true) →
    isUnfinished (groupText (textRuns done)) = false
  resumes : ∀ rest, joinParagraph [] (nodes ++ rest) = front ++ joinParagraph (textRuns group) rest

/-- A text run is taken up by the group, which waits on or is settled. -/
lemma HasJoined.run {nodes done group front : List Node} (h : HasJoined nodes done group front)
    {run : Node} (hrun : isTextRun run = true) :
    ∃ done group front, HasJoined (nodes ++ [run]) done group front := by
  have hmembers : ∀ node ∈ group ++ [run], isRunOrMark node = true :=
    List.forall_mem_append.mpr ⟨h.members, by simpa using isRunOrMark_of_isTextRun hrun⟩
  have hruns : textRuns (group ++ [run]) = textRuns group ++ [run] := by
    rw [textRuns_append, textRuns_run hrun]
    rfl
  have hearly : (∀ node ∈ nodes ++ [run], isRunOrMark node = true) →
      isUnfinished (groupText (textRuns done)) = false :=
    fun hall => h.finished (List.forall_mem_append.mp hall).1
  have hresumes : ∀ rest, joinParagraph [] (nodes ++ [run] ++ rest)
      = front ++ joinParagraph (textRuns group) (run :: rest) := by
    intro rest
    rw [List.append_assoc, h.resumes, List.singleton_append]
  cases hopen : isUnfinished (groupText (textRuns group ++ [run])) with
  | true =>
      refine ⟨done, group ++ [run], front, ?_⟩
      refine ⟨by rw [h.nodes_eq, List.append_assoc], hmembers, ?_, h.regrouped, hearly,
        fun rest => ?_⟩
      · rw [hruns]
        exact .concat h.waiting hrun hopen
      · rw [hresumes, joinParagraph_textRun hrun, if_pos hopen, hruns]
  | false =>
      refine ⟨done ++ (group ++ [run]), [], front ++ settleGroup (textRuns (group ++ [run])), ?_⟩
      refine ⟨by rw [h.nodes_eq, List.append_nil, List.append_assoc], by simp, .nil,
        h.regrouped.append (regrouped_settleGroup hmembers), fun hall => ?_, fun rest => ?_⟩
      · rw [textRuns_append, groupText_append, isUnfinished_append (hearly hall), hruns, hopen]
      · rw [hresumes, joinParagraph_textRun hrun, if_neg (by simp [hopen]), hruns,
          List.append_assoc]
        rfl

/-- A proofing mark is dropped if runs wait; everything else that is no text run ends the group. -/
lemma HasJoined.other {nodes done group front : List Node} (h : HasJoined nodes done group front)
    {node : Node} (hnode : isTextRun node = false) :
    ∃ done group front, HasJoined (nodes ++ [node]) done group front := by
  have hearly : (∀ member ∈ nodes ++ [node], isRunOrMark member = true) →
      isUnfinished (groupText (textRuns done)) = false :=
    fun hall => h.finished (List.forall_mem_append.mp hall).1
  have hruns : textRuns (group ++ [node]) = textRuns group := by
    rw [textRuns_append, textRuns_other hnode]
    exact List.append_nil _
  have hresumes : ∀ rest, joinParagraph [] (nodes ++ [node] ++ rest)
      = front ++ joinParagraph (textRuns group) (node :: rest) := by
    intro rest
    rw [List.append_assoc, h.resumes, List.singleton_append]
  by_cases hdropped : (!(textRuns group).isEmpty && node.isNamed Word.proofingMark) = true
  · have hmark := hdropped
    rw [Bool.and_eq_true] at hmark
    refine ⟨done, group ++ [node], front, ?_⟩
    refine ⟨by rw [h.nodes_eq, List.append_assoc], ?_, by rw [hruns]; exact h.waiting,
      h.regrouped, hearly, fun rest => ?_⟩
    · exact List.forall_mem_append.mpr ⟨h.members, by simpa using isRunOrMark_of_mark hmark.2⟩
    · rw [hresumes, hruns, joinParagraph, if_neg (by simp [hnode]), if_pos hdropped]
  · refine ⟨done ++ (group ++ [node]), [],
      front ++ (settleGroup (textRuns group) ++ [joinRuns node]), ?_⟩
    refine ⟨by rw [h.nodes_eq, List.append_nil, List.append_assoc], by simp, .nil,
      h.regrouped.append ((regrouped_settleGroup h.members).append (.other hnode .nil)),
      fun hall => ?_, fun rest => ?_⟩
    · -- among text runs and proofing marks, it is a mark with no run waiting
      have hmark : node.isNamed Word.proofingMark = true := by
        have hlast := hall node (List.mem_append_right _ (List.mem_singleton_self node))
        rwa [isRunOrMark, hnode, Bool.false_or] at hlast
      have hnone : textRuns group = [] := by
        by_contra hsome
        exact hdropped (by simp [hmark, hsome])
      rw [textRuns_append, hruns, hnone, List.append_nil]
      exact hearly hall
    · rw [hresumes, joinParagraph, if_neg (by simp [hnode]), if_neg hdropped, List.append_assoc,
        List.append_assoc]
      rfl

/-- **Joining can be resumed behind any child of a paragraph.** -/
theorem exists_hasJoined (nodes : List Node) :
    ∃ done group front, HasJoined nodes done group front := by
  induction nodes using List.reverseRecOn with
  | nil => exact ⟨[], [], [], rfl, by simp, .nil, .nil, fun _ => rfl, fun _ => rfl⟩
  | append_singleton nodes node ih =>
      obtain ⟨done, group, front, h⟩ := ih
      cases hnode : isTextRun node with
      | true => exact h.run hnode
      | false => exact h.other hnode

/-- **How a waiting group ends:** with a run that finishes its text, or with the stretch. -/
theorem IsWaiting.exists_settled {after : List Node}
    (hafter : ∀ node ∈ after.head?, isRunOrMark node = false) :
    ∀ {nodes group : List Node}, IsWaiting group → group ≠ [] →
      (∀ node ∈ nodes, isRunOrMark node = true) →
      ∃ taken left back, nodes = taken ++ left
        ∧ joinParagraph group (nodes ++ after) = settleGroup (group ++ textRuns taken) ++ back
        ∧ Regrouped (left ++ after) back
        ∧ HangsTogether (group ++ textRuns taken)
        ∧ (isUnfinished (groupText (group ++ textRuns taken)) = false ∨ left = [])
  | [], group, h, _, _ => by
      have hbreaks : Breaks group after := by
        cases after with
        | nil => trivial
        | cons node rest =>
            have hfixed := hafter node rfl
            rw [isRunOrMark, Bool.or_eq_false_iff] at hfixed
            exact ⟨hfixed.1, Or.inr hfixed.2⟩
      refine ⟨[], [], joinParagraph [] after, rfl, ?_, regrouped_joined after,
        fun border hpos hlt => ?_, Or.inr rfl⟩
      · rw [List.nil_append, hbreaks.settles]
        simp [textRuns]
      · simp only [textRuns, List.filter_nil, List.append_nil] at hlt ⊢
        exact h.isOpen hpos (Nat.le_of_lt hlt)
  | node :: nodes, group, h, hne, hmembers => by
      obtain ⟨hnode, hmembers⟩ := List.forall_mem_cons.mp hmembers
      cases hrun : isTextRun node with
      | true =>
          have hgroup : ∀ taken, group ++ [node] ++ textRuns taken
              = group ++ textRuns (node :: taken) := by
            intro taken
            rw [textRuns_run hrun, List.append_assoc]
            rfl
          rw [List.cons_append, joinParagraph_textRun hrun]
          cases hopen : isUnfinished (groupText (group ++ [node])) with
          | true =>
              obtain ⟨taken, left, back, rfl, hjoined, hback, hinner, hend⟩ :=
                (h.concat hrun hopen).exists_settled hafter (by simp) hmembers
              rw [hgroup] at hjoined hinner hend
              exact ⟨node :: taken, left, back, rfl, by rw [if_pos rfl, hjoined], hback, hinner,
                hend⟩
          | false =>
              have hinner := h.hangsTogether node
              have halone := hgroup []
              rw [textRuns, List.filter_nil, List.append_nil] at halone
              rw [halone] at hopen hinner
              exact ⟨[node], nodes, _, rfl, by rw [if_neg (by simp), halone],
                regrouped_joined (nodes ++ after), hinner, Or.inl hopen⟩
      | false =>
          rw [isRunOrMark, hrun, Bool.false_or] at hnode
          obtain ⟨taken, left, back, rfl, hjoined, hback, hinner, hend⟩ :=
            h.exists_settled hafter hne hmembers
          rw [← textRuns_other hrun] at hjoined hinner hend
          refine ⟨node :: taken, left, back, rfl, ?_, hback, hinner, hend⟩
          rw [← hjoined, List.cons_append, joinParagraph, if_neg (by simp [hrun]),
            if_pos (by simp [hne, hnode])]

/-! ## Runs that are merged -/

/-- The run at the given index is merged: between it and a border that a token crosses, all borders
are open. -/
def IsDrawnIn (runs : List Node) (index : Nat) : Prop :=
  ∃ border, IsCrossed runs border
    ∧ ∀ other, min border (index + 1) ≤ other → other ≤ max border index → IsOpen runs other

/-- A group that ends with its own text or with the row takes part in merging as if it stood
alone: in front of it and behind it, borders are not open or not crossed. -/
theorem isDrawnIn_iff {front group rest : List Node} {index : Nat} (hindex : index < group.length)
    (hfront : isUnfinished (groupText front) = false)
    (hinner : HangsTogether group)
    (hend : isUnfinished (groupText group) = false ∨ rest = []) :
    IsDrawnIn (front ++ (group ++ rest)) (front.length + index) ↔ isSpanned group = true := by
  have hsplit : pieces (groupText group ++ groupText rest)
      = pieces (groupText group) ++ pieces (groupText rest) := by
    rcases hend with hfinished | rfl
    · exact pieces_append_of_finished hfinished _
    · have hnone : groupText [] = [] := rfl
      rw [hnone, List.append_nil]
      exact (List.append_nil _).symm
  have hcrossed : ∀ {border}, border ≤ group.length →
      (IsCrossed (front ++ (group ++ rest)) (front.length + border) ↔ IsCrossed group border) :=
    fun hle => (isCrossed_append hfront).trans (isCrossed_append_left hsplit hle)
  have hopen : ∀ {border}, border ≤ group.length →
      (IsOpen (front ++ (group ++ rest)) (front.length + border) ↔ IsOpen group border) := by
    intro border hle
    rw [isOpen_append hfront, IsOpen, IsOpen, List.take_append_of_le_length hle]
  constructor
  · rintro ⟨border, hcross, hbetween⟩
    have hlow : front.length < border := by
      by_contra hearly
      have hfirst := hbetween front.length (by omega) (by omega)
      rw [← Nat.add_zero front.length, hopen (Nat.zero_le _), IsOpen, List.take_zero] at hfirst
      exact absurd hfirst (by decide)
    have hhigh : border < front.length + group.length := by
      by_contra hlate
      have hlast := hbetween (front.length + group.length) (by omega) (by omega)
      rw [hopen (Nat.le_refl _), IsOpen, List.take_length] at hlast
      rcases hend with hfinished | rfl
      · exact Bool.noConfusion (hlast.symm.trans hfinished)
      · have hinside := hcross.bounds.2
        simp only [List.length_append, List.length_nil] at hinside
        omega
    obtain ⟨inside, rfl⟩ := Nat.exists_eq_add_of_le (Nat.le_of_lt hlow)
    exact isSpanned_iff.mpr ⟨inside, (hcrossed (by omega)).mp hcross⟩
  · intro hspanned
    obtain ⟨border, hcross⟩ := isSpanned_iff.mp hspanned
    obtain ⟨hpos, hlt⟩ := hcross.bounds
    refine ⟨front.length + border, (hcrossed (Nat.le_of_lt hlt)).mpr hcross, ?_⟩
    intro other hlow hhigh
    obtain ⟨inside, rfl⟩ := Nat.exists_eq_add_of_le (show front.length ≤ other by omega)
    exact (hopen (by omega)).mpr (hinner inside (by omega) (by omega))

/-- A text run of a paragraph, with what stands before and behind it: first the other text runs and
proofing marks of its stretch, then the rest of the children. -/
structure IsInStretch (children before lead : List Node) (run : Node) (trail after : List Node) :
    Prop where
  children_eq : children = before ++ (lead ++ run :: trail) ++ after
  run : isTextRun run = true
  lead : ∀ node ∈ lead, isRunOrMark node = true
  trail : ∀ node ∈ trail, isRunOrMark node = true
  before : ∀ node ∈ before.getLast?, isRunOrMark node = false
  after : ∀ node ∈ after.head?, isRunOrMark node = false

/-- **The group of a text run.**  Joining settles the run together with some of its neighbours; all
borders between these are open, and the text is finished before them and behind them, if the stretch
goes on there. -/
theorem IsInStretch.exists_group {children before lead : List Node} {run : Node}
    {trail after : List Node} (h : IsInStretch children before lead run trail after) :
    ∃ done group taken left front back, lead = done ++ group ∧ trail = taken ++ left
      ∧ joinParagraph [] children
          = front ++ settleGroup (textRuns (group ++ run :: taken)) ++ back
      ∧ Regrouped (before ++ done) front ∧ Regrouped (left ++ after) back
      ∧ isUnfinished (groupText (textRuns done)) = false
      ∧ HangsTogether (textRuns (group ++ run :: taken))
      ∧ (isUnfinished (groupText (textRuns (group ++ run :: taken))) = false ∨ left = []) := by
  obtain ⟨early, pending, front, hbefore⟩ := exists_hasJoined before
  obtain rfl : pending = [] := by
    -- the last child before the stretch is fixed, so nothing waits behind it
    refine List.getLast?_eq_none_iff.mp (Option.eq_none_iff_forall_ne_some.mpr fun node hlast => ?_)
    have hfixed := h.before node (by
      rw [hbefore.nodes_eq, List.getLast?_append, hlast]
      rfl)
    have hmember := hbefore.members node (List.mem_of_getLast? hlast)
    exact Bool.noConfusion (hmember.symm.trans hfixed)
  obtain rfl : before = early := by rw [hbefore.nodes_eq, List.append_nil]
  obtain ⟨done, group, middle, hlead⟩ := exists_hasJoined lead
  have hwaiting := hlead.waiting
  have hresumes : joinParagraph [] children
      = front ++ middle ++ joinParagraph (textRuns group) (run :: (trail ++ after)) := by
    rw [h.children_eq, List.append_assoc, hbefore.resumes, List.append_assoc,
      List.cons_append]
    exact (congrArg (front ++ ·) (hlead.resumes _)).trans (List.append_assoc _ _ _).symm
  have hregrouped : Regrouped (before ++ done) (front ++ middle) :=
    hbefore.regrouped.append hlead.regrouped
  have hfinished := hlead.finished h.lead
  have hruns : ∀ taken, textRuns (group ++ run :: taken)
      = textRuns group ++ [run] ++ textRuns taken := by
    intro taken
    rw [textRuns_append, textRuns_run h.run, List.append_assoc]
    rfl
  rw [joinParagraph_textRun h.run] at hresumes
  -- the run is the last one of its group, or the group waits on
  cases hopen : isUnfinished (groupText (textRuns group ++ [run])) with
  | true =>
      rw [if_pos hopen] at hresumes
      obtain ⟨taken, left, back, htrail, hjoined, hback, hinner, hend⟩ :=
        (hwaiting.concat h.run hopen).exists_settled h.after (by simp) h.trail
      rw [← hruns] at hjoined hinner hend
      exact ⟨done, group, taken, left, front ++ middle, back, hlead.nodes_eq, htrail,
        by rw [hresumes, hjoined, List.append_assoc (front ++ middle)], hregrouped, hback,
        hfinished, hinner, hend⟩
  | false =>
      rw [if_neg (by simp [hopen])] at hresumes
      have halone : textRuns group ++ [run] = textRuns (group ++ [run]) := by
        rw [hruns]
        exact (List.append_nil _).symm
      have hinner := hwaiting.hangsTogether run
      rw [halone] at hresumes hopen hinner
      exact ⟨done, group, [], trail, front ++ middle, _, hlead.nodes_eq, rfl,
        by rw [hresumes, List.append_assoc (front ++ middle)], hregrouped,
        regrouped_joined (trail ++ after), hfinished, hinner, Or.inl hopen⟩

/-- **Which runs are merged.**  A text run of a paragraph stays, unchanged and in its place among
the other children, unless it is drawn in: a token crosses a border of its stretch, and all borders
from there to the run are open.  A run that is drawn in is merged with its neighbours. -/
theorem joinParagraph_merges_iff {children before lead : List Node} {run : Node}
    {trail after : List Node} (h : IsInStretch children before lead run trail after) :
    (¬ IsDrawnIn (textRuns (lead ++ run :: trail)) (textRuns lead).length →
      ∃ front back, joinParagraph [] children = front ++ run :: back
        ∧ Regrouped (before ++ lead) front ∧ Regrouped (trail ++ after) back)
    ∧ (IsDrawnIn (textRuns (lead ++ run :: trail)) (textRuns lead).length →
      ∃ done group taken left front back, lead = done ++ group ∧ trail = taken ++ left
        ∧ 2 ≤ (textRuns (group ++ run :: taken)).length
        ∧ joinParagraph [] children
            = front ++ Word.makeRun (groupText (textRuns (group ++ run :: taken)))
                (sharedFormat (textRuns (group ++ run :: taken))) :: back
        ∧ Regrouped (before ++ done) front ∧ Regrouped (left ++ after) back) := by
  obtain ⟨done, group, taken, left, front, back, rfl, rfl, hjoined, hfront, hback, hfinished,
    hinner, hend⟩ := h.exists_group
  have hgroup := (List.forall_mem_append.mp h.lead).2
  have htaken := (List.forall_mem_append.mp h.trail).1
  have hruns : textRuns (done ++ group ++ run :: (taken ++ left))
      = textRuns done ++ (textRuns (group ++ run :: taken) ++ textRuns left) := by
    rw [← textRuns_append, ← textRuns_append]
    simp
  have hindex : (textRuns (done ++ group)).length
      = (textRuns done).length + (textRuns group).length := by
    rw [textRuns_append, List.length_append]
  have hinside : (textRuns group).length < (textRuns (group ++ run :: taken)).length := by
    rw [textRuns_append, List.length_append, textRuns_run h.run, List.length_cons]
    omega
  rw [hruns, hindex, isDrawnIn_iff hinside hfinished hinner (hend.imp_right fun hleft => by
    rw [hleft]
    rfl)]
  constructor
  · intro hapart
    rw [settleGroup, if_neg hapart, textRuns_append, textRuns_run h.run] at hjoined
    refine ⟨front ++ textRuns group, textRuns taken ++ back, ?_, ?_, ?_⟩
    · rw [hjoined]
      simp
    · rw [← List.append_assoc, ← List.append_nil (textRuns group)]
      have hstays := Regrouped.nil.unmerged hgroup
      rw [List.append_nil] at hstays
      exact hfront.append hstays
    · rw [List.append_assoc]
      exact hback.unmerged htaken
  · intro hspanned
    obtain ⟨border, hcrossed⟩ := isSpanned_iff.mp hspanned
    obtain ⟨hpos, hlt⟩ := hcrossed.bounds
    refine ⟨done, group, taken, left, front, back, rfl, rfl, by omega, ?_, hfront, hback⟩
    rw [hjoined, settleGroup, if_pos hspanned, List.append_assoc, List.singleton_append]

/-- A run with an at-sign that belongs to no token, behind two runs with one between them. -/
theorem joinParagraph_merges_iff_finished :
    let lead := [dividedRun ["Dear @na"], dividedRun ["me@, "]]
    let run := dividedRun ["write to x@y"]
    let trail := [dividedRun ["."]]
    let children := lead ++ run :: trail
    IsInStretch children [] lead run trail []
      ∧ (¬ IsDrawnIn (textRuns children) (textRuns lead).length →
        ∃ front back, joinParagraph [] children = front ++ run :: back
          ∧ Regrouped ([] ++ lead) front ∧ Regrouped (trail ++ []) back)
      ∧ (IsDrawnIn (textRuns children) (textRuns lead).length →
        ∃ done group taken left front back, lead = done ++ group ∧ trail = taken ++ left
          ∧ 2 ≤ (textRuns (group ++ run :: taken)).length
          ∧ joinParagraph [] children
              = front ++ Word.makeRun (groupText (textRuns (group ++ run :: taken)))
                  (sharedFormat (textRuns (group ++ run :: taken))) :: back
          ∧ Regrouped ([] ++ done) front ∧ Regrouped (left ++ []) back) := by
  intro lead run trail children
  have hstretch : IsInStretch children [] lead run trail [] :=
    ⟨by simp [children], by decide +kernel, by decide +kernel, by decide +kernel, by simp, by simp⟩
  exact ⟨hstretch, joinParagraph_merges_iff hstretch⟩

/-- **A run can be merged that no token touches.**  The at-sign at the end of the first run belongs
to no token, but the run waits on account of it, and so it is merged with the runs behind it. -/
theorem joinParagraph_merges_apart :
    let run := dividedRun ["a@"]
    let children := [run, dividedRun ["b @na"], dividedRun ["me@"]]
    textRuns children = children
      ∧ tokens (groupText children) = [(4, ⟨"name".toList, .placeholder ["name".toList]⟩)]
      ∧ ¬ IsCrossed children 0 ∧ ¬ IsCrossed children 1 ∧ IsCrossed children 2
      ∧ joinParagraph [] children = [Word.makeRun "a@b @name@".toList none]
      ∧ run ∉ joinParagraph [] children := by
  decide +kernel

end FormLetter
