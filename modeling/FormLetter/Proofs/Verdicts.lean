import Mathlib.Data.List.Induction
import FormLetter.Proofs.Locating
import FormLetter.Proofs.Nesting

/-!
# What pairing decides

Markers that do not pair are reported by one problem.  The stack of the machine decides which, and
the grammar of sections says the same without a stack: the first marker that no word of the grammar
can have at its place is misplaced, and where there is none, some section is never closed.

* `LeavesOpen` — the sections that a sequence of markers has begun and not ended.  Where the machine
  stands after such a sequence is described by them (`LeavesOpen.pairFrom`).
* `leavesOpen_or_misplaced` — either a whole sequence leaves sections open, perhaps none, or it has a
  marker that is misplaced behind what stands in front of it.
* `LeavesOpen.extendable`, `not_extendable_of_misplaced` — the one can be continued to a word of the
  grammar, the other cannot.
* `pair_decides` — pairing accepts the words of the grammar and reports the first problem of all
  others.
-/

namespace FormLetter

/-! ## Sections that are left open -/

/-- **The markers leave these sections open,** the innermost first.  In front of the outermost one
stand whole sections, and whole sections stand inside each, in the branches that have been begun. -/
inductive LeavesOpen : List Marker → List OpenBlock → Prop
  | none {ms : List Marker} {blocks : List Block} (h : Nested ms blocks) : LeavesOpen ms []
  | more {ms body : List Marker} {stack : List OpenBlock} {here : Occurrence}
      {condition : Condition} {alternative : Option Occurrence} (h : LeavesOpen ms stack)
      (hbody : OpenBlock.Continues ⟨here, condition, none⟩ body alternative) :
      LeavesOpen (ms ++ .opening here condition :: body) (⟨here, condition, alternative⟩ :: stack)

/-- Markers that lead on inside an open section may divide it, and change nothing else. -/
lemma OpenBlock.Continues.pairFrom {block : OpenBlock} {body : List Marker}
    {alternative : Option Occurrence} (h : block.Continues body alternative)
    (stack : List OpenBlock) (rest : List Marker) :
    FormLetter.pairFrom (block :: stack) (body ++ rest)
      = FormLetter.pairFrom (⟨block.opening, block.condition, alternative⟩ :: stack) rest := by
  cases h with
  | plain h => exact pairFrom_append h block stack rest
  | divided hnone hfirst hsecond =>
      rw [List.append_assoc, List.cons_append, pairFrom_append hfirst, FormLetter.pairFrom, hnone]
      exact pairFrom_append hsecond _ stack rest

/-- Whole sections may follow what leads on inside an open one. -/
lemma OpenBlock.Continues.append {block : OpenBlock} {body ms : List Marker}
    {alternative : Option Occurrence} {inside : List Block}
    (h : block.Continues body alternative) (hms : Nested ms inside) :
    block.Continues (body ++ ms) alternative := by
  cases h with
  | plain h => exact .plain (h.append hms)
  | divided hnone hfirst hsecond =>
      rw [List.append_assoc, List.cons_append]
      exact .divided hnone hfirst (hsecond.append hms)

namespace LeavesOpen

variable {ms : List Marker} {stack : List OpenBlock}

/-- **The stack of the machine consists of the open sections;** the sections that are finished have
been returned. -/
theorem pairFrom (h : LeavesOpen ms stack) : ∃ blocks, ∀ rest,
    FormLetter.pairFrom [] (ms ++ rest) = (FormLetter.pairFrom stack rest).map (blocks ++ ·) := by
  induction h with
  | none h => exact ⟨_, pairFrom_nil_append h⟩
  | more _ hbody ih =>
      obtain ⟨blocks, hblocks⟩ := ih
      refine ⟨blocks, fun rest => ?_⟩
      rw [List.append_assoc, List.cons_append, hblocks, FormLetter.pairFrom, hbody.pairFrom]

/-- Whole sections may follow, whatever is open. -/
lemma append {ns : List Marker} {blocks : List Block} (h : LeavesOpen ms stack)
    (hns : Nested ns blocks) : LeavesOpen (ms ++ ns) stack := by
  cases h with
  | none h => exact .none (h.append hns)
  | more h hbody =>
      rw [List.append_assoc, List.cons_append]
      exact .more h (hbody.append hns)

/-- An alternative marker divides the innermost section, if it is undivided. -/
lemma divide {block : OpenBlock} (h : LeavesOpen ms (block :: stack))
    (hnone : block.alternative = Option.none) (here : Occurrence) :
    LeavesOpen (ms ++ [.alternative here])
      (⟨block.opening, block.condition, some here⟩ :: stack) := by
  cases h with
  | more h hbody =>
      rw [List.append_assoc, List.cons_append]
      cases hbody with
      | plain hbody => exact .more h (.divided rfl hbody .nil)
      | divided => cases hnone

/-- A closing marker ends the innermost section. -/
lemma close {block : OpenBlock} (h : LeavesOpen ms (block :: stack)) (here : Occurrence) :
    LeavesOpen (ms ++ [.closing here]) stack := by
  cases h with
  | more h hbody =>
      rw [List.append_assoc, List.cons_append]
      exact h.append (hbody.nested .nil)

end LeavesOpen

/-! ## Misplaced markers -/

/-- **A marker cannot follow markers that leave these sections open,** with the problem that is
reported.  Where nothing is open there is nothing to divide or to close, and no section is divided
twice. -/
inductive Misplaced : List OpenBlock → Marker → PairingError → Prop
  | orphanElse {here : Occurrence} : Misplaced [] (.alternative here) (.orphanElse here.start)
  | orphanEndif {here : Occurrence} : Misplaced [] (.closing here) (.orphanEndif here.start)
  | multipleElse {block : OpenBlock} {stack : List OpenBlock} {middle here : Occurrence}
      (h : block.alternative = some middle) :
      Misplaced (block :: stack) (.alternative here)
        (.multipleElse block.condition block.opening.start)

lemma Misplaced.pairFrom {stack : List OpenBlock} {m : Marker} {error : PairingError}
    (h : Misplaced stack m error) (rest : List Marker) :
    FormLetter.pairFrom stack (m :: rest) = .error error := by
  cases h with
  | orphanElse => rfl
  | orphanEndif => rfl
  | multipleElse h => rw [FormLetter.pairFrom, h]

/-- Behind open sections a marker either is misplaced or leads to open sections again. -/
lemma leavesOpen_concat {ms : List Marker} {stack : List OpenBlock} (h : LeavesOpen ms stack)
    (m : Marker) :
    (∃ stack', LeavesOpen (ms ++ [m]) stack') ∨ ∃ error, Misplaced stack m error := by
  cases m with
  | opening here condition => exact Or.inl ⟨_, h.more (.plain .nil)⟩
  | alternative here =>
      cases stack with
      | nil => exact Or.inr ⟨_, .orphanElse⟩
      | cons block stack =>
          cases hdivided : block.alternative with
          | none => exact Or.inl ⟨_, h.divide hdivided here⟩
          | some middle => exact Or.inr ⟨_, .multipleElse hdivided⟩
  | closing here =>
      cases stack with
      | nil => exact Or.inr ⟨_, .orphanEndif⟩
      | cons block stack => exact Or.inl ⟨_, h.close here⟩

/-- **Markers leave sections open, perhaps none, or one of them is misplaced** behind those that stand
in front of it. -/
theorem leavesOpen_or_misplaced (ms : List Marker) :
    (∃ stack, LeavesOpen ms stack)
      ∨ ∃ front m rest stack error,
          ms = front ++ m :: rest ∧ LeavesOpen front stack ∧ Misplaced stack m error := by
  induction ms using List.reverseRecOn with
  | nil => exact Or.inl ⟨[], .none .nil⟩
  | append_singleton ms last ih =>
      rcases ih with ⟨stack, h⟩ | ⟨front, m, rest, stack, error, rfl, h, hm⟩
      · rcases leavesOpen_concat h last with hnext | ⟨error, hm⟩
        · exact Or.inl hnext
        · exact Or.inr ⟨ms, last, [], stack, error, rfl, h, hm⟩
      · exact Or.inr ⟨front, m, rest ++ [last], stack, error, by simp, h, hm⟩

/-! ## Words that can be continued -/

/-- The markers can be continued to a word of the grammar. -/
def Extendable (ms : List Marker) : Prop := ∃ rest, Balanced (ms.map Marker.meaning ++ rest)

lemma Extendable.front {front ms : List Marker} (h : Extendable ms) (hfront : front <+: ms) :
    Extendable front := by
  obtain ⟨behind, rfl⟩ := hfront
  obtain ⟨rest, h⟩ := h
  rw [List.map_append, List.append_assoc] at h
  exact ⟨_, h⟩

/-- What markers say in a word of the grammar is said by markers. -/
lemma Balanced.exists_markers {word : List Meaning} (h : Balanced word) :
    ∃ ms : List Marker, ms.map Marker.meaning = word := by
  induction h with
  | nil => exact ⟨[], rfl⟩
  | @plain path _ _ _ _ ihinner ihrest =>
      obtain ⟨inner, rfl⟩ := ihinner
      obtain ⟨rest, rfl⟩ := ihrest
      exact ⟨.opening ⟨0, []⟩ (.ofPath path) :: (inner ++ .closing ⟨0, []⟩ :: rest),
        by simp [Marker.meaning, Condition.ofPath]⟩
  | @divided path _ _ _ _ _ _ ihfirst ihsecond ihrest =>
      obtain ⟨first, rfl⟩ := ihfirst
      obtain ⟨second, rfl⟩ := ihsecond
      obtain ⟨rest, rfl⟩ := ihrest
      exact ⟨.opening ⟨0, []⟩ (.ofPath path)
          :: (first ++ .alternative ⟨0, []⟩ :: (second ++ .closing ⟨0, []⟩ :: rest)),
        by simp [Marker.meaning, Condition.ofPath]⟩

/-- Open sections can be closed. -/
lemma LeavesOpen.extendable {ms : List Marker} {stack : List OpenBlock} (h : LeavesOpen ms stack) :
    Extendable ms := by
  induction stack generalizing ms with
  | nil =>
      cases h with
      | none h => exact ⟨[], by simpa using h.balanced⟩
  | cons block stack ih => exact (ih (h.close ⟨0, []⟩)).front (List.prefix_append ms _)

/-- A misplaced marker cannot be made good by what follows it. -/
lemma not_extendable_of_misplaced {front : List Marker} {stack : List OpenBlock} {m : Marker}
    {error : PairingError} (h : LeavesOpen front stack) (hm : Misplaced stack m error) :
    ¬ Extendable (front ++ [m]) := by
  rintro ⟨word, hword⟩
  obtain ⟨all, hall⟩ := hword.exists_markers
  obtain ⟨_, rest, rfl, -, hrest⟩ := List.map_eq_append_iff.mp hall
  obtain ⟨blocks, hnested⟩ :=
    Balanced.nested hword (show ((front ++ [m]) ++ rest).map Marker.meaning = _ by simp [hrest])
  obtain ⟨finished, hmachine⟩ := h.pairFrom
  have hok : pair (front ++ m :: rest) = .ok blocks := by simpa using pair_of_nested hnested
  rw [pair, hmachine, hm.pairFrom] at hok
  cases hok

/-! ## The verdict -/

/-- **What the grammar of sections says about markers.** -/
inductive Verdict (ms : List Marker) : Except PairingError (List Block) → Prop
  /-- They spell sections, and these are the outermost ones. -/
  | paired {blocks : List Block} (h : Nested ms blocks) : Verdict ms (.ok blocks)
  /-- The markers in front of one of them can be continued to a word, and with it they cannot. -/
  | misplaced {front rest : List Marker} {m : Marker} {stack : List OpenBlock}
      {error : PairingError} (hms : ms = front ++ m :: rest) (hfront : Extendable front)
      (hstuck : ¬ Extendable (front ++ [m])) (hopen : LeavesOpen front stack)
      (h : Misplaced stack m error) : Verdict ms (.error error)
  /-- They can be continued to a word but are none, for they leave sections open. -/
  | unclosed {inner : List OpenBlock} {outermost : OpenBlock} (hextendable : Extendable ms)
      (hnone : ¬ Balanced (ms.map Marker.meaning)) (hopen : LeavesOpen ms (inner ++ [outermost])) :
      Verdict ms (.error (.unmatchedIf outermost.condition outermost.opening.start))

lemma pair_eq_ok_iff_balanced {ms : List Marker} :
    (∃ blocks, pair ms = .ok blocks) ↔ Balanced (ms.map Marker.meaning) := by
  simp only [pair_eq_ok_iff]
  exact ⟨fun ⟨_, h⟩ => h.balanced, fun h => h.nested rfl⟩

/-- The markers of the outermost sections stand in the order of all markers. -/
lemma occurrences_pairwise {ms : List Marker} {blocks : List Block} (h : pair ms = .ok blocks)
    {before : Occurrence → Occurrence → Prop} (hms : ms.Pairwise fun m n => before m.here n.here) :
    (∀ b ∈ blocks, b.occurrences.Pairwise before)
      ∧ blocks.Pairwise fun b c => ∀ m ∈ b.occurrences, ∀ n ∈ c.occurrences, before m n :=
  List.pairwise_flatMap.mp ((List.pairwise_map.mpr hms).sublist (pair_occurrences h))

/-- **Pairing decides as the grammar of sections does.**  It succeeds exactly on its words, with the
outermost sections; a marker that makes it impossible to continue to a word is reported where it
comes first; and if no marker does, the outermost section that is left open is reported.  The
sections that are returned do not overlap: whatever order all markers stand in, such as that of their
positions, their own markers stand in, and so do those of one section and of the next. -/
theorem pair_decides (ms : List Marker) :
    ((∃ blocks, pair ms = .ok blocks) ↔ Balanced (ms.map Marker.meaning))
      ∧ Verdict ms (pair ms)
      ∧ ∀ blocks, pair ms = .ok blocks →
          ∀ before : Occurrence → Occurrence → Prop,
            (ms.Pairwise fun m n => before m.here n.here) →
              (∀ b ∈ blocks, b.occurrences.Pairwise before)
                ∧ blocks.Pairwise fun b c =>
                    ∀ m ∈ b.occurrences, ∀ n ∈ c.occurrences, before m n := by
  refine ⟨pair_eq_ok_iff_balanced, ?_, fun blocks h before => occurrences_pairwise h⟩
  rcases leavesOpen_or_misplaced ms with ⟨stack, hopen⟩ | ⟨front, m, rest, stack, error, rfl, h, hm⟩
  · obtain ⟨blocks, hmachine⟩ := hopen.pairFrom
    have hpair := hmachine []
    rw [List.append_nil] at hpair
    cases stack using List.reverseRecOn with
    | nil =>
        have hok : pair ms = .ok blocks := by
          rw [pair, hpair, FormLetter.pairFrom, List.getLast?_nil, map_ok, List.append_nil]
        rw [hok]
        exact .paired (pair_eq_ok_iff.mp hok)
    | append_singleton inner outermost =>
        have herror : pair ms
            = .error (.unmatchedIf outermost.condition outermost.opening.start) := by
          rw [pair, hpair, FormLetter.pairFrom, List.getLast?_append]
          rfl
        rw [herror]
        refine .unclosed hopen.extendable (fun hbalanced => ?_) hopen
        obtain ⟨blocks, hok⟩ := pair_eq_ok_iff_balanced.mpr hbalanced
        rw [herror] at hok
        cases hok
  · obtain ⟨blocks, hmachine⟩ := h.pairFrom
    have herror : pair (front ++ m :: rest) = .error error := by
      rw [pair, hmachine, hm.pairFrom, map_error]
    rw [herror]
    exact .misplaced rfl h.extendable (not_extendable_of_misplaced h hm) h hm

end FormLetter
