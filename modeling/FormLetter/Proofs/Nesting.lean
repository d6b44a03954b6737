import FormLetter.Markup.Pairing
import FormLetter.Proofs.Outcomes

/-!
# The grammar of sections

Pairing is a machine with a stack.  What it accepts has a simpler description: sections stand side
by side, and the branches of each hold sections again.

* `Nested` — this grammar, with the outermost sections that a sequence of markers spells.
* `pairFrom_append` — the machine passes over whole sections inside an open one without a trace.
* `exists_closing` — where the machine succeeds from a stack, the markers run to the end of the
  innermost open section, and it goes on from there.
* `pair_eq_ok_iff` — so pairing succeeds exactly on the sequences of the grammar, and returns the
  outermost sections.
* `Balanced` — the same grammar for what markers say, without their positions.  These play no part in
  it (`Nested.congr`).
-/

namespace FormLetter

/-- **The markers spell sections side by side,** each with whole sections inside its branches; the
blocks are the outermost ones, in order. -/
inductive Nested : List Marker → List Block → Prop
  | nil : Nested [] []
  /-- A section of one branch. -/
  | plain {opening closing : Occurrence} {condition : Condition} {inner rest : List Marker}
      {inside after : List Block} (hinner : Nested inner inside) (hrest : Nested rest after) :
      Nested (.opening opening condition :: (inner ++ .closing closing :: rest))
        (⟨opening, condition, none, closing⟩ :: after)
  /-- A section of two branches. -/
  | divided {opening middle closing : Occurrence} {condition : Condition}
      {first second rest : List Marker} {inside inside' after : List Block}
      (hfirst : Nested first inside) (hsecond : Nested second inside') (hrest : Nested rest after) :
      Nested (.opening opening condition
          :: (first ++ .alternative middle :: (second ++ .closing closing :: rest)))
        (⟨opening, condition, some middle, closing⟩ :: after)

lemma Nested.append {ms ns : List Marker} {blocks others : List Block} (h : Nested ms blocks)
    (h' : Nested ns others) : Nested (ms ++ ns) (blocks ++ others) := by
  induction h with
  | nil => exact h'
  | plain hinner hrest _ ih =>
      simp only [List.cons_append, List.append_assoc]
      exact .plain hinner ih
  | divided hfirst hsecond hrest _ _ ih =>
      simp only [List.cons_append, List.append_assoc]
      exact .divided hfirst hsecond ih

/-! ## What the machine accepts -/

/-- Inside an open section, whole sections leave the stack as they found it. -/
lemma pairFrom_append {ms : List Marker} {blocks : List Block} (h : Nested ms blocks)
    (outer : OpenBlock) (stack : List OpenBlock) (rest : List Marker) :
    pairFrom (outer :: stack) (ms ++ rest) = pairFrom (outer :: stack) rest := by
  induction h generalizing outer stack rest with
  | nil => rfl
  | plain _ _ ihinner ihrest =>
      simp only [List.cons_append, List.append_assoc]
      rw [pairFrom, ihinner, pairFrom, ihrest]
  | divided _ _ _ ihfirst ihsecond ihrest =>
      simp only [List.cons_append, List.append_assoc]
      rw [pairFrom, ihfirst, pairFrom]
      simp only
      rw [ihsecond, pairFrom, ihrest]

/-- Outside all sections, whole sections are passed over and returned. -/
lemma pairFrom_nil_append {ms : List Marker} {blocks : List Block} (h : Nested ms blocks)
    (rest : List Marker) : pairFrom [] (ms ++ rest) = (pairFrom [] rest).map (blocks ++ ·) := by
  induction h with
  | nil => cases hrest : pairFrom [] rest <;> simp [hrest]
  | plain hinner _ _ ih =>
      simp only [List.cons_append, List.append_assoc]
      rw [pairFrom, pairFrom_append hinner, pairFrom, ih]
      cases pairFrom [] rest <;> rfl
  | divided hfirst hsecond _ _ _ ih =>
      simp only [List.cons_append, List.append_assoc]
      rw [pairFrom, pairFrom_append hfirst, pairFrom]
      simp only
      rw [pairFrom_append hsecond, pairFrom, ih]
      cases pairFrom [] rest <;> rfl

lemma pair_of_nested {ms : List Marker} {blocks : List Block} (h : Nested ms blocks) :
    pair ms = .ok blocks := by
  have hall := pairFrom_nil_append h []
  rwa [List.append_nil, show pairFrom [] [] = .ok [] from rfl, map_ok, List.append_nil] at hall

/-! ## What the machine has read -/

/-- The markers lead from an open section to its end, where it has this alternative: whole sections,
and at most one alternative marker among them. -/
inductive OpenBlock.Continues (block : OpenBlock) : List Marker → Option Occurrence → Prop
  | plain {ms : List Marker} {inside : List Block} (h : Nested ms inside) :
      block.Continues ms block.alternative
  | divided {middle : Occurrence} {first second : List Marker} {inside inside' : List Block}
      (hnone : block.alternative = none) (hfirst : Nested first inside)
      (hsecond : Nested second inside') :
      block.Continues (first ++ .alternative middle :: second) (some middle)

/-- A section on its own, from its opening to its closing marker. -/
lemma OpenBlock.Continues.nested {opening closing : Occurrence} {condition : Condition}
    {body rest : List Marker} {alternative : Option Occurrence} {after : List Block}
    (h : OpenBlock.Continues ⟨opening, condition, none⟩ body alternative)
    (hrest : Nested rest after) :
    Nested (.opening opening condition :: (body ++ .closing closing :: rest))
      (⟨opening, condition, alternative, closing⟩ :: after) := by
  cases h with
  | plain h => exact .plain h hrest
  | divided _ hfirst hsecond =>
      rw [List.append_assoc, List.cons_append]
      exact .divided hfirst hsecond hrest

/-- Sections may precede what leads to the end of an open one. -/
lemma OpenBlock.Continues.prepend {block : OpenBlock} {front body : List Marker}
    {alternative : Option Occurrence} {inside : List Block} (hfront : Nested front inside)
    (h : block.Continues body alternative) : block.Continues (front ++ body) alternative := by
  cases h with
  | plain h => exact .plain (hfront.append h)
  | divided hnone hfirst hsecond =>
      rw [← List.append_assoc]
      exact .divided hnone (hfront.append hfirst) hsecond

/-- **From a stack, the machine succeeds only by way of the end of the innermost section.** -/
theorem exists_closing {block : OpenBlock} {stack : List OpenBlock} {ms : List Marker}
    {blocks : List Block} (h : pairFrom (block :: stack) ms = .ok blocks) :
    ∃ body alternative closing rest, ms = body ++ .closing closing :: rest
      ∧ block.Continues body alternative
      ∧ pairFrom (⟨block.opening, block.condition, alternative⟩ :: stack)
          (.closing closing :: rest) = .ok blocks := by
  -- an opening marker needs the statement twice, so the induction is on the number of markers
  induction hn : ms.length using Nat.strongRecOn generalizing block stack ms with
  | ind n ih =>
      match ms with
      | [] =>
          rw [pairFrom] at h
          split at h
          · next hlast => simp at hlast
          · simp at h
      | .opening here condition :: rest =>
          rw [pairFrom] at h
          have hlen : rest.length < n := by simp [← hn]
          obtain ⟨inner, alternative, closing, tail, rfl, hinner, h⟩ := ih _ hlen h rfl
          -- the inner section is closed, and the outer one goes on behind it
          rw [pairFrom] at h
          have hlen' : tail.length < n := by
            simp at hlen
            omega
          obtain ⟨body, other, last, tail', rfl, hbody, h⟩ := ih _ hlen' h rfl
          have hfront : Nested (.opening here condition :: (inner ++ [.closing closing]))
              [⟨here, condition, alternative, closing⟩] := hinner.nested .nil
          exact ⟨_, other, last, tail', by simp, hbody.prepend hfront, h⟩
      | .alternative here :: rest =>
          rw [pairFrom] at h
          split at h
          · simp at h
          · next hnone =>
              have hlen : rest.length < n := by simp [← hn]
              obtain ⟨body, alternative, closing, tail, rfl, hbody, h⟩ := ih _ hlen h rfl
              cases hbody with
              | plain hbody =>
                  exact ⟨_, _, closing, tail, rfl, .divided hnone .nil hbody, h⟩
              | divided hsome _ _ => simp at hsome
      | .closing here :: rest => exact ⟨[], _, here, rest, rfl, .plain .nil, h⟩

lemma nested_of_pair {ms : List Marker} {blocks : List Block} (h : pair ms = .ok blocks) :
    Nested ms blocks := by
  rw [pair] at h
  induction hn : ms.length using Nat.strongRecOn generalizing ms blocks with
  | ind n ih =>
      match ms with
      | [] =>
          obtain rfl : [] = blocks := by simpa [pairFrom] using h
          exact .nil
      | .opening here condition :: rest =>
          rw [pairFrom] at h
          obtain ⟨body, alternative, closing, tail, rfl, hbody, h⟩ := exists_closing h
          rw [pairFrom] at h
          obtain ⟨after, hafter, rfl⟩ := map_eq_ok.mp h
          have hlen : tail.length < n := by
            simp at hn
            omega
          exact hbody.nested (ih _ hlen hafter rfl)
      | .alternative here :: rest => simp [pairFrom] at h
      | .closing here :: rest => simp [pairFrom] at h

/-- **Pairing accepts the grammar of sections** and returns the outermost ones. -/
theorem pair_eq_ok_iff {ms : List Marker} {blocks : List Block} :
    pair ms = .ok blocks ↔ Nested ms blocks :=
  ⟨nested_of_pair, pair_of_nested⟩

/-! ## Positions play no part -/

/-- What a marker says, wherever it stands. -/
def Marker.meaning : Marker → Meaning
  | .opening _ condition => .opening condition.path
  | .alternative _ => .alternative
  | .closing _ => .closing

lemma map_meaning_eq_opening {ns : List Marker} {path : Path} {rest : List Meaning}
    (h : ns.map Marker.meaning = .opening path :: rest) :
    ∃ here condition tail,
      ns = .opening here condition :: tail ∧ tail.map Marker.meaning = rest := by
  obtain ⟨m, tail, rfl, hm, htail⟩ := List.map_eq_cons_iff.mp h
  cases m with
  | opening here condition => exact ⟨here, condition, tail, rfl, htail⟩
  | alternative here => simp [Marker.meaning] at hm
  | closing here => simp [Marker.meaning] at hm

lemma map_meaning_eq_alternative {ns : List Marker} {rest : List Meaning}
    (h : ns.map Marker.meaning = .alternative :: rest) :
    ∃ here tail, ns = .alternative here :: tail ∧ tail.map Marker.meaning = rest := by
  obtain ⟨m, tail, rfl, hm, htail⟩ := List.map_eq_cons_iff.mp h
  cases m with
  | opening here condition => simp [Marker.meaning] at hm
  | alternative here => exact ⟨here, tail, rfl, htail⟩
  | closing here => simp [Marker.meaning] at hm

lemma map_meaning_eq_closing {ns : List Marker} {rest : List Meaning}
    (h : ns.map Marker.meaning = .closing :: rest) :
    ∃ here tail, ns = .closing here :: tail ∧ tail.map Marker.meaning = rest := by
  obtain ⟨m, tail, rfl, hm, htail⟩ := List.map_eq_cons_iff.mp h
  cases m with
  | opening here condition => simp [Marker.meaning] at hm
  | alternative here => simp [Marker.meaning] at hm
  | closing here => exact ⟨here, tail, rfl, htail⟩

/-- **The grammar of sections for what markers say:** a word is empty, or it begins with a section,
whose branches are words again, and goes on with a word. -/
inductive Balanced : List Meaning → Prop
  | nil : Balanced []
  | plain {path : Path} {inner rest : List Meaning} (hinner : Balanced inner)
      (hrest : Balanced rest) : Balanced (.opening path :: (inner ++ .closing :: rest))
  | divided {path : Path} {first second rest : List Meaning} (hfirst : Balanced first)
      (hsecond : Balanced second) (hrest : Balanced rest) :
      Balanced (.opening path :: (first ++ .alternative :: (second ++ .closing :: rest)))

lemma Nested.balanced {ms : List Marker} {blocks : List Block} (h : Nested ms blocks) :
    Balanced (ms.map Marker.meaning) := by
  induction h with
  | nil => exact .nil
  | plain _ _ ihinner ihrest =>
      simp only [List.map_cons, List.map_append]
      exact .plain ihinner ihrest
  | divided _ _ _ ihfirst ihsecond ihrest =>
      simp only [List.map_cons, List.map_append]
      exact .divided ihfirst ihsecond ihrest

/-- Markers that say a word of the grammar spell sections, wherever they stand. -/
lemma Balanced.nested {word : List Meaning} (h : Balanced word) {ns : List Marker}
    (hsame : ns.map Marker.meaning = word) : ∃ blocks, Nested ns blocks := by
  induction h generalizing ns with
  | nil =>
      rw [List.map_eq_nil_iff] at hsame
      exact ⟨[], hsame ▸ .nil⟩
  | plain _ _ ihinner ihrest =>
      obtain ⟨opening, condition, tail, rfl, htail⟩ := map_meaning_eq_opening hsame
      obtain ⟨inner, others, rfl, hinner, hothers⟩ := List.map_eq_append_iff.mp htail
      obtain ⟨closing, rest, rfl, hrest⟩ := map_meaning_eq_closing hothers
      obtain ⟨inside, hinner⟩ := ihinner hinner
      obtain ⟨after, hrest⟩ := ihrest hrest
      exact ⟨_, .plain hinner hrest⟩
  | divided _ _ _ ihfirst ihsecond ihrest =>
      -- the sequence is taken apart at its opening, alternative and closing marker in turn
      obtain ⟨opening, condition, tail, rfl, htail⟩ := map_meaning_eq_opening hsame
      obtain ⟨first, others, rfl, hfirst, hothers⟩ := List.map_eq_append_iff.mp htail
      obtain ⟨middle, behind, rfl, hbehind⟩ := map_meaning_eq_alternative hothers
      obtain ⟨second, last, rfl, hsecond, hlast⟩ := List.map_eq_append_iff.mp hbehind
      obtain ⟨closing, rest, rfl, hrest⟩ := map_meaning_eq_closing hlast
      obtain ⟨_, hfirst⟩ := ihfirst hfirst
      obtain ⟨_, hsecond⟩ := ihsecond hsecond
      obtain ⟨after, hrest⟩ := ihrest hrest
      exact ⟨_, .divided hfirst hsecond hrest⟩

/-- **Whether markers nest depends on what they say only.** -/
theorem Nested.congr {ms ns : List Marker} {blocks : List Block} (h : Nested ms blocks)
    (hsame : ns.map Marker.meaning = ms.map Marker.meaning) : ∃ others, Nested ns others :=
  h.balanced.nested hsame

end FormLetter
