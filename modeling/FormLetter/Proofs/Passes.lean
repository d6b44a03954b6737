import FormLetter.Proofs.FlatSections

/-!
# Pass after pass

`resolveSections` repeats a pass until no section is left.  This file turns the loop into a
relation and shows that the loop's own guard, the comparison of lengths, never decides anything.

* `flatText_lt_of_pass` — a pass that resolves a section shortens the flat text, since it deletes
  an opening marker.
* `Passes` — the trees that the passes lead to.
* `resolveSections_eq_ok`, `resolveSections_eq_error` — how the loop ends, in terms of `Passes`.
* `LoopEnds` — the loop without any guard, as a relation that a loop without end does not satisfy.
  `resolveSections_finishes` — it holds of every tree, and what it leaves has nothing left to do.
-/

namespace FormLetter

/-! ## A pass shortens the flat text -/

/-- Each text with its separator. -/
def totalLength : List Text → Nat
  | [] => 0
  | t :: rest => t.length + 1 + totalLength rest

lemma totalLength_append : ∀ ts us : List Text,
    totalLength (ts ++ us) = totalLength ts + totalLength us
  | [], us => by rw [List.nil_append, totalLength, Nat.zero_add]
  | t :: rest, us => by
      rw [List.cons_append, totalLength, totalLength, totalLength_append rest us]
      omega

lemma length_joinWith : ∀ {ts : List Text}, ts ≠ [] →
    (Text.joinWith ['\n'] ts).length + 1 = totalLength ts
  | [t], _ => by simp [Text.joinWith, totalLength]
  | t :: next :: rest, _ => by
      have ih := @length_joinWith (next :: rest) (by simp)
      rw [Text.joinWith_cons _ _ (by simp), totalLength, ← ih]
      simp
      omega

section

variable {α : Type} {f g : α → Text} (keep : α → Bool)

lemma totalLength_filter_le : ∀ {l : List α}, (∀ x ∈ l, (f x).length ≤ (g x).length) →
    totalLength ((l.filter keep).map f) ≤ totalLength (l.map g)
  | [], _ => Nat.le_refl 0
  | x :: rest, h => by
      obtain ⟨hx, hrest⟩ := List.forall_mem_cons.mp h
      have ih := totalLength_filter_le hrest
      simp only [List.map_cons, totalLength] at ih ⊢
      cases hk : keep x with
      | false =>
          rw [List.filter_cons_of_neg (by simp [hk])]
          omega
      | true =>
          rw [List.filter_cons_of_pos hk, List.map_cons, totalLength]
          omega

/-- If some text gets shorter, and some texts are dropped, less is left. -/
lemma totalLength_filter_lt : ∀ {l : List α}, (∀ x ∈ l, (f x).length ≤ (g x).length) →
    (∃ x ∈ l, (f x).length < (g x).length) →
    totalLength ((l.filter keep).map f) < totalLength (l.map g)
  | [], _, h => by simp at h
  | x :: rest, h, hlt => by
      obtain ⟨hx, hrest⟩ := List.forall_mem_cons.mp h
      have hle := totalLength_filter_le keep hrest
      have hstrict : (f x).length < (g x).length
          ∨ totalLength ((rest.filter keep).map f) < totalLength (rest.map g) := by
        obtain ⟨y, hy, hyx⟩ := hlt
        rcases List.mem_cons.mp hy with rfl | hmem
        · exact Or.inl hyx
        · exact Or.inr (totalLength_filter_lt hrest ⟨y, hmem, hyx⟩)
      simp only [List.map_cons, totalLength] at hle hstrict ⊢
      cases hk : keep x with
      | false =>
          rw [List.filter_cons_of_neg (by simp [hk])]
          omega
      | true =>
          rw [List.filter_cons_of_pos hk, List.map_cons, totalLength]
          omega

end

/-- The text that rulings leave of a tree. -/
noncomputable def textLeft (tree : Node) (rulings : List Ruling) : Text :=
  Text.joinWith ['\n'] ((survivors tree rulings).map fun p => (p.remainder rulings).content)

lemma flatText_of_leaves {tree next : Node} {rulings : List Ruling}
    (h : next.leaves.map Leaf.node = (survivors tree rulings).map (Passage.remainder rulings)) :
    flatText next = textLeft tree rulings := by
  have := congrArg (List.map Node.content) h
  rw [List.map_map, List.map_map] at this
  rw [flatText_eq, textLeft]
  exact congrArg _ this

/-- A ruling always deletes its opening marker. -/
lemma opening_deleted {tree : Node} {r : Ruling} (h : r.Placed tree) :
    covered r.deleted r.block.opening.start = true := by
  have hopening := h.nonempty _ (opening_mem_occurrences r.block)
  have hord := h.ordered
  rw [Ruling.covered_deleted]
  rcases r with ⟨⟨o, c, alternative, e⟩, holds⟩
  cases holds <;> cases alternative <;> simp [Ruling.stripped, Ruling.lost?] at hopening ⊢
  · simp [Block.occurrences] at hord
    have := e.start_le_stop
    omega
  · simp [Block.occurrences] at hord
    rename_i a
    have := a.start_le_stop
    omega
  · exact Or.inl hopening
  · exact Or.inl hopening

/-- **A pass that resolves a section shortens the flat text.** -/
theorem flatText_lt_of_pass {tree next : Node} {data : Value} {count : Nat}
    (h : resolvePass tree data = .ok (next, count)) (hcount : 0 < count) :
    (flatText next).length < (flatText tree).length := by
  classical
  obtain ⟨rulings, -, hplaced, hlength, rfl⟩ := exists_rulings h hcount
  obtain ⟨r, hr⟩ : ∃ r, r ∈ rulings := List.exists_mem_of_length_pos (by omega)
  have hplace := hplaced r hr
  have hmem := opening_mem_occurrences r.block
  have hhome := hplace.located.home_mem _ hmem
  have hbounds := hplace.bounds hmem
  simp only [Passage.stop] at hbounds
  have hshorter : ∃ p ∈ passages tree,
      (p.remainder rulings).content.length < p.node.content.length := by
    refine ⟨_, hhome, ?_⟩
    rw [Passage.remainder, content_cut]
    refine length_keepOutside_lt (k := r.block.opening.start - (home tree r.block.opening).start)
      (by omega) ?_
    have hcovered := opening_deleted hplace
    rw [covered_eq_true] at hcovered ⊢
    obtain ⟨range, hrange, hlow, hhigh⟩ := hcovered
    -- the marker counts from the start of its passage, as the cut does
    exact ⟨range, List.mem_flatMap.mpr ⟨r, hr, hrange⟩, by omega, by omega⟩
  have hle : ∀ p ∈ passages tree,
      (p.remainder rulings).content.length ≤ p.node.content.length := fun p _ => by
    rw [Passage.remainder, content_cut]
    exact length_keepOutside_le _ _ _
  have htotal := totalLength_filter_lt (fun p => decide (¬ p.Gone tree rulings)) hle hshorter
  have hne : (passages tree).map (·.node.content) ≠ [] := by
    intro hnil
    rw [List.map_eq_nil_iff.mp hnil] at hhome
    simp at hhome
  have hflat : flatText tree = Text.joinWith ['\n'] ((passages tree).map (·.node.content)) := by
    rw [flatText_eq, ← map_toLeaf_passages, List.map_map]
    rfl
  have htree := length_joinWith hne
  rw [flatText_of_leaves (leaves_edit_rulings hplaced), textLeft, hflat]
  by_cases hsurv : (survivors tree rulings).map (fun p => (p.remainder rulings).content) = []
  · have hpos : 2 ≤ totalLength ((passages tree).map (·.node.content)) := by
      obtain ⟨before, after, hsplit⟩ := List.append_of_mem hhome
      rw [hsplit, List.map_append, List.map_cons, totalLength_append, totalLength]
      omega
    rw [hsurv]
    simp only [Text.joinWith, List.length_nil]
    omega
  · have hnext := length_joinWith hsurv
    rw [survivors] at hnext ⊢
    omega

/-! ## The end of the passes -/

lemma pairFrom_ne_nil {stack : List OpenBlock} {ms : List Marker} (hs : stack ≠ []) :
    pairFrom stack ms ≠ .ok [] := by
  fun_induction pairFrom stack ms with
  | case1 stack hlast => exact absurd (List.getLast?_eq_none_iff.mp hlast) hs
  | case2 stack outermost hlast => simp
  | case3 stack here condition rest ih => exact ih (by simp)
  | case4 here rest => simp
  | case5 block stack here rest alternative halt => simp
  | case6 block stack here rest halt ih => exact ih (by simp)
  | case7 here rest => simp
  | case8 block here rest ih => cases pairFrom [] rest <;> simp
  | case9 inner outer stack here rest ih => exact ih (by simp)

/-- Markers that pair to no section are no markers. -/
lemma eq_nil_of_pair_nil {ms : List Marker} (h : pair ms = .ok []) : ms = [] := by
  cases ms with
  | nil => rfl
  | cons m rest =>
      cases m with
      | opening here condition =>
          rw [pair, pairFrom] at h
          exact absurd h (pairFrom_ne_nil (by simp))
      | alternative here => simp [pair, pairFrom] at h
      | closing here => simp [pair, pairFrom] at h

/-- A pass resolves nothing exactly if there is nothing to resolve. -/
lemma resolvePass_eq_zero {tree next : Node} {data : Value} :
    resolvePass tree data = .ok (next, 0) ↔ next = tree ∧ markers (flatText tree) = [] := by
  rw [resolvePass]
  constructor
  · intro h
    split at h
    · next hnone =>
        obtain ⟨rfl, -⟩ := Prod.mk.inj (Except.ok.inj h)
        exact ⟨rfl, List.isEmpty_iff.mp hnone⟩
    · next hsome =>
        obtain ⟨blocks, hblocks, h⟩ := bind_eq_ok.mp h
        obtain ⟨es, -, h⟩ := bind_eq_ok.mp h
        rw [mapError_eq_ok] at hblocks
        have hzero : blocks = [] := List.length_eq_zero_iff.mp (Prod.mk.inj (Except.ok.inj h)).2
        exact absurd (eq_nil_of_pair_nil (hzero ▸ hblocks)) (by simpa using hsome)
  · rintro ⟨rfl, hnone⟩
    simp [hnone]

/-- The trees that passes lead to, the first one included. -/
inductive Passes (data : Value) : Node → Node → Prop
  | start (tree : Node) : Passes data tree tree
  | pass {tree next last : Node} {count : Nat} (h : resolvePass tree data = .ok (next, count))
      (hcount : 0 < count) (rest : Passes data next last) : Passes data tree last

/-- The loop over the passes without its guard, which never decides anything. -/
theorem resolveSections_eq (tree : Node) (data : Value) :
    resolveSections tree data
      = match resolvePass tree data with
        | .error cause => .error cause
        | .ok (next, 0) => .ok next
        | .ok (next, _ + 1) => resolveSections next data := by
  rw [resolveSections]
  cases h : resolvePass tree data with
  | error cause => rfl
  | ok result =>
      obtain ⟨next, count⟩ := result
      cases count with
      | zero => simp
      | succ count => simp [flatText_lt_of_pass h (Nat.succ_pos count)]

/-- **The passes succeed** with the tree that they lead to and that has no marker left. -/
theorem resolveSections_eq_ok {tree last : Node} {data : Value} :
    resolveSections tree data = .ok last ↔
      Passes data tree last ∧ markers (flatText last) = [] := by
  constructor
  · -- every pass shortens the flat text
    induction hn : (flatText tree).length using Nat.strongRecOn generalizing tree with
    | ind n ih =>
        intro h
        rw [resolveSections_eq] at h
        split at h
        · simp at h
        · next next hpass =>
            obtain ⟨rfl, hnone⟩ := resolvePass_eq_zero.mp hpass
            obtain rfl := Except.ok.inj h
            exact ⟨.start _, hnone⟩
        · next next count hpass =>
            have hlt := flatText_lt_of_pass hpass (Nat.succ_pos count)
            obtain ⟨hrest, hnone⟩ := ih _ (hn ▸ hlt) rfl h
            exact ⟨.pass hpass (Nat.succ_pos count) hrest, hnone⟩
  · rintro ⟨hpasses, hnone⟩
    induction hpasses with
    | start tree =>
        have hzero : resolvePass tree data = .ok (tree, 0) := resolvePass_eq_zero.mpr ⟨rfl, hnone⟩
        rw [resolveSections_eq, hzero]
    | @pass tree next last count hpass hcount hrest ih =>
        obtain ⟨k, rfl⟩ := Nat.exists_eq_add_one_of_ne_zero (Nat.ne_of_gt hcount)
        rw [resolveSections_eq, hpass]
        exact ih hnone

/-- **The passes fail** with the failure of the first pass that fails. -/
theorem resolveSections_eq_error {tree : Node} {data : Value} {cause : Cause} :
    resolveSections tree data = .error cause ↔
      ∃ last, Passes data tree last ∧ resolvePass last data = .error cause := by
  constructor
  · induction hn : (flatText tree).length using Nat.strongRecOn generalizing tree with
    | ind n ih =>
        intro h
        rw [resolveSections_eq] at h
        split at h
        · next hpass =>
            obtain rfl := Except.error.inj h
            exact ⟨tree, .start tree, hpass⟩
        · simp at h
        · next next count hpass =>
            have hlt := flatText_lt_of_pass hpass (Nat.succ_pos count)
            obtain ⟨last, hrest, hlast⟩ := ih _ (hn ▸ hlt) rfl h
            exact ⟨last, .pass hpass (Nat.succ_pos count) hrest, hlast⟩
  · rintro ⟨last, hpasses, hlast⟩
    induction hpasses with
    | start tree => rw [resolveSections_eq, hlast]
    | @pass tree next last count hpass hcount hrest ih =>
        obtain ⟨k, rfl⟩ := Nat.exists_eq_add_one_of_ne_zero (Nat.ne_of_gt hcount)
        rw [resolveSections_eq, hpass]
        exact ih hlast

/-! ## The loop ends, and its work is done -/

/-- What the loop over the passes comes to from a tree, if it is run without a guard: a pass that
fails ends it, a pass that resolves nothing ends it, and after any other pass it goes on from the
tree of that pass. -/
inductive LoopEnds (data : Value) : Node → Except Cause Node → Prop
  | failed {tree : Node} {cause : Cause} (h : resolvePass tree data = .error cause) :
      LoopEnds data tree (.error cause)
  | finished {tree last : Node} (h : resolvePass tree data = .ok (last, 0)) :
      LoopEnds data tree (.ok last)
  | again {tree next : Node} {count : Nat} {outcome : Except Cause Node}
      (h : resolvePass tree data = .ok (next, count)) (hcount : 0 < count)
      (rest : LoopEnds data next outcome) : LoopEnds data tree outcome

/-- The loop ends from every tree, since no pass can be followed by another for ever. -/
theorem loopEnds_resolveSections (tree : Node) (data : Value) :
    LoopEnds data tree (resolveSections tree data) := by
  induction hn : (flatText tree).length using Nat.strongRecOn generalizing tree with
  | ind n ih =>
      rw [resolveSections_eq]
      split
      · next cause hpass => exact .failed hpass
      · next next hpass => exact .finished hpass
      · next next count hpass =>
          have hlt := flatText_lt_of_pass hpass (Nat.succ_pos count)
          exact .again hpass (Nat.succ_pos count) (ih _ (hn ▸ hlt) next rfl)

/-- What the loop comes to is determined. -/
lemma LoopEnds.eq {tree : Node} {data : Value} {outcome : Except Cause Node}
    (h : LoopEnds data tree outcome) : outcome = resolveSections tree data := by
  induction h with
  | failed h => rw [resolveSections_eq, h]
  | finished h => rw [resolveSections_eq, h]
  | again h hcount _ ih =>
      obtain ⟨k, rfl⟩ := Nat.exists_eq_add_one_of_ne_zero (Nat.ne_of_gt hcount)
      rw [resolveSections_eq, h, ih]

/-- A tree without markers is left as it is. -/
lemma resolveSections_of_no_markers {tree : Node} (h : markers (flatText tree) = [])
    (data : Value) : resolveSections tree data = .ok tree :=
  resolveSections_eq_ok.mpr ⟨.start tree, h⟩

/-- **Resolving sections ends and finishes its job.**  Every pass that resolves a section shortens
the flat text, whatever new markers the deletions bring together; so the loop over the passes ends,
with the outcome of `resolveSections`.  A tree that it returns has no marker in its flat text, and
resolving its sections again, with these data or any other, returns it unchanged. -/
theorem resolveSections_finishes (tree : Node) (data : Value) :
    (∀ next count, resolvePass tree data = .ok (next, count) → 0 < count →
        (flatText next).length < (flatText tree).length)
      ∧ (∀ outcome, LoopEnds data tree outcome ↔ outcome = resolveSections tree data)
      ∧ ∀ last, resolveSections tree data = .ok last →
        markers (flatText last) = [] ∧ ∀ other, resolveSections last other = .ok last := by
  refine ⟨fun next count => flatText_lt_of_pass, ?_, ?_⟩
  · intro outcome
    constructor
    · exact LoopEnds.eq
    · rintro rfl
      exact loopEnds_resolveSections tree data
  · intro last h
    obtain ⟨-, hnone⟩ := resolveSections_eq_ok.mp h
    exact ⟨hnone, resolveSections_of_no_markers hnone⟩

/-- The first pass takes out two sections, and what stood around them joins to a third. -/
theorem resolveSections_finishes_rejoined :
    let tree := plainBody ["@if:@if:a@@endif@b@ x @@if:a@@endif@endif@"]
    let next := plainBody ["@if:b@ x @endif@"]
    let last := plainBody [" x "]
    let data := flags [("a", true), ("b", true)]
    resolvePass tree data = .ok (next, 2) ∧ resolvePass next data = .ok (last, 1)
      ∧ (flatText next).length < (flatText tree).length
      ∧ resolveSections tree data = .ok last
      ∧ LoopEnds data tree (.ok last)
      ∧ markers (flatText last) = [] ∧ ∀ other, resolveSections last other = .ok last := by
  intro tree next last data
  have hfirst : resolvePass tree data = .ok (next, 2) := by decide +kernel
  have hsecond : resolvePass next data = .ok (last, 1) := by decide +kernel
  have hresult : resolveSections tree data = .ok last := by decide +kernel
  obtain ⟨hshorter, hends, hdone⟩ := resolveSections_finishes tree data
  have hlast : LoopEnds data tree (.ok last) := (hends _).mpr hresult.symm
  exact ⟨hfirst, hsecond, hshorter next 2 hfirst (by decide), hresult, hlast, hdone last hresult⟩

end FormLetter
