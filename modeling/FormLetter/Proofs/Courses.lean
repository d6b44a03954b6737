import FormLetter.Proofs.Planning

/-!
# From one pass to all passes

What one pass does is said part by part; this file puts the passes together.

* `truth`, `Decided` — what the data says about conditions.
* `Course` — a family of trees that passes lead through.  Each of its states has a tree, the state
  after one pass, and a meaning that the pass does not change.
* `Course.still` — the course of a tree without sections.
* **Passes compute the meaning.** `Course.resolveSections_ok` — if all conditions that the meaning
  depends on can be evaluated, resolving the sections gives the meaning;
  `Course.resolveSections_error` — otherwise it fails with one that cannot.
-/

namespace FormLetter

/-! ## Conditions -/

/-- Whether a condition holds; one that cannot be evaluated does not. -/
def truth (data : Value) (path : Path) : Bool :=
  match isTruthy data path with
  | .ok b => b
  | .error _ => false

/-- Whether a condition can be evaluated. -/
def Decided (data : Value) (path : Path) : Prop := ∃ b, isTruthy data path = .ok b

instance (data : Value) (path : Path) : Decidable (Decided data path) :=
  match h : isTruthy data path with
  | .ok b => .isTrue ⟨b, h⟩
  | .error _ => .isFalse fun ⟨b, hb⟩ => by simp [hb] at h

lemma isTruthy_of_decided {data : Value} {path : Path} (h : Decided data path) :
    isTruthy data path = .ok (truth data path) := by
  obtain ⟨b, hb⟩ := h
  rw [truth, hb]

lemma exists_reason {data : Value} {path : Path} (h : ¬ Decided data path) :
    ∃ reason, isTruthy data path = .error reason := by
  cases hb : isTruthy data path with
  | ok b => exact absurd ⟨b, hb⟩ h
  | error reason => exact ⟨reason, rfl⟩

/-! ## Courses -/

lemma flatText_text (value : Text) : flatText (.text value) = value := by
  cases value with
  | nil => rfl
  | cons c t => rfl

/-- A family of trees that passes lead through, for given truth values of the conditions. -/
structure Course (holds : Path → Bool) (σ : Type) where
  tree : σ → Node
  /-- The state after one pass. -/
  next : σ → σ
  /-- What the tree means. -/
  result : σ → Node
  /-- The conditions of the outermost sections. -/
  front : σ → List Path
  /-- The conditions that the meaning depends on. -/
  reached : σ → List Path
  settled : ∀ s, ∃ rulings, Settles (tree s) holds rulings (tree (next s))
    ∧ rulings.map (·.block.condition) = (front s).map .ofPath
  result_next : ∀ s, result (next s) = result s
  mem_reached : ∀ s path, path ∈ reached s ↔ path ∈ front s ∨ path ∈ reached (next s)
  finished : ∀ s, front s = [] → result s = tree s ∧ reached s = []

namespace Course

/-- A tree without markers: there is nothing to do. -/
def still {tree : Node} (h : markers (flatText tree) = []) (holds : Path → Bool) :
    Course holds Unit where
  tree _ := tree
  next := id
  result _ := tree
  front _ := []
  reached _ := []
  settled _ := ⟨[], ⟨h ▸ .nil, by simp, by simp, edit_nil tree⟩, rfl⟩
  result_next _ := rfl
  mem_reached _ _ := by simp
  finished _ _ := ⟨rfl, rfl⟩

variable {σ : Type} {data : Value} (c : Course (truth data) σ)

/-- One pass, if the conditions of the outermost sections can be evaluated. -/
lemma resolvePass_ok (s : σ) (h : ∀ path ∈ c.front s, Decided data path) :
    resolvePass (c.tree s) data = .ok (c.tree (c.next s), (c.front s).length) := by
  obtain ⟨rulings, hsettles, hfront⟩ := c.settled s
  have hlength := congrArg List.length hfront
  rw [List.length_map, List.length_map] at hlength
  rw [← hlength]
  refine hsettles.resolvePass fun r hr => isTruthy_of_decided (h _ ?_)
  have hmem : r.block.condition ∈ (c.front s).map Condition.ofPath := by
    rw [← hfront]
    exact List.mem_map_of_mem hr
  obtain ⟨path, hpath, heq⟩ := List.mem_map.mp hmem
  rw [← heq]
  exact hpath

/-- One pass, if some condition of an outermost section cannot be evaluated. -/
lemma resolvePass_error (s : σ) (h : ∃ path ∈ c.front s, ¬ Decided data path) :
    ∃ path ∈ c.front s, ∃ reason, isTruthy data path = .error reason
      ∧ resolvePass (c.tree s) data = .error (.ofReason (.ofPath path) reason) := by
  obtain ⟨rulings, hsettles, hfront⟩ := c.settled s
  have hmem : ∀ {condition}, condition ∈ (c.front s).map Condition.ofPath
      ↔ ∃ r ∈ rulings, r.block.condition = condition := fun {condition} => by
    rw [← hfront, List.mem_map]
  obtain ⟨path, hpath, hundecided⟩ := h
  obtain ⟨reason, hreason⟩ := exists_reason hundecided
  obtain ⟨r, hr, hcondition⟩ := hmem.mp (List.mem_map_of_mem hpath)
  obtain ⟨first, hfirst, why, hwhy, herror⟩ := hsettles.resolvePass_error
    ⟨r, hr, reason, by rwa [hcondition]⟩
  obtain ⟨other, hother, heq⟩ := List.mem_map.mp (hmem.mpr ⟨first, hfirst, rfl⟩)
  rw [← heq] at hwhy herror
  exact ⟨other, hother, why, hwhy, herror⟩

/-- **Resolving the sections computes the meaning,** if all conditions that it depends on can be
evaluated. -/
theorem resolveSections_ok (s : σ) (h : ∀ path ∈ c.reached s, Decided data path) :
    resolveSections (c.tree s) data = .ok (c.result s) := by
  -- every pass that resolves a section shortens the flat text
  induction hn : (flatText (c.tree s)).length using Nat.strongRecOn generalizing s with
  | ind n ih =>
      have hpass := c.resolvePass_ok s fun path hpath =>
        h path ((c.mem_reached s path).mpr (Or.inl hpath))
      rw [resolveSections_eq]
      cases hfront : c.front s with
      | nil =>
          rw [hfront, List.length_nil] at hpass
          rw [hpass, (resolvePass_eq_zero.mp hpass).1, (c.finished s hfront).1]
      | cons path rest =>
          rw [hfront, List.length_cons] at hpass
          have hlt := flatText_lt_of_pass hpass (Nat.succ_pos _)
          rw [hpass, ← c.result_next]
          exact ih _ (hn ▸ hlt) (c.next s)
            (fun path hpath => h path ((c.mem_reached s path).mpr (Or.inr hpath))) rfl

/-- **If a condition that the meaning depends on cannot be evaluated,** resolving the sections fails
with such a condition. -/
theorem resolveSections_error (s : σ) (h : ∃ path ∈ c.reached s, ¬ Decided data path) :
    ∃ path ∈ c.reached s, ∃ reason, isTruthy data path = .error reason
      ∧ resolveSections (c.tree s) data = .error (.ofReason (.ofPath path) reason) := by
  induction hn : (flatText (c.tree s)).length using Nat.strongRecOn generalizing s with
  | ind n ih =>
      by_cases hfront : ∃ path ∈ c.front s, ¬ Decided data path
      · obtain ⟨path, hpath, reason, hreason, herror⟩ := c.resolvePass_error s hfront
        refine ⟨path, (c.mem_reached s path).mpr (Or.inl hpath), reason, hreason, ?_⟩
        rw [resolveSections_eq, herror]
      · have hdecided : ∀ path ∈ c.front s, Decided data path := fun path hpath => by
          by_contra hnot
          exact hfront ⟨path, hpath, hnot⟩
        have hpass := c.resolvePass_ok s hdecided
        -- what fails is reached in a later pass, so this pass has resolved a section
        obtain ⟨path, hpath, hundecided⟩ := h
        have hlater : path ∈ c.reached (c.next s) :=
          ((c.mem_reached s path).mp hpath).resolve_left fun hin =>
            hundecided (hdecided path hin)
        cases hnone : c.front s with
        | nil =>
            rw [(c.finished s hnone).2] at hpath
            exact absurd hpath List.not_mem_nil
        | cons head tail =>
            rw [hnone, List.length_cons] at hpass
            have hlt := flatText_lt_of_pass hpass (Nat.succ_pos _)
            obtain ⟨first, hfirst, reason, hreason, herror⟩ :=
              ih _ (hn ▸ hlt) (c.next s) ⟨path, hlater, hundecided⟩ rfl
            refine ⟨first, (c.mem_reached s first).mpr (Or.inr hfirst), reason, hreason, ?_⟩
            rw [resolveSections_eq, hpass]
            exact herror

end Course

end FormLetter
