import FormLetter.Merge.Render
import FormLetter.Proofs.Moving
import FormLetter.Proofs.SimpleRuns

/-!
# Parts of a document render on their own

Markers are paired on one text for the whole document, rows are counted and placeholders collected
over the whole tree, and the number of passes is that of the part that needs most of them.  Still the
children of a root render independently: two rows of them, one behind the other, render to what
either renders to.

* **Sections.** `resolvePass_append` — a pass over both rows is a pass over either, since the second
  one merely stands further on.  `resolveSections_append` — so are all passes, where a row that is
  finished waits for the other.
* **Tables.** `expandTables_append` — rows of a table never look beyond the table.
* **Placeholders.** `fillTree_append` — failures are those of the first row, then those of the second.
* `renderTree_append` — all together.
-/

namespace FormLetter

variable {tag : StartTag} {data : Value}

/-! ## Sections -/

section

variable (htag : tag.name ≠ Word.paragraph) (nodes others : List Node)

include htag

lemma hosts_front :
    Hosts (.element tag (nodes ++ others)) (.element tag nodes) Spot.root.index
      Spot.root.start := by
  intro p hp
  have hself : p.moved 0 0 = p := by
    obtain ⟨⟨place, node⟩, start⟩ := p
    cases place <;> simp [Passage.moved, Leaf.moved, Place.moved]
  rw [Spot.root, hself, ← Spot.passages_root htag, Spot.passages_append, Spot.passages_root htag]
  exact List.mem_append_left _ hp

lemma hosts_rear :
    Hosts (.element tag (nodes ++ others)) (.element tag others) (Spot.root.after nodes).index
      (Spot.root.after nodes).start := by
  intro p hp
  rw [← Spot.passages_root htag] at hp
  rw [← Spot.passages_root htag, Spot.passages_append]
  refine List.mem_append_right _ ?_
  have hmoved := Spot.passages_moved (Spot.root.after nodes).index (Spot.root.after nodes).start
    others
  exact hmoved ▸ List.mem_map_of_mem hp

end

/-- **A pass over two rows of children is a pass over either of them.** -/
theorem resolvePass_append (htag : tag.name ≠ Word.paragraph) {nodes others : List Node}
    {next next' : Node} {count count' : Nat}
    (h : resolvePass (.element tag nodes) data = .ok (next, count))
    (h' : resolvePass (.element tag others) data = .ok (next', count')) :
    ∃ left right : List Node, next = .element tag left ∧ next' = .element tag right
      ∧ resolvePass (.element tag (nodes ++ others)) data
        = .ok (.element tag (left ++ right), count + count') := by
  obtain ⟨left, rulings, rfl, rfl, hplan, hdecided⟩ :=
    (hosts_front htag nodes others).plan_of_pass htag h
  obtain ⟨right, rulings', rfl, rfl, hplan', hdecided'⟩ :=
    (hosts_rear htag nodes others).plan_of_pass htag h'
  refine ⟨left, right, rfl, rfl, ?_⟩
  have hsettles := (Spot.Plan.append (s := Spot.root) hplan hplan').settles htag
  rw [← List.length_append]
  refine hsettles.resolvePass fun r hr => ?_
  rw [← hsettles.decided r hr]
  exact (List.mem_append.mp hr).elim (hdecided r) (hdecided' r)

/-- Resolving sections starts with a pass, which either finds nothing to do or goes on from what it
leaves. -/
lemma exists_first_pass {tree last : Node} (h : resolveSections tree data = .ok last) :
    ∃ next count, resolvePass tree data = .ok (next, count)
      ∧ resolveSections next data = .ok last ∧ (count = 0 → next = tree ∧ last = tree) := by
  have hloop := h
  rw [resolveSections_eq] at hloop
  split at hloop
  · simp at hloop
  · next next hpass =>
      obtain ⟨rfl, -⟩ := resolvePass_eq_zero.mp hpass
      exact ⟨_, 0, hpass, h, fun _ => ⟨rfl, (Except.ok.inj hloop).symm⟩⟩
  · next next count hpass =>
      exact ⟨next, count + 1, hpass, hloop, fun hzero => absurd hzero (Nat.succ_ne_zero count)⟩

/-- **Sections of two rows are resolved on their own,** however many passes either of them takes. -/
theorem resolveSections_append (htag : tag.name ≠ Word.paragraph) {nodes others : List Node}
    {last last' : Node} (h : resolveSections (.element tag nodes) data = .ok last)
    (h' : resolveSections (.element tag others) data = .ok last') :
    ∃ left right : List Node, last = .element tag left ∧ last' = .element tag right
      ∧ resolveSections (.element tag (nodes ++ others)) data
        = .ok (.element tag (left ++ right)) := by
  -- every pass that does anything shortens the text of one of the rows
  induction hn : (flatText (.element tag nodes)).length + (flatText (.element tag others)).length
    using Nat.strongRecOn generalizing nodes others with
  | ind n ih =>
      obtain ⟨_, count, hpass, hrest, hzero⟩ := exists_first_pass h
      obtain ⟨_, count', hpass', hrest', hzero'⟩ := exists_first_pass h'
      obtain ⟨left, right, rfl, rfl, hboth⟩ := resolvePass_append htag hpass hpass'
      rw [resolveSections_eq, hboth]
      have hle : (flatText (.element tag left)).length ≤ (flatText (.element tag nodes)).length := by
        rcases Nat.eq_zero_or_pos count with h0 | hpos
        · rw [(hzero h0).1]
        · exact Nat.le_of_lt (flatText_lt_of_pass hpass hpos)
      have hle' : (flatText (.element tag right)).length
          ≤ (flatText (.element tag others)).length := by
        rcases Nat.eq_zero_or_pos count' with h0 | hpos
        · rw [(hzero' h0).1]
        · exact Nat.le_of_lt (flatText_lt_of_pass hpass' hpos)
      cases hcount : count + count' with
      | zero =>
          obtain ⟨h0, h0'⟩ := Nat.add_eq_zero_iff.mp hcount
          exact ⟨left, right, (hzero h0).2.trans (hzero h0).1.symm,
            (hzero' h0').2.trans (hzero' h0').1.symm, rfl⟩
      | succ k =>
          have hlt : (flatText (.element tag left)).length + (flatText (.element tag right)).length
              < n := by
            rcases Nat.eq_zero_or_pos count with h0 | hpos
            · have := flatText_lt_of_pass hpass' (by omega)
              omega
            · have := flatText_lt_of_pass hpass hpos
              omega
          exact ih _ hlt hrest hrest' rfl

/-! ## Tables -/

/-- **Tables of two rows are expanded on their own.** -/
theorem expandTables_append (htag : tag.name ≠ Word.table) {nodes others : List Node}
    {front rear : Node} {aliases aliases' : List Alias}
    (h : expandTables (.element tag nodes) data = .ok (front, aliases))
    (h' : expandTables (.element tag others) data = .ok (rear, aliases')) :
    ∃ left right : List Node, front = .element tag left ∧ rear = .element tag right
      ∧ expandTables (.element tag (nodes ++ others)) data
        = .ok (.element tag (left ++ right), aliases ++ aliases') := by
  have hroot : ∀ nodes : List Node, expandTables (.element tag nodes) data
      = (expandAll data nodes).map fun inner => (.element tag inner.nodes, inner.aliases) := by
    intro nodes
    rw [expandTables, expandNode, if_neg (by simpa using htag)]
    cases expandAll data nodes <;> rfl
  rw [hroot] at h h' ⊢
  obtain ⟨inner, hinner, hfront⟩ := map_eq_ok.mp h
  obtain ⟨inner', hinner', hrear⟩ := map_eq_ok.mp h'
  obtain ⟨rfl, rfl⟩ := Prod.mk.inj hfront
  obtain ⟨rfl, rfl⟩ := Prod.mk.inj hrear
  refine ⟨inner.nodes, inner'.nodes, rfl, rfl, ?_⟩
  rw [expandAll_append, hinner, hinner']
  rfl

/-! ## Placeholders -/

/-- The failures of a tree, in document order. -/
def failuresOf (data : Value) (tree : Node) : List Failure := tree.texts.flatMap (failuresIn data)

lemma failuresOf_append (nodes others : List Node) :
    failuresOf data (.element tag (nodes ++ others))
      = failuresOf data (.element tag nodes) ++ failuresOf data (.element tag others) := by
  simp only [failuresOf, Node.texts, textsOf_eq_flatMap, List.flatMap_append]

lemma fillTree_eq (tree : Node) :
    fillTree tree data
      = if failuresOf data tree = [] then .ok (tree.mapText (fillText data))
        else .error (.placeholders (failuresOf data tree)) := by
  show (if (failuresOf data tree).isEmpty then _ else _) = _
  by_cases hnone : failuresOf data tree = []
  · rw [if_pos hnone, if_pos (List.isEmpty_iff.mpr hnone)]
  · rw [if_neg hnone, if_neg (mt List.isEmpty_iff.mp hnone)]
    rfl

/-- What a caller sees of a failed placeholder wherever it stands. -/
def Failure.seen (failure : Failure) : Text × Path × Reason :=
  (failure.token, failure.path, failure.reason)

/-- The failed placeholders that an outcome reports. -/
def reportedBy : Except RenderError Node → List (Text × Path × Reason)
  | .error ⟨.placeholders failures, _⟩ => failures.map Failure.seen
  | _ => []

lemma seen_traced (aliases : List Alias) (failures : List Failure) :
    (failures.map (Failure.traced aliases)).map Failure.seen = failures.map Failure.seen := by
  rw [List.map_map]
  rfl

/-! ## Rendering -/

/-- The tree that is left to be filled in, once its sections are resolved and its tables
expanded. -/
def prepareTree (tree : Node) (data : Value) : Except Cause (Node × List Alias) := do
  let resolved ← resolveSections (joinRuns tree) data
  expandTables resolved data

lemma renderTree_of_prepareTree {tree expanded : Node} {aliases : List Alias}
    (h : prepareTree tree data = .ok (expanded, aliases)) (part : Option String) :
    renderTree tree data part
      = if failuresOf data expanded = [] then .ok (expanded.mapText (fillText data))
        else .error
          ⟨.placeholders ((failuresOf data expanded).map (Failure.traced aliases)), part⟩ := by
  obtain ⟨resolved, hresolved, htables⟩ := bind_eq_ok.mp h
  simp only [renderTree, mergeTree, hresolved, htables, ok_bind, fillTree_eq]
  split <;> rfl

lemma prepareTree_of_renderTree {tree result : Node} {part : Option String}
    (h : renderTree tree data part = .ok result) :
    ∃ expanded aliases, prepareTree tree data = .ok (expanded, aliases)
      ∧ failuresOf data expanded = [] ∧ result = expanded.mapText (fillText data) := by
  rw [renderTree, mapError_eq_ok] at h
  obtain ⟨resolved, hresolved, h⟩ := bind_eq_ok.mp h
  obtain ⟨⟨expanded, aliases⟩, htables, h⟩ := bind_eq_ok.mp h
  rw [mapError_eq_ok, fillTree_eq] at h
  split at h
  · next hnone =>
      refine ⟨expanded, aliases, ?_, hnone, (Except.ok.inj h).symm⟩
      rw [prepareTree, hresolved, ok_bind, htables]
  · simp at h

lemma reportedBy_of_prepareTree {tree expanded : Node} {aliases : List Alias}
    (h : prepareTree tree data = .ok (expanded, aliases)) (part : Option String) :
    reportedBy (renderTree tree data part) = (failuresOf data expanded).map Failure.seen := by
  rw [renderTree_of_prepareTree h]
  split
  · next hnone =>
      rw [hnone]
      rfl
  · exact seen_traced aliases _

theorem prepareTree_append (hparagraph : tag.name ≠ Word.paragraph) (htable : tag.name ≠ Word.table)
    {nodes others : List Node} {front rear : Node} {aliases aliases' : List Alias}
    (h : prepareTree (.element tag nodes) data = .ok (front, aliases))
    (h' : prepareTree (.element tag others) data = .ok (rear, aliases')) :
    ∃ left right : List Node, front = .element tag left ∧ rear = .element tag right
      ∧ prepareTree (.element tag (nodes ++ others)) data
        = .ok (.element tag (left ++ right), aliases ++ aliases') := by
  have hjoin : ∀ nodes : List Node,
      joinRuns (.element tag nodes) = .element tag (nodes.map joinRuns) := by
    intro nodes
    have hall : joinRunsOf nodes = nodes.map joinRuns := by
      induction nodes with
      | nil => rfl
      | cons node rest ih => rw [joinRunsOf, ih, List.map_cons]
    rw [joinRuns, if_neg (by simpa using hparagraph), hall]
  rw [prepareTree, hjoin] at h h' ⊢
  obtain ⟨resolved, hresolved, htables⟩ := bind_eq_ok.mp h
  obtain ⟨resolved', hresolved', htables'⟩ := bind_eq_ok.mp h'
  obtain ⟨left, right, rfl, rfl, hboth⟩ :=
    resolveSections_append hparagraph hresolved hresolved'
  rw [List.map_append, hboth, ok_bind]
  exact expandTables_append htable htables htables'

end FormLetter
