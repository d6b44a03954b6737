import FormLetter.Merge.Render
import FormLetter.Proofs.Displayed
import FormLetter.Proofs.ItemScope
import FormLetter.Proofs.Tokenized

/-!
# What a merge leaves of its markup

A template in which every at-sign belongs to a token is merged into a document without any at-sign,
as long as the data has none in its texts.  Each stage hands on less than it was given.

* **Sections.** Passes keep texts tokenized (`Passes.tokenized`), and they end when no conditional
  marker is left, so that the texts hold placeholders only (`IsFillable.of_no_markers`).
* **Rows.** `texts_expandNode` — every text of an expanded tree is one of the tree or a redirected
  copy of one.  It is stated for any property that redirecting keeps, and `IsFillable` is of this
  kind (`IsFillable.bound`).
* **Placeholders.** If all of them are filled in, what is left is text of the template and escaped
  text of the data (`at_not_mem_fillText`).
-/

namespace FormLetter

/-! ## Texts with placeholders only -/

/-- A piece that filling in rids of its at-signs: a placeholder, or a character that is none. -/
def Piece.IsFillable : Piece → Prop
  | .char c => c ≠ '@'
  | .token t => ∃ path, t.meaning = .placeholder path

/-- Every at-sign of the text belongs to a placeholder. -/
def IsFillable (t : Text) : Prop := ∀ p ∈ pieces t, p.IsFillable

/-- **Where no marker is left, only placeholders are.** -/
theorem IsFillable.of_no_markers {tree : Node} (ht : Tokenized tree)
    (hnone : markers (flatText tree) = []) {t : Text} (hmem : t ∈ tree.texts) : IsFillable t := by
  intro p hp
  cases p with
  | char c => exact ht t hmem _ hp
  | token token =>
      obtain ⟨position, htoken⟩ := ht.mem_tokens.mpr ⟨t, hmem, hp⟩
      -- a token with another meaning would be a marker of the flat text
      have hmarker : token.marker? position = none :=
        List.filterMap_eq_nil_iff.mp hnone _ htoken
      obtain ⟨body, meaning⟩ := token
      cases meaning with
      | placeholder path => exact ⟨path, rfl⟩
      | opening path => simp [Token.marker?] at hmarker
      | alternative => simp [Token.marker?] at hmarker
      | closing => simp [Token.marker?] at hmarker

/-- Redirecting turns placeholders into placeholders. -/
lemma IsFillable.bound {scope : RowScope} (hseg : isName scope.segment = true) {t : Text}
    (h : IsFillable t) : IsFillable (mapPlaceholders scope.token t) := by
  intro p hp
  rw [pieces_bound hseg] at hp
  obtain ⟨q, hq, rfl⟩ := List.mem_map.mp hp
  have hfill := h q hq
  cases q with
  | char c => exact hfill
  | token token =>
      obtain ⟨path, hpath⟩ := hfill
      simp only [RowScope.redirect, hpath]
      exact ⟨scope.resolve path, rfl⟩

/-! ## Texts of expanded tables -/

namespace Expansion

/-- All texts of an expansion have a property. -/
def All (P : Text → Prop) (expansion : Expansion) : Prop :=
  ∀ t ∈ Node.textsOf expansion.nodes, P t

variable {P : Text → Prop}

lemma all_empty : Expansion.empty.All P := fun _ h => absurd h List.not_mem_nil

lemma All.append {a b : Expansion} (ha : a.All P) (hb : b.All P) : (a ++ b).All P := by
  intro t ht
  have hnodes : (a ++ b).nodes = a.nodes ++ b.nodes := rfl
  rw [hnodes, textsOf_eq_flatMap, List.flatMap_append, ← textsOf_eq_flatMap,
    ← textsOf_eq_flatMap, List.mem_append] at ht
  exact ht.elim (ha t) (hb t)

lemma All.wrap {inner : Expansion} (h : inner.All P) (tag : StartTag) :
    (Expansion.wrap tag inner).All P := by
  intro t ht
  simp only [Expansion.wrap, Node.textsOf, Node.texts, List.append_nil] at ht
  exact h t ht

end Expansion

/-- The rows of an open group have a property in all their texts, and some row was bound to the
list that they share. -/
def RowGroup.All (data : Value) (P : Text → Prop) (group : RowGroup) : Prop :=
  ∀ binding rows, group = some (binding, rows) →
    (∃ index first, analyzeRow data index first = .ok (some binding))
      ∧ ∀ t ∈ Node.textsOf rows, P t

/-- A property of texts that the copies of a text share with it. -/
def KeptByCopies (data : Value) (P : Text → Prop) : Prop :=
  ∀ scope key t, RowScope.Within scope key data → P t → P (mapPlaceholders scope.token t)

section

variable {data : Value} {P : Text → Prop}

lemma RowGroup.all_none : RowGroup.All data P none := fun _ _ h => by simp at h

lemma RowGroup.all_single {index : Nat} {row : Node} {binding : RowBinding}
    (h : analyzeRow data index row = .ok (some binding)) (hrow : ∀ t ∈ row.texts, P t) :
    RowGroup.All data P (some (binding, [row])) := by
  intro b rows heq
  obtain ⟨rfl, rfl⟩ := Prod.mk.inj (Option.some.inj heq)
  refine ⟨⟨index, row, h⟩, fun t ht => hrow t ?_⟩
  simpa [Node.textsOf] using ht

lemma RowGroup.All.concat {binding : RowBinding} {rows : List Node} {row : Node}
    (h : RowGroup.All data P (some (binding, rows))) (hrow : ∀ t ∈ row.texts, P t) :
    RowGroup.All data P (some (binding, rows ++ [row])) := by
  intro b others heq
  obtain ⟨rfl, rfl⟩ := Prod.mk.inj (Option.some.inj heq)
  obtain ⟨hbound, hrows⟩ := h binding rows rfl
  refine ⟨hbound, fun t ht => ?_⟩
  rw [textsOf_eq_flatMap, List.flatMap_append, ← textsOf_eq_flatMap,
    List.mem_append] at ht
  exact ht.elim (hrows t) fun ht => hrow t (by simpa using ht)

/-- The copies of a group have texts of its rows, redirected. -/
lemma RowGroup.All.settle (hP : KeptByCopies data P) {group : RowGroup}
    (h : RowGroup.All data P group) : (settleRows group).All P := by
  match group with
  | none => exact Expansion.all_empty
  | some (binding, rows) =>
      obtain ⟨⟨index, first, hbound⟩, hrows⟩ := h binding rows rfl
      intro t ht
      rw [settleRows, repeatRows, textsOf_eq_flatMap, List.mem_flatMap] at ht
      obtain ⟨copy, hcopy, ht⟩ := ht
      obtain ⟨scope, hscope, hcopy⟩ := List.mem_flatMap.mp hcopy
      obtain ⟨row, hrow, rfl⟩ := List.mem_map.mp hcopy
      rw [bindRow, texts_mapText] at ht
      obtain ⟨u, hu, rfl⟩ := List.mem_map.mp ht
      refine hP scope _ u (within_of_mem_scopes hbound hscope) (hrows u ?_)
      rw [textsOf_eq_flatMap]
      exact List.mem_flatMap.mpr ⟨row, hrow, hu⟩

mutual

/-- **Expansion keeps every property of texts that redirecting keeps.** -/
theorem texts_expandNode (hP : KeptByCopies data P) : ∀ (node : Node) {expansion : Expansion},
    expandNode data node = .ok expansion → (∀ t ∈ node.texts, P t) → expansion.All P
  | .text value, expansion, h, hnode => by
      rw [← Except.ok.inj h]
      intro t ht
      exact hnode t (by simpa [Node.textsOf] using ht)
  | .element tag children, expansion, h, hnode => by
      rw [expandNode] at h
      obtain ⟨inner, hinner, rfl⟩ := map_eq_ok.mp h
      split at hinner
      · exact (texts_expandRows hP children hinner RowGroup.all_none hnode).wrap tag
      · exact (texts_expandAll hP children hinner hnode).wrap tag

theorem texts_expandAll (hP : KeptByCopies data P) : ∀ (nodes : List Node)
    {expansion : Expansion}, expandAll data nodes = .ok expansion →
    (∀ t ∈ Node.textsOf nodes, P t) → expansion.All P
  | [], expansion, h, _ => by
      rw [← Except.ok.inj h]
      exact Expansion.all_empty
  | node :: rest, expansion, h, hnodes => by
      rw [Node.textsOf, List.forall_mem_append] at hnodes
      rw [expandAll] at h
      obtain ⟨first, hfirst, h⟩ := bind_eq_ok.mp h
      obtain ⟨others, hothers, h⟩ := bind_eq_ok.mp h
      rw [← Except.ok.inj h]
      exact (texts_expandNode hP node hfirst hnodes.1).append
        (texts_expandAll hP rest hothers hnodes.2)

theorem texts_expandRows (hP : KeptByCopies data P) : ∀ (nodes : List Node) {index : Nat}
    {group : RowGroup} {expansion : Expansion}, expandRows data index group nodes = .ok expansion →
    RowGroup.All data P group → (∀ t ∈ Node.textsOf nodes, P t) → expansion.All P
  | [], index, group, expansion, h, hgroup, _ => by
      rw [← Except.ok.inj h]
      exact hgroup.settle hP
  | node :: rest, index, group, expansion, h, hgroup, hnodes => by
      rw [Node.textsOf, List.forall_mem_append] at hnodes
      rw [expandRows] at h
      split at h
      · obtain ⟨binding?, hbound, h⟩ := bind_eq_ok.mp h
        split at h
        · -- no template: the group is settled, and the row is looked into
          obtain ⟨inner, hinner, h⟩ := bind_eq_ok.mp h
          obtain ⟨others, hothers, h⟩ := bind_eq_ok.mp h
          rw [← Except.ok.inj h]
          exact ((hgroup.settle hP).append (texts_expandNode hP node hinner hnodes.1)).append
            (texts_expandRows hP rest hothers RowGroup.all_none hnodes.2)
        · next binding =>
            split at h
            · split at h
              · exact texts_expandRows hP rest h (hgroup.concat hnodes.1) hnodes.2
              · obtain ⟨others, hothers, h⟩ := bind_eq_ok.mp h
                rw [← Except.ok.inj h]
                exact (hgroup.settle hP).append (texts_expandRows hP rest hothers
                  (RowGroup.all_single hbound hnodes.1) hnodes.2)
            · exact texts_expandRows hP rest h (RowGroup.all_single hbound hnodes.1) hnodes.2
      · obtain ⟨inner, hinner, h⟩ := bind_eq_ok.mp h
        obtain ⟨others, hothers, h⟩ := bind_eq_ok.mp h
        rw [← Except.ok.inj h]
        exact ((hgroup.settle hP).append (texts_expandNode hP node hinner hnodes.1)).append
          (texts_expandRows hP rest hothers RowGroup.all_none hnodes.2)

end

/-- The tree with its tables expanded has texts of the tree, redirected or not. -/
theorem texts_expandTables (hP : KeptByCopies data P) {tree expanded : Node}
    {aliases : List Alias} (h : expandTables tree data = .ok (expanded, aliases))
    (htree : ∀ t ∈ tree.texts, P t) : ∀ t ∈ expanded.texts, P t := by
  obtain ⟨expansion, hexpansion, h⟩ := bind_eq_ok.mp h
  obtain ⟨rfl, -⟩ := Prod.mk.inj (Except.ok.inj h)
  have hall := texts_expandNode hP tree hexpansion htree
  intro t ht
  cases hnodes : expansion.nodes with
  | nil => exact htree t (by simpa [hnodes] using ht)
  | cons first rest =>
      refine hall t ?_
      rw [hnodes] at ht ⊢
      exact List.mem_append_left _ ht

end

/-! ## Texts that are filled in -/

lemma at_not_mem_filledText {data : Value} {p : Piece} (hdata : ∀ s ∈ data.strings, '@' ∉ s)
    (hp : p.IsFillable) (hnone : failure? (p.fill data) = none) :
    '@' ∉ filledText (p.fill data) := by
  cases p with
  | char c =>
      intro hc
      exact hp (List.mem_singleton.mp hc).symm
  | token token =>
      obtain ⟨path, hpath⟩ := hp
      simp only [Piece.fill, hpath] at hnone ⊢
      cases hvalue : valueText data path with
      | ok value => exact at_not_mem_escapeValue (at_not_mem_valueText hdata hvalue)
      | error reason => simp [hvalue, failure?] at hnone

/-- A text with placeholders only has no at-sign left once all of them are filled in. -/
lemma at_not_mem_fillText {data : Value} {t : Text} (hdata : ∀ s ∈ data.strings, '@' ∉ s)
    (ht : IsFillable t) (hnone : failuresIn data t = []) : '@' ∉ fillText data t := by
  rw [fillText, hnone, List.isEmpty_nil, if_pos rfl]
  intro hc
  obtain ⟨p, hp, hc⟩ := List.mem_flatMap.mp hc
  exact at_not_mem_filledText hdata (ht p hp) (List.filterMap_eq_nil_iff.mp hnone p hp) hc

lemma at_not_mem_fillTree {tree result : Node} {data : Value}
    (hdata : ∀ s ∈ data.strings, '@' ∉ s) (ht : ∀ t ∈ tree.texts, IsFillable t)
    (h : fillTree tree data = .ok result) : ∀ t ∈ result.texts, '@' ∉ t := by
  rw [fillTree] at h
  split at h
  · next hnone =>
      rw [List.isEmpty_iff, List.flatMap_eq_nil_iff] at hnone
      obtain rfl := Except.ok.inj h
      intro t hmem
      rw [texts_mapText] at hmem
      obtain ⟨u, hu, rfl⟩ := List.mem_map.mp hmem
      exact at_not_mem_fillText hdata (ht u hu) (hnone u hu)
  · simp at h

/-- **A merge leaves no marker behind.**  If every at-sign of the template, once its runs are
joined, belongs to a token of its own text node, and no text among the values of the data holds an
at-sign, then no text of the merged document does. -/
theorem renderTree_leaves_no_marker {tree result : Node} {data : Value} {part : Option String}
    (ht : Tokenized (joinRuns tree)) (hdata : ∀ s ∈ data.strings, '@' ∉ s)
    (h : renderTree tree data part = .ok result) : ∀ t ∈ result.texts, '@' ∉ t := by
  rw [renderTree, mapError_eq_ok, mergeTree] at h
  obtain ⟨resolved, hresolved, h⟩ := bind_eq_ok.mp h
  obtain ⟨⟨expanded, aliases⟩, hexpanded, h⟩ := bind_eq_ok.mp h
  obtain ⟨hpasses, hnone⟩ := resolveSections_eq_ok.mp hresolved
  have hfillable : ∀ t ∈ expanded.texts, IsFillable t :=
    texts_expandTables (fun _ _ _ hwithin => IsFillable.bound hwithin.isName) hexpanded
      fun _ hmem => IsFillable.of_no_markers (hpasses.tokenized ht) hnone hmem
  exact at_not_mem_fillTree hdata hfillable (mapError_eq_ok.mp h)

theorem renderTree_leaves_no_marker_table :
    let paragraph := fun t : String =>
      Node.element ⟨Word.paragraph, [], []⟩ [Word.makeRun t.toList none]
    let body := fun children => Node.element ⟨Word.named "body", [], []⟩ children
    let row := fun t => Node.element ⟨Word.row, [], []⟩ [paragraph t]
    let table := fun rows : List String => Node.element ⟨Word.table, [], []⟩ (rows.map row)
    let tree := body [paragraph "@if:a@", paragraph "@if:b@no@else@yes@endif@", paragraph "@endif@",
      table ["@l.x@ of @n@"]]
    let items : List Value :=
      [.mapping [(.text ['x'], .text ['<'])], .mapping [(.text ['X'], .int 2)]]
    let data : Value := .mapping [(.text ['a'], .truth true), (.text ['b'], .int 0),
      (.text ['n'], .int 3), (.text ['l'], .list items)]
    let result := body [paragraph "yes", table ["&lt; of 3", "2 of 3"]]
    Tokenized (joinRuns tree) ∧ (∀ s ∈ data.strings, '@' ∉ s)
      ∧ renderTree tree data none = .ok result ∧ ∀ t ∈ result.texts, '@' ∉ t := by
  intro paragraph body row table tree items data result
  have htree : ∀ t ∈ (joinRuns tree).texts, Piece.char '@' ∉ pieces t := by decide +kernel
  have htokenized : Tokenized (joinRuns tree) := fun t ht => isTokenized_iff.mpr (htree t ht)
  have hdata : ∀ s ∈ data.strings, '@' ∉ s := by decide +kernel
  have hrender : renderTree tree data none = .ok result := by decide +kernel
  exact ⟨htokenized, hdata, hrender, renderTree_leaves_no_marker htokenized hdata hrender⟩

end FormLetter
