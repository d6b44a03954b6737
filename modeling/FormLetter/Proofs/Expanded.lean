import FormLetter.Proofs.Bands

/-!
# Expanded tables

Expansion goes down a tree as far as its first template rows.  Everything on the way is kept, and a
table on the way is replaced band by band: template rows by their copies, item after item, and all
other children by what they expand to.

* `IsCopy` — a row of the result has the elements of its template row, and in its texts each
  placeholder is redirected and nothing else has changed.
* `Expands` — what a tree becomes, with one rule for text, one for tables and one for all other
  elements.  `expands_of_expandNode` — the walk over the tree does this.
* `sources` — the texts of the template that the texts of the result are copied from, in order
  (`drawnFrom_of_expandNode`).  Rows of a list without items are sources of nothing, so no failure
  comes from them (`within_of_mem_sources`).
* `expandTables_by_bands` — both together.

Trees are taken apart by `Node.byChildren`, whose hypothesis covers all children at once: the bands
of a table are lists of children, and not the children one after another.
-/

namespace FormLetter

/-! ## Trees -/

mutual

/-- What holds of character data, and of an element if it holds of its children, holds of every
tree. -/
@[elab_as_elim]
theorem Node.byChildren {motive : Node → Prop} (text : ∀ value, motive (.text value))
    (element : ∀ tag children, (∀ child ∈ children, motive child) →
      motive (.element tag children)) : ∀ node, motive node
  | .text value => text value
  | .element tag children => element tag children (Node.allByChildren text element children)

theorem Node.allByChildren {motive : Node → Prop} (text : ∀ value, motive (.text value))
    (element : ∀ tag children, (∀ child ∈ children, motive child) →
      motive (.element tag children)) : ∀ nodes : List Node, ∀ node ∈ nodes, motive node
  | [], _, h => absurd h List.not_mem_nil
  | first :: rest, node, h =>
      (List.mem_cons.mp h).elim (fun heq => heq ▸ Node.byChildren text element first)
        (Node.allByChildren text element rest node)

end

/-- What corresponds to a member may be looked at with the knowledge that it is one. -/
lemma forall₂_imp_of_mem {α β : Type} {R S : α → β → Prop} {l : List α} {m : List β}
    (h : List.Forall₂ R l m) (himp : ∀ a ∈ l, ∀ b, R a b → S a b) : List.Forall₂ S l m :=
  ((List.forall₂_and_left l m).mpr ⟨himp, h⟩).imp fun _ b hab => hab.1 b hab.2

/-- Where each member of a list gives way to `count` others, those of member `k` begin at
`k * count`. -/
lemma getElem?_flatMap {α β : Type} {f : α → List β} {count : Nat} : ∀ {members : List α},
    (∀ a ∈ members, (f a).length = count) → ∀ {k j : Nat}, j < count →
      (members.flatMap f)[k * count + j]? = members[k]?.bind fun a => (f a)[j]?
  | [], _, _, _, _ => by simp
  | first :: rest, h, 0, j, hj => by
      have hfirst := h first List.mem_cons_self
      rw [List.flatMap_cons, Nat.zero_mul, Nat.zero_add, List.getElem?_append_left (by omega)]
      rfl
  | first :: rest, h, k + 1, j, hj => by
      have hfirst := h first List.mem_cons_self
      rw [List.flatMap_cons, List.getElem?_append_right (by rw [hfirst, Nat.succ_mul]; omega),
        show (k + 1) * count + j - (f first).length = k * count + j by
          rw [hfirst, Nat.succ_mul]; omega,
        getElem?_flatMap (fun a ha => h a (List.mem_cons_of_mem _ ha)) hj]
      rfl

/-! ## Copies -/

/-- The copy of a node for an item: only its texts have changed, and in them only the placeholders,
which are redirected to the item. -/
def IsCopy (scope : RowScope) (row copy : Node) : Prop :=
  ∃ f : Text → Text, copy = row.mapText f
    ∧ ∀ t ∈ row.texts, pieces (f t) = (pieces t).map scope.redirect

lemma isCopy_bindRow {scope : RowScope} (hname : isName scope.segment = true) (row : Node) :
    IsCopy scope row (bindRow scope row) :=
  ⟨mapPlaceholders scope.token, rfl, fun t _ => pieces_bound hname t⟩

section

variable {binding : RowBinding} {rows : List Node}

lemma length_repeatRows :
    (repeatRows binding rows).nodes.length = binding.items.length * rows.length := by
  rw [repeatRows, List.length_flatMap]
  simp [RowBinding.scopes, Function.comp_def]

/-- The copies stand item after item, and in the order of the rows for each item. -/
lemma getElem?_repeatRows {k j : Nat} {item : Value} {row : Node}
    (hitem : binding.items[k]? = some item) (hrow : rows[j]? = some row) :
    (repeatRows binding rows).nodes[k * rows.length + j]?
      = some (bindRow ⟨binding.segment, item, k⟩ row) := by
  obtain ⟨hj, -⟩ := List.getElem?_eq_some_iff.mp hrow
  rw [repeatRows, getElem?_flatMap (fun _ _ => List.length_map _) hj, getElem?_scopes, hitem]
  simp [hrow]

end

/-! ## What a tree becomes -/

/-- What a band becomes, when `Grows` says what other trees become: a child that is no template row
its expansion; `R` template rows of a list with `N` items `N * R` rows, of which that at `k * R + j`
is the copy of row `j` for item `k`. -/
inductive BandExpands (Grows : Node → Node → Prop) (data : Value) : List Node → List Node → Prop
  | single {child result : Node} (h : boundTo? data child = none) (hresult : Grows child result) :
      BandExpands Grows data [child] [result]
  | rows {binding : RowBinding} {rows copies : List Node}
      (h : rows.head?.bind (boundTo? data) = some binding)
      (hcount : copies.length = binding.items.length * rows.length)
      (hcopies : ∀ k item, binding.items[k]? = some item → ∀ j row, rows[j]? = some row →
        ∃ copy, copies[k * rows.length + j]? = some copy
          ∧ IsCopy ⟨binding.segment, item, k⟩ row copy) :
      BandExpands Grows data rows copies

/-- What a tree becomes when the template rows of its tables are expanded. -/
inductive Expands (data : Value) : Node → Node → Prop
  | text (value : Text) : Expands data (.text value) (.text value)
  | element {tag : StartTag} {children results : List Node} (h : tag.name ≠ Word.table)
      (hchildren : List.Forall₂ (Expands data) children results) :
      Expands data (.element tag children) (.element tag results)
  | table {tag : StartTag} {children : List Node} {parts : List (List Node)}
      (h : tag.name = Word.table)
      (hbands : List.Forall₂ (BandExpands (Expands data) data) (bands data children) parts) :
      Expands data (.element tag children) (.element tag parts.flatten)

section

variable {data : Value}

/-- An element is expanded by its bands if it is a table, and child by child if not. -/
lemma parts_of_expandNode {tag : StartTag} {children : List Node} {expansion : Expansion}
    (h : expandNode data (.element tag children) = .ok expansion) :
    ∃ parts, expansion = .wrap tag (.concat parts)
      ∧ (tag.name = Word.table → List.Forall₂ (BandYields data) (bands data children) parts)
      ∧ (tag.name ≠ Word.table →
        List.Forall₂ (fun child part => expandNode data child = .ok part) children parts) := by
  rw [expandNode] at h
  obtain ⟨inner, hinner, rfl⟩ := map_eq_ok.mp h
  split at hinner
  · next htable =>
      obtain ⟨parts, hparts, rfl⟩ := yieldsFrom_expandRows children hinner .empty
      exact ⟨parts, rfl, fun _ => hparts, fun hne => absurd (eq_of_beq htable) hne⟩
  · next htable =>
      obtain ⟨parts, hparts, rfl⟩ := parts_of_expandAll hinner
      exact ⟨parts, rfl, fun heq => absurd (beq_iff_eq.mpr heq) htable, fun _ => hparts⟩

/-- The bands of a table hold its children and nothing else. -/
lemma mem_of_mem_bands {band children : List Node} (h : band ∈ bands data children) {node : Node}
    (hnode : node ∈ band) : node ∈ children := by
  rw [← List.flatten_splitBy (sharesList data) children]
  exact List.mem_flatten.mpr ⟨band, h, hnode⟩

/-- A band that yields these nodes becomes them. -/
lemma bandExpands_of_bandYields {band : List Node} {part : Expansion}
    (h : BandYields data band part)
    (hchild : ∀ child ∈ band, ∀ inner, expandNode data child = .ok inner →
      ∃ result, inner.nodes = [result] ∧ Expands data child result) :
    BandExpands (Expands data) data band part.nodes := by
  cases h with
  | @single child part hnone hpart =>
      obtain ⟨result, hnodes, hexpands⟩ := hchild child (List.mem_singleton_self child) part hpart
      rw [hnodes]
      exact .single hnone hexpands
  | @rows binding first rest hbound =>
      refine .rows hbound length_repeatRows fun k item hitem j row hrow => ?_
      refine ⟨_, getElem?_repeatRows hitem hrow, isCopy_bindRow ?_ row⟩
      exact (binding_of_analyzeRow (analyzeRow_of_boundTo? hbound).2).1

/-- The children of an element that is no table expand to one tree each. -/
lemma results_of_parts {children : List Node} {parts : List Expansion}
    (h : List.Forall₂ (fun child part => ∃ result, part.nodes = [result]
      ∧ Expands data child result) children parts) :
    List.Forall₂ (Expands data) children (Expansion.concat parts).nodes := by
  induction h with
  | nil => exact .nil
  | cons hfirst _ ih =>
      obtain ⟨result, hnodes, hexpands⟩ := hfirst
      rw [Expansion.concat, List.flatMap_cons, hnodes]
      exact .cons hexpands ih

/-- **Expansion yields one tree, which is what the tree becomes.** -/
theorem expands_of_expandNode (node : Node) : ∀ expansion, expandNode data node = .ok expansion →
    ∃ result, expansion.nodes = [result] ∧ Expands data node result := by
  induction node using Node.byChildren with
  | text value =>
      intro expansion h
      rw [← Except.ok.inj h]
      exact ⟨.text value, rfl, .text value⟩
  | element tag children ih =>
      intro expansion h
      obtain ⟨parts, rfl, htable, hother⟩ := parts_of_expandNode h
      refine ⟨_, rfl, ?_⟩
      by_cases hname : tag.name = Word.table
      · refine .table hname (List.forall₂_map_right_iff.mpr ?_)
        refine forall₂_imp_of_mem (htable hname) fun band hband part hyields => ?_
        exact bandExpands_of_bandYields hyields fun child hchild =>
          ih child (mem_of_mem_bands hband hchild)
      · exact .element hname (results_of_parts (forall₂_imp_of_mem (hother hname) ih))

end

/-! ## Where text comes from -/

/-- A text of the template and, where it stands in the copy of a template row, the scope of the
copy. -/
structure Source where
  spelled : Text
  scope? : Option RowScope

namespace Source

/-- What stands in the result: in a copy, placeholders are redirected. -/
def shown (source : Source) : Text :=
  match source.scope? with
  | none => source.spelled
  | some scope => mapPlaceholders scope.token source.spelled

/-- The aliases that a copy leaves. -/
def aliases (source : Source) : List Alias :=
  match source.scope? with
  | none => []
  | some scope =>
    (placeholders source.spelled).map fun placeholder => (scope.token placeholder, placeholder.text)

end Source

/-- The sources of a band, given those of its members: template rows are copied with all their
text, for each item of the list that the first of them is bound to. -/
def bandSources (data : Value) (band : List (Node × List Source)) : List Source :=
  match band.head?.bind fun first => boundTo? data first.1 with
  | none => band.flatMap (·.2)
  | some binding => binding.scopes.flatMap fun scope =>
      band.flatMap fun member => member.1.texts.map fun spelled => ⟨spelled, some scope⟩

mutual

/-- The texts that the expansion of a tree copies, in the order of the result. -/
def sources (data : Value) : Node → List Source
  | .text value => [⟨value, none⟩]
  | .element tag children =>
    if tag.name == Word.table then
      ((sourcesOf data children).splitBy fun a b => sharesList data a.1 b.1).flatMap
        (bandSources data)
    else (sourcesOf data children).flatMap (·.2)

/-- Several trees, each with the texts that its expansion copies. -/
def sourcesOf (data : Value) : List Node → List (Node × List Source)
  | [] => []
  | node :: rest => (node, sources data node) :: sourcesOf data rest

end

/-- A list may be cut before or after its members are changed. -/
lemma splitBy_map {α β : Type} (f : α → β) (r : β → β → Bool) (l : List α) :
    (l.map f).splitBy r = (l.splitBy fun a b => r (f a) (f b)).map (List.map f) := by
  refine List.splitBy_eq_iff.mpr ⟨?_, ?_, ?_, ?_⟩
  · rw [← List.map_flatten, List.flatten_splitBy]
  · intro h
    obtain ⟨band, hband, hnil⟩ := List.mem_map.mp h
    exact List.ne_nil_of_mem_splitBy hband (List.map_eq_nil_iff.mp hnil)
  · intro m hm
    obtain ⟨band, hband, rfl⟩ := List.mem_map.mp hm
    exact (List.isChain_map f).mpr (List.isChain_of_mem_splitBy hband)
  · refine (List.isChain_map _).mpr ((List.isChain_getLast_head_splitBy _ l).imp ?_)
    rintro a b ⟨ha, hb, hcut⟩
    refine ⟨mt List.map_eq_nil_iff.mp ha, mt List.map_eq_nil_iff.mp hb, ?_⟩
    rw [List.getLast_map, List.head_map]
    exact hcut

section

variable {data : Value}

lemma sourcesOf_eq_map (nodes : List Node) :
    sourcesOf data nodes = nodes.map fun node => (node, sources data node) := by
  induction nodes with
  | nil => rfl
  | cons node rest ih => rw [sourcesOf, ih, List.map_cons]

lemma sources_table {tag : StartTag} (h : tag.name = Word.table) (children : List Node) :
    sources data (.element tag children) = (bands data children).flatMap fun band =>
      bandSources data (band.map fun node => (node, sources data node)) := by
  rw [sources, if_pos (beq_iff_eq.mpr h), sourcesOf_eq_map, splitBy_map, List.flatMap_map]
  rfl

lemma sources_element {tag : StartTag} (h : tag.name ≠ Word.table) (children : List Node) :
    sources data (.element tag children) = children.flatMap (sources data) := by
  rw [sources, if_neg (mt beq_iff_eq.mp h), sourcesOf_eq_map, List.flatMap_map]

/-- The texts and the aliases of an expansion come from these sources. -/
structure Expansion.DrawnFrom (expansion : Expansion) (sources : List Source) : Prop where
  texts : Node.textsOf expansion.nodes = sources.map Source.shown
  aliases : expansion.aliases = sources.flatMap Source.aliases

lemma drawnFrom_concat {parts : List Expansion} {drawn : List (List Source)}
    (h : List.Forall₂ Expansion.DrawnFrom parts drawn) :
    (Expansion.concat parts).DrawnFrom drawn.flatten := by
  induction h with
  | nil => exact ⟨rfl, rfl⟩
  | cons hfirst _ ih =>
      constructor
      · rw [Expansion.concat_cons, List.flatten_cons, List.map_append, ← hfirst.texts, ← ih.texts]
        simp only [textsOf_eq_flatMap]
        exact List.flatMap_append
      · rw [Expansion.concat_cons, List.flatten_cons, List.flatMap_append, ← hfirst.aliases,
          ← ih.aliases]
        rfl

lemma drawnFrom_repeatRows (binding : RowBinding) (rows : List Node) :
    (repeatRows binding rows).DrawnFrom (binding.scopes.flatMap fun scope =>
      rows.flatMap fun row => row.texts.map fun spelled => ⟨spelled, some scope⟩) := by
  constructor
  · rw [repeatRows, textsOf_eq_flatMap]
    simp only [List.flatMap_assoc, List.map_flatMap, List.flatMap_map, List.map_map]
    simp only [bindRow, texts_mapText]
    rfl
  · simp only [repeatRows, List.flatMap_assoc, List.flatMap_map]
    rfl

lemma drawnFrom_of_bandYields {band : List Node} {part : Expansion}
    (h : BandYields data band part)
    (hchild : ∀ child ∈ band, ∀ inner, expandNode data child = .ok inner →
      inner.DrawnFrom (sources data child)) :
    part.DrawnFrom (bandSources data (band.map fun node => (node, sources data node))) := by
  cases h with
  | @single child _ hnone hpart =>
      have hdrawn := hchild child (List.mem_singleton_self child) part hpart
      simpa [bandSources, hnone] using hdrawn
  | @rows binding first rest hbound =>
      have hdrawn := drawnFrom_repeatRows binding (first :: rest)
      simp only [bandSources, List.map_cons, List.head?_cons, Option.bind_some, hbound]
      rw [← List.map_cons (f := fun node => (node, sources data node))]
      simpa only [List.flatMap_map] using hdrawn

/-- **What a tree expands to is copied from its sources,** text for text, and so are the aliases. -/
theorem drawnFrom_of_expandNode (node : Node) : ∀ expansion, expandNode data node = .ok expansion →
    expansion.DrawnFrom (sources data node) := by
  induction node using Node.byChildren with
  | text value =>
      intro expansion h
      rw [← Except.ok.inj h]
      exact ⟨rfl, rfl⟩
  | element tag children ih =>
      intro expansion h
      obtain ⟨parts, rfl, htable, hother⟩ := parts_of_expandNode h
      have hdrawn : (Expansion.concat parts).DrawnFrom (sources data (.element tag children)) := by
        by_cases hname : tag.name = Word.table
        · rw [sources_table hname]
          refine drawnFrom_concat (List.forall₂_map_right_iff.mpr (List.Forall₂.flip ?_))
          refine forall₂_imp_of_mem (htable hname) fun band hband part hyields => ?_
          exact drawnFrom_of_bandYields hyields fun child hchild =>
            ih child (mem_of_mem_bands hband hchild)
        · rw [sources_element hname]
          refine drawnFrom_concat (List.forall₂_map_right_iff.mpr (List.Forall₂.flip ?_))
          exact forall₂_imp_of_mem (hother hname) ih
      exact ⟨by simpa [Expansion.wrap, Node.textsOf, Node.texts] using hdrawn.texts, hdrawn.aliases⟩

/-- The sources of an element are those of its children, except that template rows are sources with
all their text, in a copy for an item. -/
lemma cases_mem_sources {tag : StartTag} {children : List Node} {source : Source}
    (h : source ∈ sources data (.element tag children)) :
    ∃ child ∈ children, source ∈ sources data child
      ∨ source.spelled ∈ child.texts
        ∧ ∃ key scope, source.scope? = some scope ∧ scope.Within key data := by
  by_cases hname : tag.name = Word.table
  · rw [sources_table hname] at h
    obtain ⟨band, hband, h⟩ := List.mem_flatMap.mp h
    rw [bandSources] at h
    split at h
    · rw [List.flatMap_map] at h
      obtain ⟨child, hchild, h⟩ := List.mem_flatMap.mp h
      exact ⟨child, mem_of_mem_bands hband hchild, Or.inl h⟩
    · next binding hbound =>
        obtain ⟨first, -, hbound⟩ := Option.bind_eq_some_iff.mp hbound
        obtain ⟨scope, hscope, h⟩ := List.mem_flatMap.mp h
        rw [List.flatMap_map] at h
        obtain ⟨child, hchild, h⟩ := List.mem_flatMap.mp h
        obtain ⟨spelled, hspelled, rfl⟩ := List.mem_map.mp h
        exact ⟨child, mem_of_mem_bands hband hchild,
          Or.inr ⟨hspelled, binding.key, scope, rfl, within_of_boundTo? hbound hscope⟩⟩
  · rw [sources_element hname] at h
    obtain ⟨child, hchild, h⟩ := List.mem_flatMap.mp h
    exact ⟨child, hchild, Or.inl h⟩

/-- A source that stands in a copy stands there for an item of a list, so rows of a list without
items are sources of nothing. -/
theorem within_of_mem_sources (node : Node) : ∀ source ∈ sources data node,
    ∀ scope, source.scope? = some scope → ∃ key, scope.Within key data := by
  induction node using Node.byChildren with
  | text value =>
      intro source hsource scope hscope
      rw [List.mem_singleton.mp hsource] at hscope
      simp at hscope
  | element tag children ih =>
      intro source hsource scope hscope
      obtain ⟨child, hchild, h | ⟨-, key, other, hother, hwithin⟩⟩ := cases_mem_sources hsource
      · exact ih child hchild source h scope hscope
      · obtain rfl := Option.some.inj (hother.symm.trans hscope)
        exact ⟨key, hwithin⟩

/-- What a source spells stands in the tree. -/
theorem spelled_mem_of_mem_sources (node : Node) :
    ∀ source ∈ sources data node, source.spelled ∈ node.texts := by
  induction node using Node.byChildren with
  | text value =>
      intro source hsource
      rw [List.mem_singleton.mp hsource]
      exact List.mem_singleton_self value
  | element tag children ih =>
      intro source hsource
      rw [Node.texts, textsOf_eq_flatMap]
      obtain ⟨child, hchild, h | ⟨h, -⟩⟩ := cases_mem_sources hsource
      · exact List.mem_flatMap.mpr ⟨child, hchild, ih child hchild source h⟩
      · exact List.mem_flatMap.mpr ⟨child, hchild, h⟩

end

/-! ## Whole trees -/

lemma failures_of_fillTree {tree : Node} {data : Value} {failures : List Failure}
    (h : fillTree tree data = .error (.placeholders failures)) :
    failures = tree.texts.flatMap (failuresIn data) := by
  rw [fillTree] at h
  split at h
  · simp at h
  · exact (Cause.placeholders.inj (Except.error.inj h)).symm

section

variable {tree result : Node} {data : Value} {aliases : List Alias}

lemma expansion_of_expandTables (h : expandTables tree data = .ok (result, aliases)) :
    expandNode data tree = .ok ⟨[result], aliases⟩ ∧ Expands data tree result := by
  obtain ⟨expansion, hexpansion, heq⟩ := bind_eq_ok.mp h
  obtain ⟨expanded, hnodes, hexpands⟩ := expands_of_expandNode tree expansion hexpansion
  obtain ⟨rfl, rfl⟩ := Prod.mk.inj (Except.ok.inj heq)
  rw [hnodes, List.headD_cons]
  refine ⟨?_, hexpands⟩
  rw [hexpansion, ← hnodes]

/-- The texts of the expanded tree and the aliases come from the sources of the tree, in order. -/
theorem drawnFrom_of_expandTables (h : expandTables tree data = .ok (result, aliases)) :
    result.texts = (sources data tree).map Source.shown
      ∧ aliases = (sources data tree).flatMap Source.aliases := by
  have hdrawn := drawnFrom_of_expandNode tree _ (expansion_of_expandTables h).1
  refine ⟨?_, hdrawn.aliases⟩
  rw [← hdrawn.texts, Node.textsOf, Node.textsOf, List.append_nil]

/-- **Tables are expanded band by band.**  Outside template rows a tree keeps its elements and its
text, and a table becomes what its bands become, one after another: a child that is no template row
its own expansion, template rows of one list their copies, item after item.  What fails to be filled
in later is a source of the result, so a row fails for no list that has no items.

All rows of a band share their list.  Rows that are bound under the same key share it as well,
unless the key is an undefined number: such a key is not one with itself, and each row makes a band
of its own. -/
theorem expandTables_by_bands (h : expandTables tree data = .ok (result, aliases)) :
    Expands data tree result
      ∧ (∀ failures, fillTree result data = .error (.placeholders failures) →
        ∀ failure ∈ failures, ∃ source ∈ sources data tree, failure ∈ failuresIn data source.shown
          ∧ ∀ scope, source.scope? = some scope → ∃ key, scope.Within key data)
      ∧ (∀ children, ∀ band ∈ bands data children,
        band.Pairwise fun a b => sharesList data a b = true)
      ∧ ∀ a b x y, boundTo? data a = some x → boundTo? data b = some y → x.key = y.key →
        (sharesList data a b = true ↔ x.key.magnitude? ≠ some .undefined) := by
  refine ⟨(expansion_of_expandTables h).2, fun failures hfill failure hfailure => ?_,
    fun _ _ => pairwise_of_mem_bands, fun _ _ _ _ => sharesList_iff⟩
  rw [failures_of_fillTree hfill, (drawnFrom_of_expandTables h).1, List.flatMap_map] at hfailure
  obtain ⟨source, hsource, hfailure⟩ := List.mem_flatMap.mp hfailure
  exact ⟨source, hsource, hfailure, within_of_mem_sources tree source hsource⟩

theorem expandTables_by_bands_mixed :
    let row : List Node → Node := .element ⟨Word.row, [], []⟩
    let table : List Node → Node := .element ⟨Word.table, [], []⟩
    let text : String → Node := fun s => .text s.toList
    let data : Value := .mapping
      [(.text ['l'], .list [.mapping [(.text ['a'], .int 1)], .mapping [(.text ['a'], .int 2)]]),
        (.text ['e'], .list [])]
    -- rows of one list in two spellings, a row of an empty list, and a table in a plain row
    let tree := table [row [text "@l.a@"], row [text "@L@ @a@ @b@"], row [text "@e.a@"], text " ",
      row [text "x", table [row [text "@l@"]]]]
    let result := table [row [text "@l.0.a@"], row [text "@l.0@ @l.0.a@ @b@"],
      row [text "@l.1.a@"], row [text "@l.1@ @l.1.a@ @b@"], text " ",
      row [text "x", table [row [text "@l.0@"], row [text "@l.1@"]]]]
    ∃ aliases, expandTables tree data = .ok (result, aliases)
      ∧ Expands data tree result
      ∧ (∀ failures, fillTree result data = .error (.placeholders failures) →
        ∀ failure ∈ failures, ∃ source ∈ sources data tree, failure ∈ failuresIn data source.shown
          ∧ ∀ scope, source.scope? = some scope → ∃ key, scope.Within key data)
      ∧ (∀ children, ∀ band ∈ bands data children,
        band.Pairwise fun a b => sharesList data a b = true)
      ∧ ∀ a b x y, boundTo? data a = some x → boundTo? data b = some y → x.key = y.key →
        (sharesList data a b = true ↔ x.key.magnitude? ≠ some .undefined) := by
  intro row table text data tree result
  have h : expandTables tree data = .ok (result, (sources data tree).flatMap Source.aliases) := by
    decide +kernel
  exact ⟨_, h, expandTables_by_bands h⟩

/-- Neighbouring rows of the one list under a key that is not a number are repeated each by itself,
where those of any other list alternate. -/
theorem expandTables_parts_undefined_key :
    let row : String → Node := fun s => .element ⟨Word.row, [], []⟩ [.text s.toList]
    let table : List Node → Node := .element ⟨Word.table, [], []⟩
    let items : List Value :=
      [.mapping [(.text ['x'], .int 1)], .mapping [(.text ['x'], .int 2)]]
    let data : Value := .mapping [(.binary .nan, .list items)]
    let first := row "@nan.x@"
    let second := row "b@nan.x@"
    (∃ binding, analyzeRow data 0 first = .ok (some binding)
        ∧ analyzeRow data 1 second = .ok (some binding)
        ∧ binding.key = .binary .nan ∧ binding.items = items)
      ∧ (expandTables (table [first, second]) data).map (·.1)
        = .ok (table [row "@nan.0.x@", row "@nan.1.x@", row "b@nan.0.x@", row "b@nan.1.x@"])
      ∧ (expandTables (table [first, second]) data).map (·.1)
        ≠ .ok (table [row "@nan.0.x@", row "b@nan.0.x@", row "@nan.1.x@", row "b@nan.1.x@"]) := by
  intro row table items data first second
  exact ⟨⟨⟨.binary .nan, "nan".toList, items⟩, by rfl, by rfl, rfl, rfl⟩, by decide +kernel,
    by decide +kernel⟩

end

end FormLetter
