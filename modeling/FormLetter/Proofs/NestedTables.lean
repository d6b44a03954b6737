import FormLetter.Proofs.Expanded
import FormLetter.Proofs.Shown

/-!
# Tables inside tables

A table inside a row is reached by expansion only if the row is no template row.  Then it is
expanded like any other table, however deep it stands.  A template row is copied with everything
inside it, and so the rows of a table inside it stand in each copy once, with their placeholders
redirected like all others.  Rows of such a table that draw on a list of their own are not repeated
for its items.

* `Outside` — a node that is reached without entering a template row.
* `outside_expands` — such a node is expanded, and what it becomes stands in the result.
* `IsCopy.at?` — inside the copy of a row stand the copies of what stands in the row, at the same
  places.  `IsCopy.eq_of_keeps` — what names neither the list nor a key of the item is unchanged.
* `expandTables_nested` — both together.
-/

namespace FormLetter

/-! ## Places -/

lemma children_mapText (f : Text → Text) (node : Node) :
    (node.mapText f).children = node.children.map (Node.mapText f) := by
  cases node with
  | text value => rfl
  | element tag children => exact mapTextOf_eq_map f children

/-- Changing text moves nothing. -/
lemma Node.at?_mapText (f : Text → Text) (node : Node) (place : Place) :
    (node.mapText f).at? place = (node.at? place).map (Node.mapText f) := by
  induction place generalizing node with
  | nil => rfl
  | cons index rest ih =>
      rw [Node.at?, Node.at?, children_mapText, List.getElem?_map]
      cases node.children[index]? with
      | none => rfl
      | some child => exact ih child

lemma mem_texts_of_at? {node inner : Node} {place : Place} (h : node.at? place = some inner)
    {t : Text} (ht : t ∈ inner.texts) : t ∈ node.texts := by
  induction place generalizing node with
  | nil =>
      obtain rfl := Option.some.inj h
      exact ht
  | cons index rest ih =>
      obtain ⟨child, hchild, hinner⟩ := Option.bind_eq_some_iff.mp h
      cases node with
      | text value => simp [Node.children] at hchild
      | element tag children =>
          rw [Node.texts, textsOf_eq_flatMap]
          exact List.mem_flatMap.mpr ⟨child, List.mem_of_getElem? hchild, ih hinner⟩

/-! ## Inside copies -/

section

variable {scope : RowScope} {row copy : Node}

/-- Inside a copy stand copies, at the same places. -/
lemma IsCopy.at? (h : IsCopy scope row copy) {place : Place} {inner : Node}
    (hinner : row.at? place = some inner) :
    ∃ inner', copy.at? place = some inner' ∧ IsCopy scope inner inner' := by
  obtain ⟨f, rfl, hpieces⟩ := h
  refine ⟨inner.mapText f, ?_, f, rfl, fun t ht => hpieces t (mem_texts_of_at? hinner ht)⟩
  rw [Node.at?_mapText, hinner, Option.map_some]

/-- A copy has as many children, each of them a copy. -/
lemma IsCopy.length_children (h : IsCopy scope row copy) :
    copy.children.length = row.children.length := by
  obtain ⟨f, rfl, -⟩ := h
  rw [children_mapText, List.length_map]

/-- The node names neither the list of the scope nor a key of the item. -/
def RowScope.Keeps (scope : RowScope) (node : Node) : Prop :=
  ∀ t ∈ node.texts, ∀ p ∈ placeholders t,
    Text.sameFolded (p.path.headD []) scope.segment = false
      ∧ hasKey scope.item (p.path.headD []) = false

lemma resolve_of_keeps {path : Path}
    (hlist : Text.sameFolded (path.headD []) scope.segment = false)
    (hitem : hasKey scope.item (path.headD []) = false) : scope.resolve path = path := by
  cases path with
  | nil => rfl
  | cons head rest =>
      rw [List.headD_cons] at hlist hitem
      rw [RowScope.resolve, hlist, hitem]
      rfl

/-- A piece that asks for a path is a placeholder of the text. -/
lemma exists_placeholder_of_mem_pieces {t body : Text} {path : Path}
    (h : Piece.token ⟨body, .placeholder path⟩ ∈ pieces t) :
    ∃ p ∈ placeholders t, p.path = path := by
  have hpath : path ∈ (placeholders t).filterMap fun p => some p.path := by
    rw [filterMap_placeholders fun _ path => some path]
    exact List.mem_filterMap.mpr ⟨_, h, rfl⟩
  obtain ⟨p, hp, heq⟩ := List.mem_filterMap.mp hpath
  exact ⟨p, hp, Option.some.inj heq⟩

lemma map_redirect_of_resolve {t : Text}
    (h : ∀ p ∈ placeholders t, scope.resolve p.path = p.path) :
    (pieces t).map scope.redirect = pieces t := by
  rw [List.map_congr_left fun p hp => ?_, List.map_id]
  cases p with
  | char c => rfl
  | token token =>
      obtain ⟨body, meaning⟩ := token
      cases meaning with
      | placeholder path =>
          obtain ⟨q, hq, rfl⟩ := exists_placeholder_of_mem_pieces hp
          have hdotted := (dotted_of_placeholder (meaning_of_mem_pieces hp)).1
          simp only [RowScope.redirect, h q hq, hdotted, id]
      | opening path => rfl
      | alternative => rfl
      | closing => rfl

/-- What names neither the list nor a key of the item stands unchanged in the copy. -/
lemma IsCopy.eq_of_keeps (h : IsCopy scope row copy) (hkeeps : scope.Keeps row) : copy = row := by
  obtain ⟨f, rfl, hpieces⟩ := h
  have hsame : ∀ t ∈ row.texts, f t = id t := fun t ht => by
    have hresolve : ∀ p ∈ placeholders t, scope.resolve p.path = p.path := fun p hp =>
      resolve_of_keeps (hkeeps t ht p hp).1 (hkeeps t ht p hp).2
    rw [← spelled_pieces (f t), hpieces t ht, map_redirect_of_resolve hresolve, spelled_pieces]
    rfl
  rw [mapText_congr row hsame, mapText_id]

end

/-! ## Outside template rows -/

/-- The node stands in a tree and is reached without entering a template row. -/
inductive Outside (data : Value) : Node → Node → Prop
  | here (tree : Node) : Outside data tree tree
  | inside {tag : StartTag} {children : List Node} {child node : Node} (hmem : child ∈ children)
      (hfree : tag.name = Word.table → boundTo? data child = none) (h : Outside data child node) :
      Outside data (.element tag children) node

section

variable {data : Value} {tag : StartTag} {children band : List Node} {child node tree result : Node}

/-- A child that is no template row is all of its band. -/
lemma eq_singleton_of_mem_bands (h : band ∈ bands data children) (hchild : child ∈ band)
    (hnone : boundTo? data child = none) : band = [child] := by
  have hpairwise := pairwise_of_mem_bands h
  obtain ⟨before, after, rfl⟩ := List.append_of_mem hchild
  obtain ⟨-, hafter, hbefore⟩ := List.pairwise_append.mp hpairwise
  have hbeforeNil : before = [] := List.eq_nil_iff_forall_not_mem.mpr fun other hother => by
    have hshares := hbefore other hother child List.mem_cons_self
    rw [sharesList_of_unbound_right hnone] at hshares
    simp at hshares
  have hafterNil : after = [] := List.eq_nil_iff_forall_not_mem.mpr fun other hother => by
    have hshares := (List.pairwise_cons.mp hafter).1 other hother
    rw [sharesList_of_unbound_left hnone] at hshares
    simp at hshares
  rw [hbeforeNil, hafterNil, List.nil_append]

/-- Each member of a sequence has a counterpart in a corresponding one. -/
lemma exists_of_forall₂_left {α β : Type} {R : α → β → Prop} {l : List α} {m : List β}
    (h : List.Forall₂ R l m) {a : α} (ha : a ∈ l) : ∃ b ∈ m, R a b := by
  induction h with
  | nil => exact absurd ha List.not_mem_nil
  | cons hab _ ih =>
      rcases List.mem_cons.mp ha with rfl | ha
      · exact ⟨_, List.mem_cons_self, hab⟩
      · obtain ⟨b, hb, hr⟩ := ih ha
        exact ⟨b, List.mem_cons_of_mem _ hb, hr⟩

/-- A child of an expanded element that is no template row is expanded. -/
lemma exists_child_of_expands (h : Expands data (.element tag children) result)
    (hmem : child ∈ children) (hfree : tag.name = Word.table → boundTo? data child = none) :
    ∃ child' ∈ result.children, Expands data child child' := by
  cases h with
  | element hname hchildren => exact exists_of_forall₂_left hchildren hmem
  | @table _ _ parts hname hbands =>
      have hnone := hfree hname
      rw [← List.flatten_splitBy (sharesList data) children] at hmem
      obtain ⟨band, hband, hchild⟩ := List.mem_flatten.mp hmem
      obtain ⟨part, hpart, hexpands⟩ := exists_of_forall₂_left hbands hband
      rw [eq_singleton_of_mem_bands hband hchild hnone] at hexpands
      cases hexpands with
      | single _ hresult =>
          exact ⟨_, List.mem_flatten.mpr ⟨_, hpart, List.mem_singleton_self _⟩, hresult⟩
      | rows hbound =>
          rw [List.head?_cons, Option.bind_some, hnone] at hbound
          simp at hbound

/-- The children of a node stand at places. -/
lemma exists_place_of_mem (h : child ∈ node.children) {place : Place} {inner : Node}
    (hinner : child.at? place = some inner) : ∃ place, node.at? place = some inner := by
  obtain ⟨index, hindex⟩ := List.getElem?_of_mem h
  exact ⟨index :: place, by rw [Node.at?, hindex, Option.bind_some, hinner]⟩

/-- **What stands outside template rows is expanded,** at any depth. -/
theorem outside_expands (houtside : Outside data tree node) : ∀ {result : Node},
    Expands data tree result →
      ∃ place node', result.at? place = some node' ∧ Expands data node node' := by
  induction houtside with
  | here tree => exact fun {result} h => ⟨[], result, rfl, h⟩
  | inside hmem hfree _ ih =>
      intro result h
      obtain ⟨child', hchild', hexpands⟩ := exists_child_of_expands h hmem hfree
      obtain ⟨place, node', hplace, hnode⟩ := ih hexpands
      obtain ⟨place', hplace'⟩ := exists_place_of_mem hchild' hplace
      exact ⟨place', node', hplace', hnode⟩

/-- The copies of the rows of a band stand among the children of the expanded table. -/
lemma exists_copy_of_expands (h : Expands data (.element tag children) result)
    (htable : tag.name = Word.table) (hband : band ∈ bands data children) {binding : RowBinding}
    (hbound : band.head?.bind (boundTo? data) = some binding) {k : Nat} {item : Value}
    (hitem : binding.items[k]? = some item) {row : Node} (hrow : row ∈ band) :
    ∃ copy ∈ result.children, IsCopy ⟨binding.segment, item, k⟩ row copy := by
  cases h with
  | element hname _ => exact absurd htable hname
  | @table _ _ parts _ hbands =>
      obtain ⟨part, hpart, hexpands⟩ := exists_of_forall₂_left hbands hband
      cases hexpands with
      | single hnone _ =>
          rw [List.head?_cons, Option.bind_some, hnone] at hbound
          simp at hbound
      | rows hbound' _ hcopies =>
          obtain rfl := Option.some.inj (hbound'.symm.trans hbound)
          obtain ⟨j, hj⟩ := List.getElem?_of_mem hrow
          obtain ⟨copy, hcopy, hiscopy⟩ := hcopies k item hitem j row hj
          exact ⟨copy, List.mem_flatten.mpr ⟨part, hpart, List.mem_of_getElem? hcopy⟩, hiscopy⟩

end

/-! ## Whole trees -/

/-- **Tables are expanded down to the first template rows.**  What stands outside template rows,
such as a table in a plain row of a table, stands expanded somewhere in the result.  If it is a
table with template rows, then for each item of their list a copy of each row stands in the expanded
table.  Inside the copy everything is at its place, with as many children as before and with no more
than its placeholders redirected: a table inside a template row is not expanded, and rows of it that
name neither the list nor a key of the item are not even changed. -/
theorem expandTables_nested {tree result node : Node} {data : Value} {aliases : List Alias}
    (h : expandTables tree data = .ok (result, aliases)) (houtside : Outside data tree node) :
    ∃ place node', result.at? place = some node' ∧ Expands data node node'
      ∧ (node.isNamed Word.table = true → ∀ band ∈ bands data node.children, ∀ binding,
        band.head?.bind (boundTo? data) = some binding →
        ∀ k item, binding.items[k]? = some item → ∀ row ∈ band,
        ∃ copy ∈ node'.children, IsCopy ⟨binding.segment, item, k⟩ row copy
          ∧ ∀ inside inner, row.at? inside = some inner →
            ∃ inner', copy.at? inside = some inner'
              ∧ IsCopy ⟨binding.segment, item, k⟩ inner inner'
              ∧ inner'.children.length = inner.children.length
              ∧ (RowScope.Keeps ⟨binding.segment, item, k⟩ inner → inner' = inner)) := by
  obtain ⟨place, node', hplace, hexpands⟩ :=
    outside_expands houtside (expansion_of_expandTables h).2
  refine ⟨place, node', hplace, hexpands, ?_⟩
  intro htable band hband binding hbound k item hitem row hrow
  cases node with
  | text value => simp [Node.isNamed] at htable
  | element tag children =>
      obtain ⟨copy, hcopy, hiscopy⟩ :=
        exists_copy_of_expands hexpands (beq_iff_eq.mp htable) hband hbound hitem hrow
      refine ⟨copy, hcopy, hiscopy, fun inside inner hinner => ?_⟩
      obtain ⟨inner', hinner', hinnercopy⟩ := hiscopy.at? hinner
      exact ⟨inner', hinner', hinnercopy, hinnercopy.length_children, hinnercopy.eq_of_keeps⟩

theorem expandTables_nested_plain :
    let row : List Node → Node := .element ⟨Word.row, [], []⟩
    let table : List Node → Node := .element ⟨Word.table, [], []⟩
    let text : String → Node := fun s => .text s.toList
    let data : Value := .mapping [(.text ['l'], .list [.int 1, .int 2])]
    let node := table [row [text "@l@", table [row [text "@l@"], row [text "@m@"]]]]
    let tree := table [row [text "x", node]]
    let copy : String → Node := fun s =>
      row [text s, table [row [text s], row [text "@m@"]]]
    let result := table [row [text "x", table [copy "@l.0@", copy "@l.1@"]]]
    ∃ aliases, expandTables tree data = .ok (result, aliases) ∧ Outside data tree node
      ∧ ∃ place node', result.at? place = some node' ∧ Expands data node node'
        ∧ (node.isNamed Word.table = true → ∀ band ∈ bands data node.children, ∀ binding,
          band.head?.bind (boundTo? data) = some binding →
          ∀ k item, binding.items[k]? = some item → ∀ row ∈ band,
          ∃ copy ∈ node'.children, IsCopy ⟨binding.segment, item, k⟩ row copy
            ∧ ∀ inside inner, row.at? inside = some inner →
              ∃ inner', copy.at? inside = some inner'
                ∧ IsCopy ⟨binding.segment, item, k⟩ inner inner'
                ∧ inner'.children.length = inner.children.length
                ∧ (RowScope.Keeps ⟨binding.segment, item, k⟩ inner → inner' = inner)) := by
  intro row table text data node tree copy result
  have h : expandTables tree data = .ok (result, (sources data tree).flatMap Source.aliases) := by
    decide +kernel
  have houtside : Outside data tree node :=
    .inside (List.mem_singleton_self _) (fun _ => by rfl)
      (.inside (List.mem_cons_of_mem _ (List.mem_singleton_self _)) (fun hname => by
        exact absurd hname (by decide)) (.here node))
  exact ⟨_, h, houtside, expandTables_nested h houtside⟩

/-- The rows of a table inside a template row stand once in each copy, where those of a table inside
a plain row are repeated for the items of their own list. -/
theorem expandTables_keeps_nested_rows :
    let row : List Node → Node := .element ⟨Word.row, [], []⟩
    let table : List Node → Node := .element ⟨Word.table, [], []⟩
    let text : String → Node := fun s => .text s.toList
    let data : Value := .mapping
      [(.text "items".toList, .list [.mapping [(.text "name".toList, .text ['a'])]]),
        (.text "lines".toList, .list [.mapping [(.text "text".toList, .text ['p'])],
          .mapping [(.text "text".toList, .text ['q'])]])]
    let nested := table [row [text "@lines.text@"]]
    let repeated := table [row [text "@lines.0.text@"], row [text "@lines.1.text@"]]
    (expandTables (table [row [text "x", nested]]) data).map (·.1)
        = .ok (table [row [text "x", repeated]])
      ∧ (expandTables (table [row [text "@items.name@", nested]]) data).map (·.1)
        = .ok (table [row [text "@items.0.name@", nested]])
      ∧ (expandTables (table [row [text "@items.name@", nested]]) data).map (·.1)
        ≠ .ok (table [row [text "@items.0.name@", repeated]]) := by
  decide +kernel

end FormLetter
