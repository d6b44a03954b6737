import Mathlib.Data.List.Sort
import FormLetter.Proofs.FoundKeys
import FormLetter.Proofs.NestedTables

/-!
# Rows that mix lists

A row that draws on several lists has no meaning, and expansion refuses the tree for the first such
row that it comes to.  Rows are looked at one by one while what stands before them is being
expanded, tables in plain rows included; rows inside template rows are copied without being looked
at.  This file says which row is blamed without following that course.

* `LooksAt` — the rows of the tables outside template rows, each at its place and with its number in
  its table.  Places are compared as lists of numbers: this is document order, and a row comes
  before the rows inside it.
* `Walks` — the children of an element are gone through in order, up to the first that stops the
  expansion (`walks_expandNode`).
* `first_of_expandNode` — so a failure is over the first row in document order that mixes lists;
  `not_mixesLists_of_expandNode` — and where there is one, there is a failure.
* `expandTables_refuses_first` — both together, with the report that is given.
-/

namespace FormLetter

/-! ## Rows that are looked at -/

/-- The child of a table is a row that names one list. -/
def IsTemplateRow (data : Value) (child : Node) : Prop :=
  child.isNamed Word.row = true ∧ ∃! key, NamesList data child key

/-- Expansion looks at the row, which is a row of a table and not inside a template row, at its
place in the tree; `number` says how many rows of its table come before it. -/
inductive LooksAt (data : Value) : Node → Place → Nat → Node → Prop
  | row {tag : StartTag} {children : List Node} {k : Nat} {row : Node}
      (htable : tag.name = Word.table) (hat : children[k]? = some row)
      (hrow : row.isNamed Word.row = true) :
      LooksAt data (.element tag children) [k]
        ((children.take k).countP (Node.isNamed Word.row)) row
  | inside {tag : StartTag} {children : List Node} {k : Nat} {child row : Node} {place : Place}
      {number : Nat} (hat : children[k]? = some child)
      (hfree : tag.name = Word.table → ¬ IsTemplateRow data child)
      (h : LooksAt data child place number row) :
      LooksAt data (.element tag children) (k :: place) number row

namespace LooksAt

variable {data : Value} {tree row row' : Node} {place : Place} {number number' : Nat}

lemma place_ne_nil (h : LooksAt data tree place number row) : place ≠ [] := by
  cases h <;> simp

/-- The row stands at its place. -/
lemma at? (h : LooksAt data tree place number row) : tree.at? place = some row := by
  induction h with
  | row _ hat _ => rw [Node.at?, Node.children, hat]; rfl
  | inside hat _ _ ih => rw [Node.at?, Node.children, hat, Option.bind_some, ih]

/-- A row has one number. -/
lemma number_eq (h : LooksAt data tree place number row)
    (h' : LooksAt data tree place number' row') : number = number' := by
  induction h generalizing number' row' with
  | row htable hat hrow =>
      cases h' with
      | row => rfl
      | inside _ _ h' => exact absurd rfl h'.place_ne_nil
  | inside hat hfree h ih =>
      cases h' with
      | row => exact absurd rfl h.place_ne_nil
      | inside hat' _ h' =>
          obtain rfl := Option.some.inj (hat.symm.trans hat')
          exact ih h'

end LooksAt

/-- The row is the first in document order that is looked at and mixes lists. -/
structure IsFirstMixed (data : Value) (tree : Node) (place : Place) (number : Nat) (row : Node) :
    Prop where
  looksAt : LooksAt data tree place number row
  mixes : MixesLists data row
  first : ∀ place' number' row', LooksAt data tree place' number' row' → MixesLists data row' →
    ¬ place' < place

/-- There is one first row. -/
lemma IsFirstMixed.unique {data : Value} {tree row row' : Node} {place place' : Place}
    {number number' : Nat} (h : IsFirstMixed data tree place number row)
    (h' : IsFirstMixed data tree place' number' row') : number = number' ∧ row = row' := by
  obtain rfl : place = place' := List.le_antisymm
    (h.first _ _ _ h'.looksAt h'.mixes) (h'.first _ _ _ h.looksAt h.mixes)
  exact ⟨h.looksAt.number_eq h'.looksAt,
    Option.some.inj (h.looksAt.at?.symm.trans h'.looksAt.at?)⟩

/-! ## The keys of a report -/

/-- The texts are those of the keys of all lists that the row names, each once and in order. -/
structure ListsKeys (data : Value) (row : Node) (keys : List Text) : Prop where
  sorted : keys.Pairwise (· < ·)
  mem_iff : ∀ t, t ∈ keys ↔ ∃ key, NamesList data row key ∧ key.shown = t
  /-- No two of the keys have the same text. -/
  once : ∀ key key', NamesList data row key → NamesList data row key' → key.shown = key'.shown →
    key = key'

lemma ListsKeys.unique {data : Value} {row : Node} {keys keys' : List Text}
    (h : ListsKeys data row keys) (h' : ListsKeys data row keys') : keys = keys' :=
  h.sorted.eq_of_mem_iff h'.sorted fun t => by rw [h.mem_iff, h'.mem_iff]

/-- The keys of the bindings of a row, in order, are the keys of the lists that it names. -/
lemma listsKeys_rowBindings (data : Value) (row : Node) :
    ListsKeys data row (Text.ordered ((rowBindings data row).map (·.key.shown))) := by
  have hpairwise := pairwise_rowBindings data row
  have hmem : ∀ t, t ∈ Text.ordered ((rowBindings data row).map (·.key.shown))
      ↔ ∃ key, NamesList data row key ∧ key.shown = t := by
    intro t
    simp only [Text.ordered, List.mem_mergeSort, List.mem_map, ← exists_rowBinding_iff]
    constructor
    · rintro ⟨binding, hbinding, rfl⟩
      exact ⟨binding.key, ⟨binding, hbinding, rfl⟩, rfl⟩
    · rintro ⟨_, ⟨binding, hbinding, rfl⟩, rfl⟩
      exact ⟨binding, hbinding, rfl⟩
  refine ⟨?_, hmem, fun key key' hkey hkey' hshown => ?_⟩
  · refine pairwise_lt_ordered ?_
    rw [List.Nodup, List.pairwise_map]
    exact hpairwise.imp fun hne heq => hne (congrArg Text.foldCase heq)
  · obtain ⟨a, ha, rfl⟩ := exists_rowBinding_iff.mpr hkey
    obtain ⟨b, hb, rfl⟩ := exists_rowBinding_iff.mpr hkey'
    rcases pairwise_cases hpairwise ha hb with rfl | hne | hne
    · rfl
    · exact absurd (congrArg Text.foldCase hshown) hne
    · exact absurd (congrArg Text.foldCase hshown) (Ne.symm hne)

/-! ## What stops an expansion -/

/-- The child does not keep the expansion of an element from going on behind it: it is no row that
mixes lists, and if it is expanded at all, this succeeds. -/
structure LetsPass (data : Value) (tag : StartTag) (child : Node) : Prop where
  row : tag.name = Word.table → child.isNamed Word.row = true → ¬ MixesLists data child
  inside : (tag.name = Word.table → ¬ IsTemplateRow data child) →
    ∃ expansion, expandNode data child = .ok expansion

/-- The child stops the expansion of an element: it is a row that is refused, or something inside it
fails. -/
inductive Stops (data : Value) (tag : StartTag) (number : Nat) (child : Node) (cause : Cause) : Prop
  | row (htable : tag.name = Word.table) (hrow : child.isNamed Word.row = true)
      (h : analyzeRow data number child = .error cause)
  | inside (hrow : tag.name = Word.table → child.isNamed Word.row = true → ¬ MixesLists data child)
      (hfree : tag.name = Word.table → ¬ IsTemplateRow data child)
      (h : expandNode data child = .error cause)

/-- Some child stops the expansion of an element, and those before it let it pass; `number` rows
come before all of them. -/
def FirstStop (data : Value) (tag : StartTag) (number : Nat) (children : List Node)
    (cause : Cause) : Prop :=
  ∃ before child after, children = before ++ child :: after
    ∧ (∀ other ∈ before, LetsPass data tag other)
    ∧ Stops data tag (number + before.countP (Node.isNamed Word.row)) child cause

/-- What going through the children of an element may come to: all of them let it pass, or the first
that does not gives the cause. -/
def Walks (data : Value) (tag : StartTag) (number : Nat) (children : List Node) :
    Except Cause Expansion → Prop
  | .ok _ => ∀ child ∈ children, LetsPass data tag child
  | .error cause => FirstStop data tag number children cause

namespace Walks

variable {data : Value} {tag : StartTag} {number next : Nat} {child : Node}
  {children rest : List Node} {result : Except Cause Expansion}

lemma nil (expansion : Expansion) : Walks data tag number [] (.ok expansion) :=
  fun _ h => absurd h List.not_mem_nil

/-- What is done at a child either stops there or goes on. -/
lemma bind {α : Type} {x : Except Cause α} {f : α → Except Cause Expansion}
    (hstops : ∀ cause, x = .error cause → Stops data tag number child cause)
    (hgoes : ∀ a, x = .ok a → Walks data tag number (child :: rest) (f a)) :
    Walks data tag number (child :: rest) (x >>= f) := by
  cases hx : x with
  | ok a => exact hgoes a hx
  | error cause => exact ⟨[], child, rest, rfl, by simp, hstops cause hx⟩

/-- Behind a child that lets it pass the walk goes on with the rest. -/
lemma cons (hpass : LetsPass data tag child)
    (hnext : next = number + [child].countP (Node.isNamed Word.row))
    (h : Walks data tag next rest result) : Walks data tag number (child :: rest) result := by
  cases result with
  | ok expansion => exact List.forall_mem_cons.mpr ⟨hpass, h⟩
  | error cause =>
      obtain ⟨before, other, after, rfl, hbefore, hstops⟩ := h
      refine ⟨child :: before, other, after, rfl, List.forall_mem_cons.mpr ⟨hpass, hbefore⟩, ?_⟩
      rwa [hnext, Nat.add_assoc, ← List.countP_append] at hstops

/-- What is made of the expansion in the end does not matter. -/
lemma map (h : Walks data tag number children result) (f : Expansion → Expansion) :
    Walks data tag number children (result.map f) := by
  cases result <;> exact h

end Walks

section

variable {data : Value} {tag : StartTag} {number : Nat} {child : Node}

lemma not_mixesLists_of_analyzeRow {binding? : Option RowBinding}
    (h : analyzeRow data number child = .ok binding?) : ¬ MixesLists data child := by
  intro hmixes
  rw [analyzeRow_refuses_iff.mpr ⟨hmixes, rfl⟩] at h
  cases h

lemma not_isTemplateRow_of_analyzeRow (h : analyzeRow data number child = .ok none) :
    ¬ IsTemplateRow data child := by
  rintro ⟨-, key, hkey, -⟩
  exact analyzeRow_leaves_iff.mp h key hkey

/-- **An element that is no table is expanded child by child.** -/
lemma walks_expandAll (htag : tag.name ≠ Word.table) (number : Nat) (children : List Node) :
    Walks data tag number children (expandAll data children) := by
  induction children generalizing number with
  | nil => exact .nil _
  | cons child rest ih =>
      rw [expandAll]
      refine .bind (fun cause h => ?_) fun inner hinner => ?_
      · exact .inside (fun htable => absurd htable htag) (fun htable => absurd htable htag) h
      · exact .cons ⟨fun htable => absurd htable htag, fun _ => ⟨inner, hinner⟩⟩ rfl ((ih _).map _)

/-- **A table is expanded row by row,** whatever rows have been collected: each row is looked at
first, and then expanded if it names no list. -/
lemma walks_expandRows (htable : tag.name = Word.table) (index : Nat) (group : RowGroup)
    (children : List Node) :
    Walks data tag index children (expandRows data index group children) := by
  induction children generalizing index group with
  | nil => exact .nil _
  | cons child rest ih =>
      rw [expandRows]
      split
      · next hrow =>
          have hnext : index + 1 = index + [child].countP (Node.isNamed Word.row) := by
            rw [List.countP_singleton, if_pos hrow]
          refine .bind (fun cause h => .row htable hrow h) fun binding? hanalyzed => ?_
          have hplain := not_mixesLists_of_analyzeRow hanalyzed
          split
          · have hfree := not_isTemplateRow_of_analyzeRow hanalyzed
            refine .bind (fun cause h => .inside (fun _ _ => hplain) (fun _ => hfree) h)
              fun inner hinner => ?_
            exact .cons ⟨fun _ _ => hplain, fun _ => ⟨inner, hinner⟩⟩ hnext ((ih _ _).map _)
          · next binding =>
              have htemplate : IsTemplateRow data child :=
                ⟨hrow, analyzeRow_binds_iff.mp ⟨binding, hanalyzed⟩⟩
              have hpass : LetsPass data tag child :=
                ⟨fun _ _ => hplain, fun hfree => absurd htemplate (hfree htable)⟩
              split
              · split
                · exact .cons hpass hnext (ih _ _)
                · exact .cons hpass hnext ((ih _ _).map _)
              · exact .cons hpass hnext (ih _ _)
      · next hrow =>
          have hnext : index = index + [child].countP (Node.isNamed Word.row) := by
            rw [List.countP_singleton, if_neg hrow, Nat.add_zero]
          refine .bind (fun cause h => .inside (fun _ hnamed => absurd hnamed hrow)
            (fun _ htemplate => hrow htemplate.1) h) fun inner hinner => ?_
          exact .cons ⟨fun _ hnamed => absurd hnamed hrow, fun _ => ⟨inner, hinner⟩⟩ hnext
            ((ih _ _).map _)

lemma walks_expandNode (data : Value) (tag : StartTag) (children : List Node) :
    Walks data tag 0 children (expandNode data (.element tag children)) := by
  rw [expandNode]
  refine Walks.map ?_ _
  split
  · next htable => exact walks_expandRows (eq_of_beq htable) 0 none children
  · next hother => exact walks_expandAll (fun heq => hother (beq_iff_eq.mpr heq)) 0 children

end

section

variable {data : Value} {tag : StartTag} {children : List Node} {tree row : Node} {place : Place}
  {number : Nat}

/-- **An element fails over its first child that stops it.** -/
lemma firstStop_of_expandNode {cause : Cause}
    (h : expandNode data (.element tag children) = .error cause) :
    FirstStop data tag 0 children cause := by
  have hwalks := walks_expandNode data tag children
  rwa [h] at hwalks

/-- An element is expanded only if no child stops it. -/
lemma letsPass_of_expandNode {expansion : Expansion}
    (h : expandNode data (.element tag children) = .ok expansion) :
    ∀ child ∈ children, LetsPass data tag child := by
  have hwalks := walks_expandNode data tag children
  rwa [h] at hwalks

/-- **Where expansion succeeds, no row that it looks at mixes lists.** -/
lemma not_mixesLists_of_expandNode (h : LooksAt data tree place number row) :
    ∀ {expansion : Expansion}, expandNode data tree = .ok expansion → ¬ MixesLists data row := by
  induction h with
  | row htable hat hrow =>
      intro expansion hexpanded
      exact (letsPass_of_expandNode hexpanded _ (List.mem_of_getElem? hat)).row htable hrow
  | inside hat hfree _ ih =>
      intro expansion hexpanded
      obtain ⟨inner, hinner⟩ :=
        (letsPass_of_expandNode hexpanded _ (List.mem_of_getElem? hat)).inside hfree
      exact ih hinner

/-- No row at or inside a child that lets expansion pass mixes lists. -/
lemma LetsPass.not_mixesLists {k : Nat} {child : Node} (hpass : LetsPass data tag child)
    (hat : children[k]? = some child)
    (h : LooksAt data (.element tag children) (k :: place) number row) : ¬ MixesLists data row := by
  cases h with
  | row htable hat' hrow =>
      obtain rfl := Option.some.inj (hat.symm.trans hat')
      exact hpass.row htable hrow
  | inside hat' hfree h =>
      obtain rfl := Option.some.inj (hat.symm.trans hat')
      obtain ⟨inner, hinner⟩ := hpass.inside hfree
      exact not_mixesLists_of_expandNode h hinner

/-- A row that mixes lists is at or inside a child that does not let expansion pass. -/
lemma le_of_mixesLists {before rest : List Node}
    (hbefore : ∀ other ∈ before, LetsPass data tag other)
    (h : LooksAt data (.element tag (before ++ rest)) place number row)
    (hmixes : MixesLists data row) : ∃ k inner, place = k :: inner ∧ before.length ≤ k := by
  obtain ⟨k, inner, rfl⟩ := List.exists_cons_of_ne_nil h.place_ne_nil
  refine ⟨k, inner, rfl, Nat.le_of_not_lt fun hlt => ?_⟩
  have hat : (before ++ rest)[k]? = some before[k] := by
    rw [List.getElem?_append_left hlt, List.getElem?_eq_getElem hlt]
  exact (hbefore _ (List.getElem_mem hlt)).not_mixesLists hat h hmixes

end

/-- **Expansion fails over the first row in document order that mixes lists.** -/
theorem first_of_expandNode {data : Value} : ∀ (tree : Node) {cause : Cause},
    expandNode data tree = .error cause → ∃ place number row,
      IsFirstMixed data tree place number row ∧ analyzeRow data number row = .error cause := by
  refine Node.byChildren (fun value cause h => by simp [expandNode] at h) ?_
  intro tag children ih cause h
  obtain ⟨before, child, after, rfl, hbefore, hstops⟩ := firstStop_of_expandNode h
  have hat : (before ++ child :: after)[before.length]? = some child := by simp
  cases hstops with
  | row htable hrow hrefused =>
      have hlooks : LooksAt data _ _ _ _ := .row htable hat hrow
      rw [List.take_left, ← Nat.zero_add (before.countP _)] at hlooks
      refine ⟨_, _, _, ⟨hlooks, (analyzeRow_refuses_iff.mp hrefused).1, ?_⟩, hrefused⟩
      intro place' number' row' hlooks' hmixes' hlt
      obtain ⟨k, inner, rfl, hle⟩ := le_of_mixesLists hbefore hlooks' hmixes'
      rcases List.cons_lt_cons_iff.mp hlt with hk | ⟨-, hinner⟩
      · omega
      · exact List.not_lt_nil _ hinner
  | inside hplain hfree hinside =>
      obtain ⟨place, number, row, hfirst, hrefused⟩ := ih child (by simp) hinside
      refine ⟨_, _, _, ⟨.inside hat hfree hfirst.looksAt, hfirst.mixes, ?_⟩, hrefused⟩
      intro place' number' row' hlooks' hmixes' hlt
      obtain ⟨k, inner, rfl, hle⟩ := le_of_mixesLists hbefore hlooks' hmixes'
      rcases List.cons_lt_cons_iff.mp hlt with hk | ⟨rfl, hinner⟩
      · omega
      -- the other row is the child itself, which does not mix lists, or inside it, and not first
      · cases hlooks' with
        | row htable hat' hrow =>
            obtain rfl := Option.some.inj (hat.symm.trans hat')
            exact hplain htable hrow hmixes'
        | inside hat' _ hlooks' =>
            obtain rfl := Option.some.inj (hat.symm.trans hat')
            exact hfirst.first _ _ _ hlooks' hmixes' hinner

end FormLetter
