import Mathlib.Data.List.Forall2
import FormLetter.Proofs.Rewording

/-!
# The order of entries

The entries of a mapping have an order, which nothing should depend on.  Each stage of a merge asks
the data a few questions only, so it is enough to see that none of the answers shows the order.

* `LooksAlike` — two values that answer all these questions alike: which conditions hold, what the
  paths show, which segments name lists, and which keys the items of these have.  A merge cannot
  tell them apart (`LooksAlike.renderTree`).
* `Rearranged` — two values that are the same up to the order of the entries of their mappings, at
  any depth.
* **Access.** A path leads to a rearranged value, or fails for the same reason
  (`Rearranged.traverse`).  That holds of a single entry that matches a segment, since there is only
  one order for it, and of several ones, since reports list keys in the order of their texts.
-/

namespace FormLetter

/-! ## Outcomes in relation -/

/-- Two steps fail with the same error, or succeed with results in the given relation. -/
inductive Alike {ε α β : Type} (R : α → β → Prop) : Except ε α → Except ε β → Prop
  | error (e : ε) : Alike R (.error e) (.error e)
  | ok {a : α} {b : β} (h : R a b) : Alike R (.ok a) (.ok b)

namespace Alike

variable {ε α β γ δ : Type} {R : α → β → Prop} {S : γ → δ → Prop} {x : Except ε α} {y : Except ε β}

lemma bind {f : α → Except ε γ} {g : β → Except ε δ} (h : Alike R x y)
    (hnext : ∀ a b, R a b → Alike S (f a) (g b)) : Alike S (x >>= f) (y >>= g) := by
  cases h with
  | error e => exact .error e
  | ok h => exact hnext _ _ h

lemma map {f : α → γ} {g : β → δ} (h : Alike R x y) (hnext : ∀ a b, R a b → S (f a) (g b)) :
    Alike S (x.map f) (y.map g) := by
  cases h with
  | error e => exact .error e
  | ok h => exact .ok (hnext _ _ h)

/-- What does not tell related results apart goes on in the same way after both steps. -/
lemma bind_eq {f : α → Except ε γ} {g : β → Except ε γ} (h : Alike R x y)
    (hnext : ∀ a b, R a b → f a = g b) : (x >>= f) = (y >>= g) := by
  cases h with
  | error e => rfl
  | ok h => exact hnext _ _ h

end Alike

/-! ## Data that look alike -/

/-- The same segments match a key of both items. -/
def SameKeys (item item' : Value) : Prop := ∀ segment, hasKey item segment = hasKey item' segment

/-- Two lists that a segment can name: they have the same key, and items with the same keys. -/
def SameList (list list' : Key × List Value) : Prop :=
  list.1 = list'.1 ∧ List.Forall₂ SameKeys list.2 list'.2

/-- Two values that answer all questions of a merge alike. -/
structure LooksAlike (data data' : Value) : Prop where
  truth : ∀ path, isTruthy data path = isTruthy data' path
  shown : ∀ path, valueText data path = valueText data' path
  lists : ∀ segment, Option.Rel SameList (listNamed? data segment) (listNamed? data' segment)

/-- Two bindings of a row to lists that look alike. -/
structure RowBinding.Alike (binding binding' : RowBinding) : Prop where
  key : binding.key = binding'.key
  segment : binding.segment = binding'.segment
  items : List.Forall₂ SameKeys binding.items binding'.items

/-- The scopes of two items with the same keys at one position. -/
structure RowScope.Alike (scope scope' : RowScope) : Prop where
  segment : scope.segment = scope'.segment
  index : scope.index = scope'.index
  keys : SameKeys scope.item scope'.item

/-- What a placeholder is redirected to depends on the keys of the item. -/
lemma RowScope.Alike.token {scope scope' : RowScope} (h : scope.Alike scope') :
    scope.token = scope'.token := by
  have hresolve : ∀ path, scope.resolve path = scope'.resolve path := by
    intro path
    cases path with
    | nil => rfl
    | cons head rest => simp only [RowScope.resolve, h.segment, h.index, h.keys head]
  funext placeholder
  rw [RowScope.token, RowScope.token, hresolve]

lemma flatMap_eq_of_forall₂ {α β γ : Type} {f : α → List γ} {g : β → List γ} {as : List α}
    {bs : List β} (h : List.Forall₂ (fun a b => f a = g b) as bs) : as.flatMap f = bs.flatMap g := by
  induction h with
  | nil => rfl
  | cons hfirst _ ih => rw [List.flatMap_cons, List.flatMap_cons, hfirst, ih]

namespace RowBinding.Alike

variable {binding binding' : RowBinding} (h : binding.Alike binding')

include h

lemma scopes : List.Forall₂ RowScope.Alike binding.scopes binding'.scopes := by
  have hfrom : ∀ {items items' : List Value}, List.Forall₂ SameKeys items items' → ∀ start,
      List.Forall₂ RowScope.Alike
        ((items.zipIdx start).map fun entry => ⟨binding.segment, entry.1, entry.2⟩)
        ((items'.zipIdx start).map fun entry => ⟨binding'.segment, entry.1, entry.2⟩) := by
    intro items items' hitems
    induction hitems with
    | nil => exact fun _ => .nil
    | cons hfirst _ ih => exact fun start => .cons ⟨h.segment, rfl, hfirst⟩ (ih (start + 1))
  exact hfrom h.items 0

/-- Rows are repeated alike. -/
lemma repeatRows (rows : List Node) : repeatRows binding rows = repeatRows binding' rows := by
  have hcopies : (binding.scopes.flatMap fun scope => rows.map (bindRow scope))
      = binding'.scopes.flatMap fun scope => rows.map (bindRow scope) := by
    refine flatMap_eq_of_forall₂ (h.scopes.imp fun scope scope' hscope => ?_)
    show rows.map (bindRow scope) = rows.map (bindRow scope')
    rw [funext fun row => show bindRow scope row = bindRow scope' row by
      rw [bindRow, bindRow, hscope.token]]
  have haliases : (binding.scopes.flatMap fun scope => rows.flatMap (rowAliases scope))
      = binding'.scopes.flatMap fun scope => rows.flatMap (rowAliases scope) := by
    refine flatMap_eq_of_forall₂ (h.scopes.imp fun scope scope' hscope => ?_)
    show rows.flatMap (rowAliases scope) = rows.flatMap (rowAliases scope')
    rw [funext fun row => show rowAliases scope row = rowAliases scope' row by
      rw [rowAliases, rowAliases, hscope.token]]
  rw [FormLetter.repeatRows, FormLetter.repeatRows, hcopies, haliases]

end RowBinding.Alike

/-- Two open groups of the same rows, bound to lists that look alike. -/
def RowGroup.Alike : RowGroup → RowGroup → Prop :=
  Option.Rel fun group group' => group.1.Alike group'.1 ∧ group.2 = group'.2

lemma RowGroup.Alike.settleRows {group group' : RowGroup} (h : group.Alike group') :
    settleRows group = settleRows group' := by
  cases h with
  | none => rfl
  | @some pair pair' h =>
      obtain ⟨binding, rows⟩ := pair
      obtain ⟨binding', rows'⟩ := pair'
      obtain rfl : rows = rows' := h.2
      exact h.1.repeatRows rows

lemma distinctBindings_alike {bindings bindings' : List RowBinding}
    (h : List.Forall₂ RowBinding.Alike bindings bindings') :
    List.Forall₂ RowBinding.Alike (distinctBindings bindings) (distinctBindings bindings') := by
  induction h with
  | nil => exact .nil
  | cons hfirst _ ih =>
      rw [distinctBindings, distinctBindings]
      refine .cons hfirst (List.rel_filter (fun other other' hother => ?_) ih)
      dsimp only
      rw [hother.segment, hfirst.segment]

namespace LooksAlike

variable {data data' : Value}

section

variable (h : LooksAlike data data')

include h

lemma bindingOf? (segment : Text) :
    Option.Rel RowBinding.Alike (bindingOf? data segment) (bindingOf? data' segment) := by
  have hlists := h.lists segment
  rw [FormLetter.bindingOf?, FormLetter.bindingOf?]
  generalize listNamed? data segment = list at *
  generalize listNamed? data' segment = list' at *
  cases hlists with
  | none => exact .none
  | some hlist => exact .some ⟨hlist.1, rfl, hlist.2⟩

lemma rowBindings (row : Node) :
    List.Forall₂ RowBinding.Alike (rowBindings data row) (rowBindings data' row) := by
  refine distinctBindings_alike (List.rel_filterMap (R := Eq) ?_ (List.forall₂_refl _))
  rintro placeholder _ rfl
  exact h.bindingOf? _

/-- A row is bound to a list that looks alike, or draws on several lists of the same keys. -/
lemma analyzeRow (index : Nat) (row : Node) :
    Alike (Option.Rel RowBinding.Alike) (analyzeRow data index row)
      (analyzeRow data' index row) := by
  rw [FormLetter.analyzeRow, FormLetter.analyzeRow]
  have hbindings := h.rowBindings row
  have hkeys : (FormLetter.rowBindings data row).map (·.key.shown)
      = (FormLetter.rowBindings data' row).map (·.key.shown) := by
    refine List.forall₂_eq_eq_eq ▸ List.rel_map (fun binding binding' hb => ?_) hbindings
    rw [hb.key]
  generalize FormLetter.rowBindings data row = bindings at *
  generalize FormLetter.rowBindings data' row = bindings' at *
  cases hbindings with
  | nil => exact .ok .none
  | cons hfirst hrest =>
      cases hrest with
      | nil => exact .ok (.some hfirst)
      | cons _ _ =>
          simp only [hkeys]
          exact .error _

end

/-! ### Stages -/

mutual

/-- Tables are expanded alike. -/
theorem expandNode (h : LooksAlike data data') : ∀ node : Node,
    expandNode data node = FormLetter.expandNode data' node
  | .text _ => rfl
  | .element tag children => by
      rw [FormLetter.expandNode, FormLetter.expandNode, expandAll h children,
        expandRows h children 0 .none]

theorem expandAll (h : LooksAlike data data') :
    ∀ nodes : List Node, expandAll data nodes = FormLetter.expandAll data' nodes
  | [] => rfl
  | node :: rest => by
      rw [FormLetter.expandAll, FormLetter.expandAll, expandNode h node,
        expandAll h rest]

theorem expandRows (h : LooksAlike data data') :
    ∀ (nodes : List Node) (index : Nat) {group group' : RowGroup},
      group.Alike group' →
        expandRows data index group nodes = FormLetter.expandRows data' index group' nodes
  | [], _, _, _, hgroup => by
      rw [FormLetter.expandRows, FormLetter.expandRows, hgroup.settleRows]
  | node :: rest, index, group, group', hgroup => by
      have hnone : ∀ n, FormLetter.expandRows data n none rest
          = FormLetter.expandRows data' n none rest := fun n => expandRows h rest n .none
      have hsome : ∀ n {binding binding' : RowBinding} (rows : List Node),
          binding.Alike binding' → FormLetter.expandRows data n (some (binding, rows)) rest
            = FormLetter.expandRows data' n (some (binding', rows)) rest :=
        fun n _ _ rows hb => expandRows h rest n (.some ⟨hb, rfl⟩)
      rw [FormLetter.expandRows, FormLetter.expandRows, expandNode h node, hgroup.settleRows]
      simp only [hnone]
      split
      · refine (h.analyzeRow index node).bind_eq fun binding? binding?' hbinding => ?_
        cases hbinding with
        | none => rfl
        | some hbinding =>
            cases hgroup with
            | none => exact hsome _ _ hbinding
            | @some pair pair' hgroup =>
                obtain ⟨current, rows⟩ := pair
                obtain ⟨current', rows'⟩ := pair'
                obtain rfl : rows = rows' := hgroup.2
                have hkey : current.key = current'.key := hgroup.1.key
                simp only [hbinding.key, hkey, hsome _ _ hbinding,
                  hsome _ (rows ++ [node]) hgroup.1]
      · rfl

end

section

variable (h : LooksAlike data data')

include h

lemma fill (p : Piece) : p.fill data = p.fill data' := by
  cases p with
  | char c => rfl
  | token token =>
      obtain ⟨body, meaning⟩ := token
      cases meaning with
      | placeholder path => simp only [Piece.fill, h.shown]
      | opening path => rfl
      | alternative => rfl
      | closing => rfl

/-- Placeholders are filled in alike, and fail alike. -/
theorem fillTree (tree : Node) : fillTree tree data = FormLetter.fillTree tree data' := by
  have hfailures : failuresIn data = failuresIn data' := by
    funext t
    exact List.filterMap_congr fun p _ => by rw [h.fill]
  have hfilled : fillText data = fillText data' := by
    funext t
    simp only [fillText, hfailures, h.fill]
  rw [FormLetter.fillTree, FormLetter.fillTree, hfailures, hfilled]

/-- **A merge cannot tell data apart that look alike.** -/
theorem renderTree (tree : Node) (part : Option String) :
    renderTree tree data part = FormLetter.renderTree tree data' part := by
  have hsections := resolveSections_of_same_truth h.truth (joinRuns tree)
  have htables : ∀ resolved, expandTables resolved data = expandTables resolved data' :=
    fun resolved => by rw [expandTables, expandTables, h.expandNode]
  simp only [FormLetter.renderTree, mergeTree, hsections, htables, h.fillTree]

end

end LooksAlike

/-! ## Rearranged data -/

mutual

/-- Two values that differ at most in the order of the entries of mappings, at any depth: the
entries of a mapping are rearranged inside, and then taken in another order. -/
inductive Rearranged : Value → Value → Prop
  | refl (value : Value) : Rearranged value value
  | list {items items' : List Value} (h : List.Forall₂ Rearranged items items') :
      Rearranged (.list items) (.list items')
  | tuple {items items' : List Value} (h : List.Forall₂ Rearranged items items') :
      Rearranged (.tuple items) (.tuple items')
  | mapping {es fs gs : List (Key × Value)} (h : List.Forall₂ EntryRearranged es fs)
      (hperm : fs.Perm gs) : Rearranged (.mapping es) (.mapping gs)

/-- Two entries of one key with rearranged values. -/
inductive EntryRearranged : Key × Value → Key × Value → Prop
  | intro (key : Key) {value value' : Value} (h : Rearranged value value') :
      EntryRearranged (key, value) (key, value')

end

namespace EntryRearranged

lemma key {e f : Key × Value} (h : EntryRearranged e f) : e.1 = f.1 := by
  cases h
  rfl

lemma value {e f : Key × Value} (h : EntryRearranged e f) : Rearranged e.2 f.2 := by
  cases h
  assumption

variable {es fs : List (Key × Value)} (h : List.Forall₂ EntryRearranged es fs)

include h

lemma shownKeys : shownKeys es = FormLetter.shownKeys fs := by
  have hkeys : es.map (·.1.shown) = fs.map (·.1.shown) := by
    refine List.forall₂_eq_eq_eq ▸ List.rel_map (fun e f he => ?_) h
    rw [he.key]
  rw [FormLetter.shownKeys, FormLetter.shownKeys, hkeys]

/-- The same entries match a segment. -/
lemma matchingEntries (segment : Text) :
    List.Forall₂ EntryRearranged (matchingEntries es segment).1
        (FormLetter.matchingEntries fs segment).1
      ∧ List.Forall₂ EntryRearranged (FormLetter.matchingEntries es segment).2
        (FormLetter.matchingEntries fs segment).2 := by
  have hfound := List.rel_filter
    (p := fun entry : Key × Value => Text.sameFolded entry.1.shown segment)
    (q := fun entry : Key × Value => Text.sameFolded entry.1.shown segment)
    (fun e f he => by dsimp only; rw [he.key]) h
  exact ⟨List.rel_filter (fun e f he => by dsimp only; rw [he.key]) hfound,
    List.rel_filter (fun e f he => by dsimp only; rw [he.key]) hfound⟩

lemma lookup (segment : Text) (path : Path) :
    Alike EntryRearranged (lookup es segment path) (FormLetter.lookup fs segment path) := by
  obtain ⟨hsymbolic, htextual⟩ := matchingEntries h segment
  unfold FormLetter.lookup
  generalize FormLetter.matchingEntries es segment = found at *
  generalize FormLetter.matchingEntries fs segment = found' at *
  obtain ⟨symbolic, textual⟩ := found
  obtain ⟨symbolic', textual'⟩ := found'
  have hs := shownKeys hsymbolic
  have ht := shownKeys htextual
  simp only at hs ht hsymbolic htextual ⊢
  -- no entry, one entry or more of each flavour
  rcases hsymbolic with _ | ⟨he, _ | ⟨_, _⟩⟩ <;> rcases htextual with _ | ⟨hf, _ | ⟨_, _⟩⟩
  all_goals try simp only [hs, ht]
  all_goals first | exact .error _ | exact .ok (by assumption)

lemma findUnique? (segment : Text) :
    Option.Rel EntryRearranged (findUnique? es segment) (FormLetter.findUnique? fs segment) := by
  obtain ⟨hsymbolic, htextual⟩ := matchingEntries h segment
  unfold FormLetter.findUnique?
  generalize FormLetter.matchingEntries es segment = found at *
  generalize FormLetter.matchingEntries fs segment = found' at *
  have hall : List.Forall₂ EntryRearranged (found.1 ++ found.2) (found'.1 ++ found'.2) :=
    List.rel_append hsymbolic htextual
  simp only
  generalize found.1 ++ found.2 = entries at *
  generalize found'.1 ++ found'.2 = entries' at *
  rcases hall with _ | ⟨he, _ | ⟨_, _⟩⟩
  · exact .none
  · cases he with
    | intro key hvalue => cases key <;> first | exact .none | exact .some (.intro _ hvalue)
  · simp

end EntryRearranged

namespace Rearranged

lemma items {items items' : List Value} (h : List.Forall₂ Rearranged items items')
    (segment : Text) : Alike Rearranged (listMember items segment) (listMember items' segment) := by
  rw [listMember, listMember]
  cases listPosition segment with
  | error reason => exact .error reason
  | ok position =>
      rw [ok_bind, ok_bind, h.length_eq]
      rcases Nat.lt_or_ge position items.length with hlt | hge
      · have hlt' := h.length_eq ▸ hlt
        rw [List.getElem?_eq_getElem hlt, List.getElem?_eq_getElem hlt']
        exact .ok (by simpa using h.get hlt hlt')
      · rw [List.getElem?_eq_none hge, List.getElem?_eq_none (h.length_eq ▸ hge)]
        exact .error _

variable {data data' : Value} (h : Rearranged data data')

include h

lemma kind : data.kind = data'.kind := by
  cases h <;> rfl

lemma display : data.display = data'.display := by
  cases h <;> rfl

lemma truth? : data.truth? = data'.truth? := by
  cases h <;> rfl

/-- A segment leads to a rearranged value, or fails for the same reason. -/
lemma descend (path : Path) (segment : Text) :
    Alike Rearranged (descend path segment data) (FormLetter.descend path segment data') := by
  cases h with
  | refl =>
      cases FormLetter.descend path segment data with
      | error reason => exact .error reason
      | ok value => exact .ok (.refl value)
  | list h => exact items h segment
  | tuple h => exact items h segment
  | @mapping es fs gs h hperm =>
      have hlookup := EntryRearranged.lookup h segment path
      rw [lookup_perm (hperm.filter _) path] at hlookup
      exact hlookup.map fun _ _ he => he.value

omit h in
lemma traverseFrom (path : Path) : ∀ (segments : List Text) {data data' : Value},
    Rearranged data data' →
      Alike Rearranged (traverseFrom path segments data)
        (FormLetter.traverseFrom path segments data')
  | [], _, _, h => .ok h
  | segment :: rest, _, _, h =>
      (h.descend path segment).bind fun _ _ hnext => traverseFrom path rest hnext

/-- A path leads to a rearranged value, or fails for the same reason. -/
theorem traverse (path : Path) :
    Alike Rearranged (traverse data path) (FormLetter.traverse data' path) :=
  traverseFrom path path h

/-- The same keys match a segment, in whatever order they stand. -/
lemma sameKeys : SameKeys data data' := by
  intro segment
  cases h with
  | @mapping es fs gs h hperm =>
      have hkeys : es.map (·.1.shown) = fs.map (·.1.shown) := by
        refine List.forall₂_eq_eq_eq ▸ List.rel_map (fun e f he => ?_) h
        rw [he.key]
      have hany : ∀ entries : List (Key × Value), hasKey (.mapping entries) segment
          = (entries.map (·.1.shown)).any (Text.sameFolded · segment) := fun entries => by
        rw [hasKey, List.any_map]
        rfl
      rw [hany, hany, hkeys, (hperm.map _).any_eq]
  | _ => rfl

lemma listNamed? (segment : Text) :
    Option.Rel SameList (listNamed? data segment) (FormLetter.listNamed? data' segment) := by
  cases h with
  | @mapping es fs gs h hperm =>
      have hfound := EntryRearranged.findUnique? h segment
      rw [findUnique?_perm (hperm.filter _)] at hfound
      rw [FormLetter.listNamed?, FormLetter.listNamed?]
      generalize FormLetter.findUnique? es segment = found? at *
      generalize FormLetter.findUnique? gs segment = found?' at *
      cases hfound with
      | none => exact .none
      | some he =>
          rcases he with @⟨key, value, value', hvalue⟩
          cases hvalue with
          | list hitems => exact .some ⟨rfl, hitems.imp fun _ _ hi => hi.sameKeys⟩
          | tuple hitems => exact .some ⟨rfl, hitems.imp fun _ _ hi => hi.sameKeys⟩
          | mapping _ _ => exact .none
          | refl =>
              simp only
              cases value.items? with
              | none => exact .none
              | some items =>
                  exact .some ⟨rfl, List.forall₂_same.mpr fun _ _ _ => rfl⟩
  | refl =>
      cases FormLetter.listNamed? data segment with
      | none => exact .none
      | some list => exact .some ⟨rfl, List.forall₂_same.mpr fun _ _ _ => rfl⟩
  | list _ => exact .none
  | tuple _ => exact .none

theorem looksAlike : LooksAlike data data' := by
  refine ⟨fun path => ?_, fun path => ?_, h.listNamed?⟩
  · exact (h.traverse path).bind_eq fun _ _ hvalue => hvalue.truth?
  · cases path with
    | nil => rw [valueText, valueText, h.kind]
    | cons head rest => exact (h.traverse _).bind_eq fun _ _ hvalue => hvalue.display

end Rearranged

/-- **The order of entries never matters.**  Data that differ in the order of the entries of
mappings only, at whatever depth, merge with any template to the same document, or fail with the
same error in all its fields. -/
theorem renderTree_rearranged {data data' : Value} (h : Rearranged data data') (tree : Node)
    (part : Option String) : renderTree tree data part = renderTree tree data' part :=
  h.looksAlike.renderTree tree part

/-- Entries in another order at the top and in an item of a list, some of them ambiguous and some of
both flavours. -/
theorem renderTree_rearranged_ambiguous :
    let paragraph := fun t : String =>
      Node.element ⟨Word.paragraph, [], []⟩ [Word.makeRun t.toList none]
    let body := fun children => Node.element ⟨Word.named "body", [], []⟩ children
    let row := fun t => Node.element ⟨Word.row, [], []⟩ [paragraph t]
    let table := fun rows : List String => Node.element ⟨Word.table, [], []⟩ (rows.map row)
    let item : List (Key × Value) := [(.symbol ['x'], .int 1), (.text ['y'], .text ['b'])]
    let top := fun item => [((.text ['l'] : Key), Value.list [.mapping item]), (.truth true, .int 3),
      (.text ['k'], .int 1), (.text ['K'], .int 2), (.symbol ['s'], .null), (.text ['S'], .null)]
    let data : Value := .mapping (top item)
    let data' : Value := .mapping (top item.reverse).reverse
    let letter := body [table ["@l.x@@l.Y@"], paragraph "@if:true@three@endif@"]
    let unclear := body [table ["@l.x@@l.Y@@s@"], paragraph "@k@"]
    Rearranged data data'
      ∧ renderTree letter data none = .ok (body [table ["1b"], paragraph "three"])
      ∧ renderTree letter data none = renderTree letter data' none
      ∧ (renderTree unclear data none).isOk = false
      ∧ renderTree unclear data none = renderTree unclear data' none := by
  intro paragraph body row table item top data data' letter unclear
  have hitem : Rearranged (.mapping item) (.mapping item.reverse) :=
    .mapping (List.forall₂_same.mpr fun entry _ => .intro entry.1 (.refl _))
      (List.reverse_perm item).symm
  have hinside : List.Forall₂ EntryRearranged (top item) (top item.reverse) :=
    .cons (.intro _ (.list (.cons hitem .nil)))
      (List.forall₂_same.mpr fun entry _ => .intro entry.1 (.refl _))
  have h : Rearranged data data' := .mapping hinside (List.reverse_perm _).symm
  exact ⟨h, by decide +kernel, renderTree_rearranged h letter none, by decide +kernel,
    renderTree_rearranged h unclear none⟩

end FormLetter
