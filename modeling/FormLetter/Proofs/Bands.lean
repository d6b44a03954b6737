import Mathlib.Data.List.SplitBy
import FormLetter.Proofs.RequiredKeys

/-!
# Bands of rows

A table is expanded in one walk over its children, which keeps the template rows that it met last
until something ends their group.  Seen as a whole, the walk cuts the children into bands: a
child that is no template row stands alone, and neighbouring template rows of one list stand
together, as many as there are.  Each band is expanded by itself.

* `boundTo?` — the list that a child of a table is bound to, if it is a template row.
* `bands` — the children, cut between any two neighbours that are not bound to one list.  A
  group compares each row with its first one, a band compares neighbours; that comes to the same
  since keys that are one with a third key are one (`Key.same_trans`).
* `Key.same_self` — a key is one with itself, unless it is a number that is undefined.  Rows bound
  to a list under such a key therefore never share a band (`sharesList_iff`).
* `yieldsFrom_expandRows` — what the walk over a table leaves is what its bands yield, in order.
-/

namespace FormLetter

/-! ## Keys that are one -/

namespace Key

/-- A number is one with the numbers of its magnitude, unless it is undefined. -/
lemma same_of_magnitude {a b : Key} {x : Magnitude} (h : a.magnitude? = some x) :
    a.same b = true ↔ x ≠ .undefined ∧ b.magnitude? = some x := by
  have hsame : a.same b = (b.magnitude?.map x.same).getD false := by
    cases a with
    | text t => simp [Key.magnitude?] at h
    | symbol name => simp [Key.magnitude?] at h
    | null => simp [Key.magnitude?] at h
    | bytes bs => simp [Key.magnitude?] at h
    | tuple items => simp [Key.magnitude?] at h
    | _ =>
        -- numbers of all kinds are compared by the last clause of the definition
        rw [Key.same, h]
        · cases b.magnitude? <;> rfl
        all_goals simp
  rw [hsame]
  cases b.magnitude? with
  | none => simp
  | some y =>
      simp only [Option.map_some, Option.getD_some, Magnitude.same, Bool.and_eq_true, beq_iff_eq,
        bne_iff_ne, Option.some.injEq]
      exact ⟨fun ⟨heq, hne⟩ => ⟨hne, heq.symm⟩, fun ⟨hne, heq⟩ => ⟨heq.symm, hne⟩⟩

/-- A key is a number, a tuple, or one with itself and nothing else. -/
lemma cases_magnitude (a : Key) :
    (∃ x, a.magnitude? = some x) ∨ (∃ items, a = .tuple items)
      ∨ a.magnitude? = none ∧ ∀ b, a.same b = true ↔ a = b := by
  cases a with
  | truth v => exact Or.inl ⟨_, rfl⟩
  | int i => exact Or.inl ⟨_, rfl⟩
  | binary v => exact Or.inl (by cases v <;> exact ⟨_, rfl⟩)
  | decimal n => exact Or.inl (by cases n <;> exact ⟨_, rfl⟩)
  | tuple items => exact Or.inr (Or.inl ⟨items, rfl⟩)
  | _ =>
      refine Or.inr (Or.inr ⟨rfl, fun b => ?_⟩)
      cases b <;> simp [Key.same, Key.magnitude?]

lemma tuple_of_same {as : List Key} {b : Key} (h : (Key.tuple as).same b = true) :
    ∃ bs, b = .tuple bs ∧ sameAll as bs = true := by
  cases b with
  | tuple bs => exact ⟨bs, rfl, h⟩
  | _ => simp [Key.same, Key.magnitude?] at h

mutual

/-- Keys that are one are one in either order. -/
theorem same_symm : ∀ {a b : Key}, a.same b = true → b.same a = true
  | a, b, h => by
      rcases cases_magnitude a with ⟨x, hx⟩ | ⟨items, rfl⟩ | ⟨-, hself⟩
      · obtain ⟨hne, hb⟩ := (same_of_magnitude hx).mp h
        exact (same_of_magnitude hb).mpr ⟨hne, hx⟩
      · obtain ⟨bs, rfl, hall⟩ := tuple_of_same h
        exact sameAll_symm hall
      · obtain rfl := (hself b).mp h
        exact h

theorem sameAll_symm : ∀ {as bs : List Key}, sameAll as bs = true → sameAll bs as = true
  | [], [], _ => rfl
  | [], _ :: _, h => by simp [sameAll] at h
  | _ :: _, [], h => by simp [sameAll] at h
  | a :: as, b :: bs, h => by
      rw [sameAll, Bool.and_eq_true] at h ⊢
      exact ⟨same_symm h.1, sameAll_symm h.2⟩

end

mutual

theorem same_trans : ∀ {a b c : Key}, a.same b = true → b.same c = true → a.same c = true
  | a, b, c, hab, hbc => by
      rcases cases_magnitude a with ⟨x, hx⟩ | ⟨items, rfl⟩ | ⟨-, hself⟩
      · obtain ⟨hne, hb⟩ := (same_of_magnitude hx).mp hab
        exact (same_of_magnitude hx).mpr ((same_of_magnitude hb).mp hbc)
      · obtain ⟨bs, rfl, has⟩ := tuple_of_same hab
        obtain ⟨cs, rfl, hbs⟩ := tuple_of_same hbc
        exact sameAll_trans has hbs
      · obtain rfl := (hself b).mp hab
        exact hbc

theorem sameAll_trans : ∀ {as bs cs : List Key}, sameAll as bs = true → sameAll bs cs = true →
    sameAll as cs = true
  | [], [], [], _, _ => rfl
  | [], _ :: _, _, h, _ => by simp [sameAll] at h
  | _ :: _, [], _, h, _ => by simp [sameAll] at h
  | [], [], _ :: _, _, h => by simp [sameAll] at h
  | _ :: _, _ :: _, [], _, h => by simp [sameAll] at h
  | a :: as, b :: bs, c :: cs, hab, hbc => by
      rw [sameAll, Bool.and_eq_true] at hab hbc ⊢
      exact ⟨same_trans hab.1 hbc.1, sameAll_trans hab.2 hbc.2⟩

end

/-- A key that is no tuple is one with itself, unless it is a number that is undefined. -/
lemma same_self {a : Key} (h : ∀ items, a ≠ .tuple items) :
    a.same a = true ↔ a.magnitude? ≠ some .undefined := by
  rcases cases_magnitude a with ⟨x, hx⟩ | ⟨items, rfl⟩ | ⟨hnone, hself⟩
  · rw [same_of_magnitude hx, hx]
    simp
  · exact absurd rfl (h items)
  · rw [hself, hnone]
    simp

end Key

/-! ## What a child of a table is bound to -/

/-- The list that a child of a table is bound to, if it is a template row. -/
def boundTo? (data : Value) (child : Node) : Option RowBinding :=
  if child.isNamed Word.row then
    match analyzeRow data 0 child with
    | .ok binding? => binding?
    | .error _ => none
  else none

/-- Whether two children of a table are template rows of one list. -/
def sharesList (data : Value) (a b : Node) : Bool :=
  match boundTo? data a, boundTo? data b with
  | some x, some y => x.key.same y.key
  | _, _ => false

/-- The children of a table, cut wherever neighbours are not template rows of one list. -/
def bands (data : Value) (children : List Node) : List (List Node) :=
  children.splitBy (sharesList data)

section

variable {data : Value} {child : Node} {binding : RowBinding}

lemma boundTo?_of_analyzeRow {index : Nat} {binding? : Option RowBinding}
    (hrow : child.isNamed Word.row = true) (h : analyzeRow data index child = .ok binding?) :
    boundTo? data child = binding? := by
  rw [boundTo?, if_pos hrow]
  rw [analyzeRow] at h ⊢
  -- the number of a row shows in reports only
  split at h
  · exact Except.ok.inj h
  · exact Except.ok.inj h
  · simp at h

lemma boundTo?_of_not_row (h : child.isNamed Word.row = false) : boundTo? data child = none := by
  rw [boundTo?, h]
  rfl

lemma analyzeRow_of_boundTo? (h : boundTo? data child = some binding) :
    child.isNamed Word.row = true ∧ analyzeRow data 0 child = .ok (some binding) := by
  rw [boundTo?] at h
  split at h
  · next hrow =>
      refine ⟨hrow, ?_⟩
      split at h
      · next binding? heq => rw [heq, h]
      · simp at h
  · simp at h

/-- The key of a list matches the segment that names it. -/
lemma shown_of_listNamed? {segment : Text} {key : Key} {items : List Value}
    (h : listNamed? data segment = some (key, items)) :
    key.shown.foldCase = segment.foldCase := by
  cases data with
  | mapping entries =>
      simp only [listNamed?] at h
      split at h
      · next found value hfind =>
          obtain ⟨_, -, heq⟩ := Option.map_eq_some_iff.mp h
          obtain ⟨rfl, -⟩ := Prod.mk.inj heq
          have hmem : (found, value) ∈ matched entries segment := by
            rw [matched_of_findUnique? hfind]
            exact List.mem_cons_self
          exact sameFolded_iff.mp (List.mem_filter.mp hmem).2
      · simp at h
  | _ => simp [listNamed?] at h

/-- The copies of a row are made for the items of its list. -/
lemma within_of_boundTo? (h : boundTo? data child = some binding) {scope : RowScope}
    (hscope : scope ∈ binding.scopes) : scope.Within binding.key data :=
  within_of_mem_scopes (analyzeRow_of_boundTo? h).2 hscope

lemma getElem?_scopes (index : Nat) : binding.scopes[index]?
    = binding.items[index]?.map fun item => ⟨binding.segment, item, index⟩ := by
  rw [RowBinding.scopes, List.getElem?_map, List.getElem?_zipIdx]
  cases binding.items[index]? with
  | none => rfl
  | some item => simp

/-! ## Neighbours -/

lemma sharesList_of_unbound_left {other : Node} (h : boundTo? data child = none) :
    sharesList data child other = false := by
  rw [sharesList, h]

lemma sharesList_of_unbound_right {other : Node} (h : boundTo? data child = none) :
    sharesList data other child = false := by
  rw [sharesList, h]
  cases boundTo? data other <;> rfl

lemma sharesList_of_bound {other : Node} {binding' : RowBinding}
    (h : boundTo? data child = some binding) (h' : boundTo? data other = some binding') :
    sharesList data child other = binding.key.same binding'.key := by
  rw [sharesList, h, h']

/-- Only a parenthesis has a parenthesis for its lower case. -/
lemma eq_paren_of_toLower {c : Char} (h : c.toLower = '(') : c = '(' := by
  unfold Char.toLower at h
  split at h
  · next hupper =>
      have hlower := congrArg (·.val.toNat) h
      have hfirst := UInt32.le_iff_toNat_le.mp hupper.1
      have hlast := UInt32.le_iff_toNat_le.mp hupper.2
      simp [UInt32.toNat_add] at hlower hfirst hlast
      omega
  · exact h

/-- The key of a list that a row names is no tuple: tuples are shown between parentheses. -/
lemma ne_tuple_of_boundTo? (h : boundTo? data child = some binding) (items : List Key) :
    binding.key ≠ .tuple items := by
  intro htuple
  obtain ⟨hname, hlist⟩ := binding_of_analyzeRow (analyzeRow_of_boundTo? h).2
  have hfold : binding.key.shown.foldCase = binding.segment.foldCase := shown_of_listNamed? hlist
  rw [htuple, foldCase_of_isName hname] at hfold
  have hparen : '(' ∈ Text.lower binding.segment := by
    rw [← hfold]
    refine List.mem_flatMap.mpr ⟨'(', ?_, by decide +kernel⟩
    have hshown : (Key.tuple items).shown = tupleText (Key.literals items) := rfl
    rw [hshown]
    unfold tupleText
    split <;> exact List.mem_cons_self
  obtain ⟨c, hc, hlower⟩ := List.mem_map.mp hparen
  have hnameChar := isNameChar_of_isName hname hc
  rw [eq_paren_of_toLower hlower] at hnameChar
  exact absurd hnameChar (by decide)

/-- Two rows that are bound to a list under the same key share it, unless the key is a number that
is undefined. -/
theorem sharesList_iff {other : Node} {binding' : RowBinding}
    (h : boundTo? data child = some binding) (h' : boundTo? data other = some binding')
    (hkey : binding.key = binding'.key) :
    sharesList data child other = true ↔ binding.key.magnitude? ≠ some .undefined := by
  rw [sharesList_of_bound h h', ← hkey, Key.same_self (ne_tuple_of_boundTo? h)]

lemma sharesList_trans {a b c : Node} (hab : sharesList data a b = true)
    (hbc : sharesList data b c = true) : sharesList data a c = true := by
  cases ha : boundTo? data a with
  | none => simp [sharesList_of_unbound_left ha] at hab
  | some x =>
      cases hb : boundTo? data b with
      | none => simp [sharesList_of_unbound_left hb] at hbc
      | some y =>
          cases hc : boundTo? data c with
          | none => simp [sharesList_of_unbound_right hc] at hbc
          | some z =>
              rw [sharesList_of_bound ha hb] at hab
              rw [sharesList_of_bound hb hc] at hbc
              rw [sharesList_of_bound ha hc]
              exact Key.same_trans hab hbc

/-- All rows of a band are template rows of one list, not only neighbours. -/
theorem pairwise_of_mem_bands {children band : List Node} (h : band ∈ bands data children) :
    band.Pairwise fun a b => sharesList data a b = true := by
  have htrans : IsTrans Node fun a b => sharesList data a b = true :=
    ⟨fun _ _ _ => sharesList_trans⟩
  exact List.isChain_iff_pairwise.mp (List.isChain_of_mem_splitBy h)

/-- A child that is no template row stands alone. -/
lemma bands_unbound (h : boundTo? data child = none) (rest : List Node) :
    bands data (child :: rest) = [child] :: bands data rest := by
  refine List.splitBy_append (l := [child]) fun x hx y _ => ?_
  obtain rfl : child = x := by simpa using hx
  exact sharesList_of_unbound_left h

end

/-! ## Open groups -/

/-- The rows of a group. -/
def RowGroup.rows : RowGroup → List Node
  | none => []
  | some (_, rows) => rows

/-- The group is what the walk over a table keeps: its first row is bound to its list, and the
others to lists under keys that are one with the key of the first. -/
inductive RowGroup.IsBand (data : Value) : RowGroup → Prop
  | empty : IsBand data none
  | begun {binding : RowBinding} {first : Node} {rest : List Node}
      (hfirst : boundTo? data first = some binding)
      (hrest : ∀ row ∈ rest, ∃ other, boundTo? data row = some other
        ∧ other.key.same binding.key = true) :
      IsBand data (some (binding, first :: rest))

namespace RowGroup.IsBand

variable {data : Value} {group : RowGroup} {current binding : RowBinding} {rows : List Node}
  {row : Node}

lemma single (h : boundTo? data row = some binding) : IsBand data (some (binding, [row])) :=
  .begun h fun _ hrow => absurd hrow List.not_mem_nil

/-- A row whose key is one with that of the group prolongs it. -/
lemma concat (h : IsBand data (some (current, rows))) (hrow : boundTo? data row = some binding)
    (hsame : binding.key.same current.key = true) :
    IsBand data (some (current, rows ++ [row])) := by
  cases h with
  | @begun _ first rest hfirst hrest =>
      refine .begun hfirst fun other hother => ?_
      rcases List.mem_append.mp hother with hmem | hmem
      · exact hrest other hmem
      · rw [List.mem_singleton.mp hmem]
        exact ⟨binding, hrow, hsame⟩

/-- Any two rows of a group are template rows of one list. -/
lemma pairwise (h : group.IsBand data) :
    group.rows.Pairwise fun a b => sharesList data a b = true := by
  cases h with
  | empty => exact List.Pairwise.nil
  | begun hfirst hrest =>
      refine List.pairwise_cons.mpr ⟨fun row hrow => ?_, ?_⟩
      · obtain ⟨other, hother, hsame⟩ := hrest row hrow
        rw [sharesList_of_bound hfirst hother]
        exact Key.same_symm hsame
      · refine List.pairwise_of_forall_mem_list fun a ha b hb => ?_
        obtain ⟨x, hx, hxsame⟩ := hrest a ha
        obtain ⟨y, hy, hysame⟩ := hrest b hb
        rw [sharesList_of_bound hx hy]
        exact Key.same_trans hxsame (Key.same_symm hysame)

/-- A row whose key is not one with that of the group ends it. -/
lemma not_sharesList (h : IsBand data (some (current, rows)))
    (hrow : boundTo? data row = some binding) (hne : binding.key.same current.key = false) :
    ∀ last ∈ rows, sharesList data last row = false := by
  intro last hlast
  rw [Bool.eq_false_iff]
  intro hshares
  rw [← Bool.not_eq_true] at hne
  cases h with
  | begun hfirst hrest =>
      rcases List.mem_cons.mp hlast with rfl | hlast
      · rw [sharesList_of_bound hfirst hrow] at hshares
        exact hne (Key.same_symm hshares)
      · obtain ⟨other, hother, hsame⟩ := hrest last hlast
        rw [sharesList_of_bound hother hrow] at hshares
        exact hne (Key.same_trans (Key.same_symm hshares) hsame)

end RowGroup.IsBand

/-! ## What bands yield -/

/-- What a band yields: a child that is no template row its expansion, template rows their copies
for the items of the list that the first of them is bound to. -/
inductive BandYields (data : Value) : List Node → Expansion → Prop
  | single {child : Node} {part : Expansion} (h : boundTo? data child = none)
      (hpart : expandNode data child = .ok part) : BandYields data [child] part
  | rows {binding : RowBinding} {first : Node} {rest : List Node}
      (h : boundTo? data first = some binding) :
      BandYields data (first :: rest) (repeatRows binding (first :: rest))

lemma Expansion.append_assoc (a b c : Expansion) : a ++ b ++ c = a ++ (b ++ c) :=
  congrArg₂ Expansion.mk (List.append_assoc ..) (List.append_assoc ..)

/-- Several expansions one after another. -/
def Expansion.concat (parts : List Expansion) : Expansion :=
  ⟨parts.flatMap (·.nodes), parts.flatMap (·.aliases)⟩

lemma Expansion.concat_cons (part : Expansion) (parts : List Expansion) :
    concat (part :: parts) = part ++ concat parts := rfl

lemma Expansion.concat_append (parts others : List Expansion) :
    concat (parts ++ others) = concat parts ++ concat others := by
  simp only [concat, List.flatMap_append]
  rfl

/-- Several expansions that come to one after another. -/
lemma parts_of_expandAll {data : Value} {nodes : List Node} {expansion : Expansion}
    (h : expandAll data nodes = .ok expansion) :
    ∃ parts, List.Forall₂ (fun node part => expandNode data node = .ok part) nodes parts
      ∧ expansion = .concat parts := by
  induction nodes generalizing expansion with
  | nil => exact ⟨[], .nil, (Except.ok.inj h).symm⟩
  | cons node rest ih =>
      rw [expandAll] at h
      obtain ⟨first, hfirst, h⟩ := bind_eq_ok.mp h
      obtain ⟨others, hothers, h⟩ := bind_eq_ok.mp h
      obtain ⟨parts, hparts, rfl⟩ := ih hothers
      exact ⟨first :: parts, .cons hfirst hparts, (Except.ok.inj h).symm⟩

/-- The children from some row on yield these parts, before which the parts of the group come. -/
def YieldsFrom (data : Value) (group : RowGroup) (nodes : List Node) (expansion : Expansion) :
    Prop :=
  ∃ parts, List.Forall₂ (BandYields data) (bands data (group.rows ++ nodes)) parts
    ∧ expansion = .concat parts

section

variable {data : Value} {group : RowGroup}

/-- A group that is finished is a band by itself. -/
lemma yieldsFrom_nil (h : group.IsBand data) :
    YieldsFrom data group [] (settleRows group) := by
  rw [YieldsFrom, List.append_nil]
  have hchain := h.pairwise.isChain
  cases h with
  | empty => exact ⟨[], .nil, rfl⟩
  | @begun binding first rest hfirst _ =>
      refine ⟨[repeatRows binding (first :: rest)], ?_, by simp [Expansion.concat, settleRows]⟩
      rw [bands, RowGroup.rows, List.splitBy_of_isChain (List.cons_ne_nil _ _) hchain]
      exact .cons (.rows hfirst) .nil

/-- Where a group ends, what it leaves comes before what follows. -/
lemma yieldsFrom_ended {node : Node} {rest : List Node} {expansion : Expansion}
    (h : group.IsBand data) (hends : ∀ last ∈ group.rows, sharesList data last node = false)
    (hrest : YieldsFrom data none (node :: rest) expansion) :
    YieldsFrom data group (node :: rest) (settleRows group ++ expansion) := by
  obtain ⟨settled, hsettled, heq⟩ := yieldsFrom_nil h
  obtain ⟨parts, hparts, rfl⟩ := hrest
  refine ⟨settled ++ parts, ?_, by rw [heq, Expansion.concat_append]⟩
  rw [List.append_nil] at hsettled
  rw [bands, List.splitBy_append_cons rest fun last hlast =>
    hends last (List.mem_of_getLast? hlast)]
  exact List.rel_append hsettled hparts

/-- A child that is no template row stands between what comes before and what follows. -/
lemma yieldsFrom_single {child : Node} {rest : List Node} {inner others : Expansion}
    (h : group.IsBand data) (hchild : boundTo? data child = none)
    (hinner : expandNode data child = .ok inner) (hrest : YieldsFrom data none rest others) :
    YieldsFrom data group (child :: rest) (settleRows group ++ inner ++ others) := by
  rw [Expansion.append_assoc]
  refine yieldsFrom_ended h (fun last _ => sharesList_of_unbound_right hchild) ?_
  obtain ⟨parts, hparts, rfl⟩ := hrest
  refine ⟨inner :: parts, ?_, rfl⟩
  rw [RowGroup.rows, List.nil_append, bands_unbound hchild]
  exact .cons (.single hchild hinner) hparts

/-- **The walk over a table leaves what its bands yield,** in order. -/
theorem yieldsFrom_expandRows : ∀ (nodes : List Node) {index : Nat} {group : RowGroup}
    {expansion : Expansion}, expandRows data index group nodes = .ok expansion →
    group.IsBand data → YieldsFrom data group nodes expansion
  | [], index, group, expansion, h, hgroup => by
      rw [← Except.ok.inj h]
      exact yieldsFrom_nil hgroup
  | node :: rest, index, group, expansion, h, hgroup => by
      -- the group holds the rows just before `node`: there it ends, or grows, or one begins
      rw [expandRows] at h
      split at h
      · next hrow =>
          obtain ⟨binding?, hbound, h⟩ := bind_eq_ok.mp h
          have hnode := boundTo?_of_analyzeRow hrow hbound
          split at h
          · obtain ⟨inner, hinner, h⟩ := bind_eq_ok.mp h
            obtain ⟨others, hothers, h⟩ := bind_eq_ok.mp h
            rw [← Except.ok.inj h]
            exact yieldsFrom_single hgroup hnode hinner
              (yieldsFrom_expandRows rest hothers .empty)
          · next binding =>
              split at h
              · next current rows =>
                  split at h
                  · next hsame =>
                      have hyields := yieldsFrom_expandRows rest h (hgroup.concat hnode hsame)
                      simpa [YieldsFrom, RowGroup.rows] using hyields
                  · next hne =>
                      obtain ⟨others, hothers, h⟩ := bind_eq_ok.mp h
                      rw [← Except.ok.inj h]
                      exact yieldsFrom_ended hgroup
                        (hgroup.not_sharesList hnode (Bool.eq_false_iff.mpr hne))
                        (yieldsFrom_expandRows rest hothers (.single hnode))
              · exact yieldsFrom_expandRows rest h (.single hnode)
      · next hrow =>
          obtain ⟨inner, hinner, h⟩ := bind_eq_ok.mp h
          obtain ⟨others, hothers, h⟩ := bind_eq_ok.mp h
          rw [← Except.ok.inj h]
          exact yieldsFrom_single hgroup (boundTo?_of_not_row (Bool.eq_false_iff.mpr hrow)) hinner
            (yieldsFrom_expandRows rest hothers .empty)

end

end FormLetter
