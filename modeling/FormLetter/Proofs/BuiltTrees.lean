import FormLetter.Proofs.Agreement
import FormLetter.Proofs.JoinedTrees
import FormLetter.Proofs.MergedTexts

/-!
# Trees with slots

A library for markup has slots for texts where document trees have text nodes. This module says what
a conversion keeps in either direction, and when a tree cannot be built.

* `mapTags_toNode` — a document tree shows what the slots hold, and of its tags what does not depend
  on where they stand.
* `plain_of_build` — a tree that has been built is the given one, resettled: references resolved,
  neighbouring texts joined, and the whole escaped.
* `hinders_of_build` — what hinders building: a tag, the digits of a reference, or a character.
  `build_succeeds_iff` — when nothing does.
-/

namespace FormLetter

/-! ## Trees with slots as document trees -/

namespace Branch

mutual

/-- A branch in a document tree, with its tags as they are. -/
def plain : Branch → List Node
  | .element tag text children tail =>
    .element tag (slotNodes text ++ plainAll children) :: slotNodes tail
  | .remark tail => slotNodes tail

/-- Several branches in a document tree. -/
def plainAll : List Branch → List Node
  | [] => []
  | branch :: rest => plain branch ++ plainAll rest

end

end Branch

/-- The document tree of a tree with slots, with its tags as they are. -/
def Etree.plain (e : Etree) : Node :=
  .element e.tag (slotNodes e.text ++ Branch.plainAll e.children)

/-- What is seen of a tag does not depend on where it stands. -/
def IgnoresScope (g : StartTag → StartTag) : Prop := ∀ around tag, g (tag.inside around) = g tag

lemma mapTagsOf_slotNodes (g : StartTag → StartTag) (slot : Option Text) :
    Node.mapTagsOf g (slotNodes slot) = slotNodes slot := by
  unfold slotNodes
  split <;> rfl

lemma slotNodes_some_getD (slot : Option Text) : slotNodes (some (slot.getD [])) = slotNodes slot :=
  rfl

mutual

lemma mapTags_nodes {g : StartTag → StartTag} (hg : IgnoresScope g) :
    ∀ (branch : Branch) (around : List Declaration),
      Node.mapTagsOf g (branch.nodes around) = (branch.seen g).plain
  | .element tag text children tail, around => by
      rw [Branch.nodes, Node.mapTagsOf, Node.mapTags, Node.mapTagsOf_append, mapTagsOf_slotNodes,
        mapTags_nodesOf hg children, mapTagsOf_slotNodes, hg, Branch.seen, Branch.plain,
        slotNodes_some_getD, slotNodes_some_getD]
  | .remark tail, around => by
      rw [Branch.nodes, mapTagsOf_slotNodes, Branch.seen, Branch.plain, slotNodes_some_getD]

lemma mapTags_nodesOf {g : StartTag → StartTag} (hg : IgnoresScope g) :
    ∀ (branches : List Branch) (around : List Declaration),
      Node.mapTagsOf g (Branch.nodesOf around branches) = Branch.plainAll (Branch.seenAll g branches)
  | [], _ => rfl
  | branch :: rest, around => by
      rw [Branch.nodesOf, Node.mapTagsOf_append, mapTags_nodes hg branch, mapTags_nodesOf hg rest,
        Branch.seenAll, Branch.plainAll]

end

/-- **What is seen of a tree decides what is seen of its document tree.** -/
theorem mapTags_toNode {g : StartTag → StartTag} (hg : IgnoresScope g) (e : Etree) :
    e.toNode.mapTags g = (e.seen g).plain := by
  rw [Etree.toNode, Node.mapTags, Node.mapTagsOf_append, mapTagsOf_slotNodes,
    mapTags_nodesOf hg e.children, hg, Etree.seen, Etree.plain, slotNodes_some_getD]

/-- The texts of a document tree are those of the slots, escaped. -/
lemma mem_texts_slotNodes {slot : Option Text} {t : Text} (h : t ∈ Node.textsOf (slotNodes slot)) :
    ∃ s ∈ slot.toList, t = escapeMarkup s := by
  unfold slotNodes at h
  cases slot with
  | none => simp [Node.textsOf] at h
  | some s =>
      cases s with
      | nil => simp [Node.textsOf] at h
      | cons c s => exact ⟨c :: s, by simp, by simpa [Node.textsOf, Node.texts] using h⟩

mutual

lemma mem_texts_nodes : ∀ {branch : Branch} {around : List Declaration} {t : Text},
    t ∈ Node.textsOf (branch.nodes around) → ∃ s ∈ branch.texts, t = escapeMarkup s
  | .element tag text children tail, around, t, h => by
      rw [Branch.nodes, Node.textsOf, Node.texts, textsOf_append, List.mem_append,
        List.mem_append] at h
      rw [Branch.texts]
      rcases h with (h | h) | h
      · obtain ⟨s, hs, rfl⟩ := mem_texts_slotNodes h
        exact ⟨s, by simp [Option.mem_toList.mp hs], rfl⟩
      · obtain ⟨s, hs, rfl⟩ := mem_texts_nodesOf h
        exact ⟨s, by simp [hs], rfl⟩
      · obtain ⟨s, hs, rfl⟩ := mem_texts_slotNodes h
        exact ⟨s, by simp [Option.mem_toList.mp hs], rfl⟩
  | .remark tail, around, t, h => mem_texts_slotNodes h

lemma mem_texts_nodesOf : ∀ {branches : List Branch} {around : List Declaration} {t : Text},
    t ∈ Node.textsOf (Branch.nodesOf around branches) →
      ∃ s ∈ Branch.textsOf branches, t = escapeMarkup s
  | [], around, t, h => by simp [Branch.nodesOf, Node.textsOf] at h
  | branch :: rest, around, t, h => by
      rw [Branch.nodesOf, textsOf_append, List.mem_append] at h
      rw [Branch.textsOf]
      rcases h with h | h
      · obtain ⟨s, hs, rfl⟩ := mem_texts_nodes h
        exact ⟨s, List.mem_append_left _ hs, rfl⟩
      · obtain ⟨s, hs, rfl⟩ := mem_texts_nodesOf h
        exact ⟨s, List.mem_append_right _ hs, rfl⟩

end

/-- **The texts of a document tree are escaped texts of slots.** -/
theorem mem_texts_toNode {e : Etree} {t : Text} (h : t ∈ e.toNode.texts) :
    ∃ s ∈ e.texts, t = escapeMarkup s := by
  rw [Etree.toNode, Node.texts, textsOf_append, List.mem_append] at h
  rw [Etree.texts]
  rcases h with h | h
  · obtain ⟨s, hs, rfl⟩ := mem_texts_slotNodes h
    exact ⟨s, List.mem_append_left _ hs, rfl⟩
  · obtain ⟨s, hs, rfl⟩ := mem_texts_nodesOf h
    exact ⟨s, List.mem_append_right _ hs, rfl⟩

/-! ## What is built -/

lemma Node.prepend_prepend (s t : Text) (nodes : List Node) :
    Node.prepend s (Node.prepend t nodes) = Node.prepend (s ++ t) nodes := by
  by_cases hs : s = []
  · rw [hs, Node.prepend_nil, List.nil_append]
  · by_cases ht : t = []
    · rw [ht, Node.prepend_nil, List.append_nil]
    · have hst : s ++ t ≠ [] := fun h => hs (List.append_eq_nil_iff.mp h).1
      rcases nodes with _ | ⟨u | ⟨tag, children⟩, rest⟩
      · rw [Node.prepend_of_ne_nil ht (by simp), Node.prepend_text hs,
          Node.prepend_of_ne_nil hst (by simp)]
      · rw [Node.prepend_text ht, Node.prepend_text hs, Node.prepend_text hst, List.append_assoc]
      · rw [Node.prepend_of_ne_nil ht (by simp), Node.prepend_text hs,
          Node.prepend_of_ne_nil hst (by simp)]

/-- A slot in front of trees that do not begin with a text. -/
lemma slotNodes_append (slot : Option Text) {nodes : List Node}
    (h : ∀ u rest, nodes ≠ .text u :: rest) :
    slotNodes slot ++ Node.mapTextOf escapeMarkup nodes
      = Node.mapTextOf escapeMarkup (Node.prepend (slot.getD []) nodes) := by
  unfold slotNodes
  split
  · next hnil => rw [hnil, Node.prepend_nil, List.nil_append]
  · next hne =>
      rw [Node.prepend_of_ne_nil hne h, Node.mapTextOf, Node.mapText, List.singleton_append]

/-- A tree as it can be read again: with its references resolved, and neighbouring texts joined and
then escaped. -/
def Node.resettled (tree : Node) : Node := (tree.mapText unescape).joined.mapText escapeMarkup

namespace XmlLibrary

variable {lib : XmlLibrary} {g : StartTag → StartTag}

/-- A text can be put into a slot: no reference of it has too many digits, and no character for which
it stands is refused. -/
def Admits (lib : XmlLibrary) (t : Text) : Prop :=
  referenceRefusal? t = none ∧ ∀ c ∈ unescape t, lib.textFault? [c] = none

lemma fill_eq_ok {slot : Option Text} {value text : Text} (h : lib.fill slot value = .ok text) :
    text = slot.getD [] ++ unescape value ∧ referenceRefusal? value = none
      ∧ lib.textFault? text = none := by
  unfold fill at h
  split at h
  · cases h
  · next hrefusal =>
      simp only at h
      split at h
      · cases h
      · next hfault =>
          obtain rfl := Except.ok.inj h
          exact ⟨rfl, hrefusal, hfault⟩

/-- An element can be built if its tag is accepted and its children can be built. -/
lemma build_eq_ok {tag : StartTag} {children : List Node} {built : Etree}
    (h : lib.build (.element tag children) = .ok built) :
    lib.tagFault? tag = none
      ∧ ∃ text branches, lib.buildAll none children = .ok (text, branches)
        ∧ built = ⟨tag.built, text, branches⟩ := by
  rw [build] at h
  split at h
  · cases h
  · next htag =>
      obtain ⟨⟨text, branches⟩, hall, h⟩ := bind_eq_ok.mp h
      exact ⟨htag, text, branches, hall, (Except.ok.inj h).symm⟩

lemma buildAll_text_eq_ok {slot text : Option Text} {value : Text} {rest : List Node}
    {branches : List Branch} (h : lib.buildAll slot (.text value :: rest) = .ok (text, branches)) :
    ∃ filled, lib.fill slot value = .ok filled
      ∧ lib.buildAll (some filled) rest = .ok (text, branches) :=
  bind_eq_ok.mp (show (lib.fill slot value >>= fun text => lib.buildAll (some text) rest) = _ from h)

lemma buildAll_element_eq_ok {slot text : Option Text} {tag : StartTag} {children rest : List Node}
    {branches : List Branch}
    (h : lib.buildAll slot (.element tag children :: rest) = .ok (text, branches)) :
    text = slot ∧ ∃ built tail others, lib.build (.element tag children) = .ok built
      ∧ lib.buildAll none rest = .ok (tail, others)
      ∧ branches = .element built.tag built.text built.children tail :: others := by
  rw [buildAll] at h
  obtain ⟨built, hbuilt, h⟩ := bind_eq_ok.mp h
  obtain ⟨⟨tail, others⟩, hrest, h⟩ := bind_eq_ok.mp h
  obtain ⟨rfl, rfl⟩ := Prod.mk.inj (Except.ok.inj h)
  exact ⟨rfl, built, tail, others, hbuilt, hrest, rfl⟩

mutual

/-- **A tree that has been built is the resettled tree,** but for what is not seen of its tags. -/
theorem plain_of_build : ∀ {node : Node} {built : Etree}, lib.build node = .ok built →
    (built.seen g).plain = (node.mapTags (g ∘ StartTag.built)).resettled
  | .text value, built, h => by cases h
  | .element tag children, built, h => by
      obtain ⟨-, text, branches, hall, rfl⟩ := build_eq_ok h
      have hinside := plainAll_of_buildAll hall
      rw [Option.getD_none, Node.prepend_nil] at hinside
      rw [Etree.seen, Etree.plain, slotNodes_some_getD, hinside, Node.resettled, Node.mapTags,
        Node.mapText, Node.joined, Node.mapText]
      rfl

theorem plainAll_of_buildAll : ∀ {nodes : List Node} {slot text : Option Text}
    {branches : List Branch}, lib.buildAll slot nodes = .ok (text, branches) →
      slotNodes text ++ Branch.plainAll (Branch.seenAll g branches)
        = Node.mapTextOf escapeMarkup (Node.prepend (slot.getD []) (Node.joinedAll
          (Node.mapTextOf unescape (Node.mapTagsOf (g ∘ StartTag.built) nodes))))
  | [], slot, text, branches, h => by
      obtain ⟨rfl, rfl⟩ := Prod.mk.inj (Except.ok.inj h)
      exact @slotNodes_append slot [] (by simp)
  | .text value :: rest, slot, text, branches, h => by
      obtain ⟨filled, hfill, h⟩ := buildAll_text_eq_ok h
      rw [plainAll_of_buildAll h, Option.getD_some, (fill_eq_ok hfill).1, Node.mapTagsOf,
        Node.mapTags, Node.mapTextOf, Node.mapText, Node.joinedAll, Node.prepend_prepend]
  | .element tag children :: rest, slot, text, branches, h => by
      obtain ⟨rfl, built, tail, others, hbuilt, hrest, rfl⟩ := buildAll_element_eq_ok h
      have hfirst := plain_of_build hbuilt
      have hothers := plainAll_of_buildAll hrest
      rw [Option.getD_none, Node.prepend_nil] at hothers
      rw [Node.mapTagsOf, Node.mapTags, Node.mapTextOf, Node.mapText, Node.joinedAll,
        ← slotNodes_append _ (by simp [Node.joined])]
      · change slotNodes text ++ ((built.seen g).plain
          :: (slotNodes tail ++ Branch.plainAll (Branch.seenAll g others))) = _
        rw [hfirst, hothers]
        rfl
      · exact fun _ heq => by cases heq

end

/-! ## What cannot be built -/

/-- What hinders building trees with these tags and texts. -/
inductive Hinders (lib : XmlLibrary) (tags : List StartTag) (texts : List Text) :
    ForeignError → Prop
  | tag {tag error} : tag ∈ tags → lib.tagFault? tag = some error → Hinders lib tags texts error
  | digits {t refusal} : t ∈ texts → referenceRefusal? t = some refusal →
      Hinders lib tags texts refusal.error
  | character {t c s error} : t ∈ texts → c ∈ unescape t → lib.textFault? [c] ≠ none →
      lib.textFault? s = some error → Hinders lib tags texts error

lemma Hinders.mono {tags tags' : List StartTag} {texts texts' : List Text} {error : ForeignError}
    (h : lib.Hinders tags texts error) (htags : tags ⊆ tags') (htexts : texts ⊆ texts') :
    lib.Hinders tags' texts' error := by
  cases h with
  | tag htag hfault => exact .tag (htags htag) hfault
  | digits ht hrefusal => exact .digits (htexts ht) hrefusal
  | character ht hc hfault hs => exact .character (htexts ht) hc hfault hs

/-- Filling a slot with accepted characters fails over the text that is put in. -/
lemma hinders_of_fill (hreads : lib.Reads) {slot : Option Text} {value : Text}
    {error : ForeignError} (hslot : lib.textFault? (slot.getD []) = none)
    (h : lib.fill slot value = .error error) : lib.Hinders [] [value] error := by
  unfold fill at h
  split at h
  · next refusal hrefusal =>
      obtain rfl := Except.error.inj h
      exact .digits (List.mem_singleton_self value) hrefusal
  · simp only at h
    split at h
    · next found hfault =>
        obtain rfl := Except.error.inj h
        have hrefused : ¬ ∀ c ∈ slot.getD [] ++ unescape value, lib.textFault? [c] = none :=
          fun hall => by rw [(hreads.refuses _).mpr hall] at hfault; cases hfault
        simp only [List.forall_mem_append, not_and, not_forall] at hrefused
        obtain ⟨c, hc, hfaulty⟩ := hrefused ((hreads.refuses _).mp hslot)
        exact .character (List.mem_singleton_self value) hc hfaulty hfault
    · cases h

mutual

/-- **Building fails over a tag, the digits of a reference, or a character.** -/
theorem hinders_of_build (hreads : lib.Reads) : ∀ {tag : StartTag} {children : List Node}
    {error : ForeignError}, lib.build (.element tag children) = .error error →
      lib.Hinders (tag :: Node.tagsOf children) (Node.textsOf children) error
  | tag, children, error, h => by
      rw [build] at h
      split at h
      · next hfault =>
          obtain rfl := Except.error.inj h
          exact .tag List.mem_cons_self hfault
      · rcases bind_eq_error.mp h with h | ⟨built, -, h⟩
        · have hempty : lib.textFault? (Option.getD none []) = none :=
            (hreads.refuses []).mpr (by simp)
          exact (hinders_of_buildAll hreads hempty h).mono (List.subset_cons_self tag _)
            (List.Subset.refl _)
        · cases h

theorem hinders_of_buildAll (hreads : lib.Reads) : ∀ {nodes : List Node} {slot : Option Text}
    {error : ForeignError}, lib.textFault? (slot.getD []) = none →
      lib.buildAll slot nodes = .error error →
        lib.Hinders (Node.tagsOf nodes) (Node.textsOf nodes) error
  | [], slot, error, _, h => by cases h
  | .text value :: rest, slot, error, hslot, h => by
      rcases bind_eq_error.mp (show (lib.fill slot value >>= fun text =>
        lib.buildAll (some text) rest) = _ from h) with h | ⟨filled, hfill, h⟩
      · exact (hinders_of_fill hreads hslot h).mono (List.nil_subset _)
          (List.cons_subset.mpr ⟨List.mem_cons_self, List.nil_subset _⟩)
      · have hfilled : lib.textFault? ((some filled).getD []) = none := (fill_eq_ok hfill).2.2
        exact (hinders_of_buildAll hreads hfilled h).mono (List.Subset.refl _)
          (List.subset_cons_self value _)
  | .element tag children :: rest, slot, error, hslot, h => by
      rw [buildAll] at h
      rcases bind_eq_error.mp h with h | ⟨built, -, h⟩
      · exact (hinders_of_build hreads h).mono (List.subset_append_left _ _)
          (List.subset_append_left _ _)
      · rcases bind_eq_error.mp h with h | ⟨others, -, h⟩
        · have hempty : lib.textFault? (Option.getD none []) = none :=
            (hreads.refuses []).mpr (by simp)
          exact (hinders_of_buildAll hreads hempty h).mono (List.subset_append_right _ _)
            (List.subset_append_right _ _)
        · cases h

end

mutual

lemma accepted_of_build (hreads : lib.Reads) : ∀ {tag : StartTag} {children : List Node}
    {built : Etree}, lib.build (.element tag children) = .ok built →
      (∀ tag' ∈ tag :: Node.tagsOf children, lib.tagFault? tag' = none)
        ∧ ∀ t ∈ Node.textsOf children, lib.Admits t
  | tag, children, built, h => by
      obtain ⟨htag, text, branches, hall, -⟩ := build_eq_ok h
      obtain ⟨htags, htexts⟩ := accepted_of_buildAll hreads hall
      exact ⟨List.forall_mem_cons.mpr ⟨htag, htags⟩, htexts⟩

lemma accepted_of_buildAll (hreads : lib.Reads) : ∀ {nodes : List Node} {slot text : Option Text}
    {branches : List Branch}, lib.buildAll slot nodes = .ok (text, branches) →
      (∀ tag ∈ Node.tagsOf nodes, lib.tagFault? tag = none)
        ∧ ∀ t ∈ Node.textsOf nodes, lib.Admits t
  | [], _, _, _, _ => ⟨by simp [Node.tagsOf], by simp [Node.textsOf]⟩
  | .text value :: rest, slot, text, branches, h => by
      obtain ⟨filled, hfill, h⟩ := buildAll_text_eq_ok h
      obtain ⟨rfl, hrefusal, hfault⟩ := fill_eq_ok hfill
      obtain ⟨htags, htexts⟩ := accepted_of_buildAll hreads h
      have hchars := (List.forall_mem_append.mp ((hreads.refuses _).mp hfault)).2
      exact ⟨htags, List.forall_mem_cons.mpr ⟨⟨hrefusal, hchars⟩, htexts⟩⟩
  | .element tag children :: rest, slot, text, branches, h => by
      obtain ⟨-, built, tail, others, hbuilt, hrest, -⟩ := buildAll_element_eq_ok h
      obtain ⟨htags, htexts⟩ := accepted_of_build hreads hbuilt
      obtain ⟨htags', htexts'⟩ := accepted_of_buildAll hreads hrest
      exact ⟨List.forall_mem_append.mpr ⟨htags, htags'⟩,
        List.forall_mem_append.mpr ⟨htexts, htexts'⟩⟩

end

/-- **A tree can be built exactly if its tags are accepted and its texts admitted.** -/
theorem build_succeeds_iff (hreads : lib.Reads) {tag : StartTag} {children : List Node} :
    (∃ built, lib.build (.element tag children) = .ok built)
      ↔ (∀ tag' ∈ tag :: Node.tagsOf children, lib.tagFault? tag' = none)
        ∧ ∀ t ∈ Node.textsOf children, lib.Admits t := by
  constructor
  · rintro ⟨built, h⟩
    exact accepted_of_build hreads h
  · rintro ⟨htags, htexts⟩
    cases hbuild : lib.build (.element tag children) with
    | ok built => exact ⟨built, rfl⟩
    | error error =>
        cases hinders_of_build hreads hbuild with
        | tag htag hfault => rw [htags _ htag] at hfault; cases hfault
        | digits ht hrefusal => rw [(htexts _ ht).1] at hrefusal; cases hrefusal
        | character ht hc hfault _ => exact absurd ((htexts _ ht).2 _ hc) hfault

end XmlLibrary

end FormLetter
