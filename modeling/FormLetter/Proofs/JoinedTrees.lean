import FormLetter.Proofs.Verbatim

/-!
# Trees with their texts run together

Neighbouring texts of a tree become one text when it is written, and no text is not even an empty
one.

* `Node.joined` — the tree with neighbouring texts run together.  `Node.joined_joined` — there is
  nothing left to do after that.
* `Node.mapTags` — changes what tags say.  Joining does not look at tags (`Node.joined_mapTags`), nor
  into texts (`Node.joined_mapText`).
* `Node.same_iff` — trees that are the same differ in their declarations only.
* `Markup.tree` — markup as a tree.  `Markup.contents_joined` — the content of joined markup is the
  joined tree, escaped.
-/

namespace FormLetter

namespace Node

/-! ## Joining -/

/-- Text in front of trees; it runs into a text that stands first. -/
def prepend (t : Text) (nodes : List Node) : List Node :=
  if t.isEmpty then nodes
  else
    match nodes with
    | .text u :: rest => .text (t ++ u) :: rest
    | _ => .text t :: nodes

mutual

/-- The tree with neighbouring texts inside its elements run together. -/
def joined : Node → Node
  | .text t => .text t
  | .element tag children => .element tag (joinedAll children)

/-- Neighbouring trees with all neighbouring texts run together. -/
def joinedAll : List Node → List Node
  | [] => []
  | .text t :: rest => prepend t (joinedAll rest)
  | first :: rest => joined first :: joinedAll rest

end

mutual

/-- No texts are neighbours inside the elements of the tree, and none is empty. -/
def IsJoined : Node → Prop
  | .text _ => True
  | .element _ children => AreJoined children

/-- The same for neighbouring trees, which are no neighbouring texts either. -/
def AreJoined : List Node → Prop
  | [] => True
  | .text t :: rest => t ≠ [] ∧ (∀ u others, rest ≠ .text u :: others) ∧ AreJoined rest
  | first :: rest => IsJoined first ∧ AreJoined rest

end

@[simp] lemma prepend_nil (nodes : List Node) : prepend [] nodes = nodes := rfl

lemma prepend_of_ne_nil {t : Text} (ht : t ≠ []) {nodes : List Node}
    (h : ∀ u rest, nodes ≠ .text u :: rest) : prepend t nodes = .text t :: nodes := by
  match nodes with
  | [] => exact if_neg (by simpa using ht)
  | .text u :: rest => exact absurd rfl (h u rest)
  | .element .. :: rest => exact if_neg (by simpa using ht)

lemma prepend_text {t : Text} (ht : t ≠ []) (u : Text) (rest : List Node) :
    prepend t (.text u :: rest) = .text (t ++ u) :: rest :=
  if_neg (by simpa using ht)

lemma areJoined_prepend (t : Text) : ∀ {nodes : List Node}, AreJoined nodes →
    AreJoined (prepend t nodes) := by
  intro nodes h
  by_cases ht : t = []
  · rwa [ht, prepend_nil]
  · match nodes, h with
    | [], h =>
        rw [prepend_of_ne_nil ht (by simp)]
        exact ⟨ht, by simp, trivial⟩
    | .text u :: rest, h =>
        rw [prepend_text ht]
        exact ⟨by simp [ht], h.2⟩
    | .element tag children :: rest, h =>
        rw [prepend_of_ne_nil ht (by simp)]
        exact ⟨ht, by simp, h⟩

mutual

/-- Joining leaves nothing to join. -/
theorem isJoined_joined : ∀ node : Node, IsJoined (joined node)
  | .text _ => trivial
  | .element _ children => areJoined_joinedAll children

theorem areJoined_joinedAll : ∀ nodes : List Node, AreJoined (joinedAll nodes)
  | [] => trivial
  | .text t :: rest => areJoined_prepend t (areJoined_joinedAll rest)
  | .element tag children :: rest =>
      ⟨isJoined_joined (.element tag children), areJoined_joinedAll rest⟩

end

mutual

/-- Where there is nothing to join, joining changes nothing. -/
theorem joined_of_isJoined : ∀ {node : Node}, IsJoined node → joined node = node
  | .text _, _ => rfl
  | .element tag children, h => by rw [joined, joinedAll_of_areJoined h]

theorem joinedAll_of_areJoined : ∀ {nodes : List Node}, AreJoined nodes → joinedAll nodes = nodes
  | [], _ => rfl
  | .text t :: rest, h => by
      rw [joinedAll, joinedAll_of_areJoined h.2.2, prepend_of_ne_nil h.1 h.2.1]
  | .element tag children :: rest, h => by
      rw [joinedAll, joined_of_isJoined h.1, joinedAll_of_areJoined h.2]
      exact fun _ heq => by cases heq

end

theorem joined_joined (node : Node) : joined (joined node) = joined node :=
  joined_of_isJoined (isJoined_joined node)

/-! ## Changing texts -/

/-- A change of texts that changes them bit by bit and takes nothing away. -/
structure IsBitwise (f : Text → Text) : Prop where
  append : ∀ t u, f (t ++ u) = f t ++ f u
  eq_nil_iff : ∀ t, f t = [] ↔ t = []

variable {f : Text → Text}

lemma prepend_mapTextOf (hf : IsBitwise f) (t : Text) (nodes : List Node) :
    prepend (f t) (mapTextOf f nodes) = mapTextOf f (prepend t nodes) := by
  by_cases ht : t = []
  · rw [ht, (hf.eq_nil_iff []).mpr rfl, prepend_nil, prepend_nil]
  · have hft : f t ≠ [] := fun heq => ht ((hf.eq_nil_iff t).mp heq)
    match nodes with
    | [] =>
        rw [mapTextOf, prepend_of_ne_nil hft (by simp), prepend_of_ne_nil ht (by simp)]
        rfl
    | .text u :: rest =>
        rw [mapTextOf, mapText, prepend_text hft, prepend_text ht, mapTextOf, mapText, hf.append]
    | .element tag children :: rest =>
        rw [mapTextOf, mapText, prepend_of_ne_nil hft (by simp), prepend_of_ne_nil ht (by simp)]
        rfl

mutual

/-- Texts can be changed before or after they are joined. -/
theorem joined_mapText (hf : IsBitwise f) : ∀ node : Node,
    joined (mapText f node) = mapText f (joined node)
  | .text _ => rfl
  | .element tag children => by
      rw [mapText, joined, joinedAll_mapTextOf hf children, joined, mapText]

theorem joinedAll_mapTextOf (hf : IsBitwise f) : ∀ nodes : List Node,
    joinedAll (mapTextOf f nodes) = mapTextOf f (joinedAll nodes)
  | [] => rfl
  | .text t :: rest => by
      rw [mapTextOf, mapText, joinedAll, joinedAll_mapTextOf hf rest, joinedAll,
        prepend_mapTextOf hf]
  | .element tag children :: rest => by
      have hfirst := joined_mapText hf (.element tag children)
      rw [mapText] at hfirst
      rw [mapTextOf, mapText, joinedAll, hfirst, joinedAll_mapTextOf hf rest, joinedAll, mapTextOf]
      all_goals exact fun _ heq => by cases heq

end

/-! ## Changing tags -/

mutual

/-- The tree with every tag changed by `g`. -/
def mapTags (g : StartTag → StartTag) : Node → Node
  | .text value => .text value
  | .element tag children => .element (g tag) (mapTagsOf g children)

/-- Several trees with every tag changed by `g`. -/
def mapTagsOf (g : StartTag → StartTag) : List Node → List Node
  | [] => []
  | node :: rest => mapTags g node :: mapTagsOf g rest

end

variable {g : StartTag → StartTag}

lemma mapTagsOf_append (nodes others : List Node) :
    mapTagsOf g (nodes ++ others) = mapTagsOf g nodes ++ mapTagsOf g others := by
  induction nodes with
  | nil => rfl
  | cons node rest ih => rw [List.cons_append, mapTagsOf, ih, mapTagsOf, List.cons_append]

lemma prepend_mapTagsOf (t : Text) (nodes : List Node) :
    prepend t (mapTagsOf g nodes) = mapTagsOf g (prepend t nodes) := by
  by_cases ht : t = []
  · rw [ht, prepend_nil, prepend_nil]
  · match nodes with
    | [] =>
        rw [mapTagsOf, prepend_of_ne_nil ht (by simp)]
        rfl
    | .text u :: rest =>
        rw [mapTagsOf, mapTags, prepend_text ht, prepend_text ht, mapTagsOf, mapTags]
    | .element tag children :: rest =>
        rw [mapTagsOf, mapTags, prepend_of_ne_nil ht (by simp), prepend_of_ne_nil ht (by simp)]
        rfl

mutual

/-- Joining does not look at tags. -/
theorem joined_mapTags : ∀ node : Node, joined (mapTags g node) = mapTags g (joined node)
  | .text _ => rfl
  | .element tag children => by
      rw [mapTags, joined, joinedAll_mapTagsOf children, joined, mapTags]

theorem joinedAll_mapTagsOf : ∀ nodes : List Node,
    joinedAll (mapTagsOf g nodes) = mapTagsOf g (joinedAll nodes)
  | [] => rfl
  | .text t :: rest => by
      rw [mapTagsOf, mapTags, joinedAll, joinedAll_mapTagsOf rest, joinedAll, prepend_mapTagsOf]
  | .element tag children :: rest => by
      have hfirst := joined_mapTags (.element tag children)
      rw [mapTags] at hfirst
      rw [mapTagsOf, mapTags, joinedAll, hfirst, joinedAll_mapTagsOf rest, joinedAll, mapTagsOf]
      all_goals exact fun _ heq => by cases heq

end

mutual

/-- Tags and texts can be changed in any order. -/
theorem mapTags_mapText : ∀ node : Node, mapTags g (mapText f node) = mapText f (mapTags g node)
  | .text _ => rfl
  | .element tag children => by
      rw [mapText, mapTags, mapTagsOf_mapTextOf children, mapTags, mapText]

theorem mapTagsOf_mapTextOf : ∀ nodes : List Node,
    mapTagsOf g (mapTextOf f nodes) = mapTextOf f (mapTagsOf g nodes)
  | [] => rfl
  | node :: rest => by
      rw [mapTextOf, mapTagsOf, mapTags_mapText node, mapTagsOf_mapTextOf rest, mapTagsOf, mapTextOf]

end

lemma tagsOf_prepend (t : Text) (nodes : List Node) : tagsOf (prepend t nodes) = tagsOf nodes := by
  by_cases ht : t = []
  · rw [ht, prepend_nil]
  · match nodes with
    | [] =>
        rw [prepend_of_ne_nil ht (by simp)]
        rfl
    | .text u :: rest =>
        rw [prepend_text ht]
        rfl
    | .element tag children :: rest =>
        rw [prepend_of_ne_nil ht (by simp)]
        rfl

mutual

/-- Joining changes no tag. -/
theorem tags_joined : ∀ node : Node, (joined node).tags = node.tags
  | .text _ => rfl
  | .element tag children => by rw [joined, tags, tagsOf_joinedAll children, tags]

theorem tagsOf_joinedAll : ∀ nodes : List Node, tagsOf (joinedAll nodes) = tagsOf nodes
  | [] => rfl
  | .text t :: rest => by
      rw [joinedAll, tagsOf_prepend, tagsOf_joinedAll rest, tagsOf, tags, List.nil_append]
  | .element tag children :: rest => by
      have hfirst := tags_joined (.element tag children)
      rw [joinedAll, tagsOf, hfirst, tagsOf_joinedAll rest, tagsOf]
      exact fun _ heq => by cases heq

end

mutual

theorem tags_mapTags : ∀ node : Node, (mapTags g node).tags = node.tags.map g
  | .text _ => rfl
  | .element tag children => by
      rw [mapTags, tags, tagsOf_mapTagsOf children, tags, List.map_cons]

theorem tagsOf_mapTagsOf : ∀ nodes : List Node, tagsOf (mapTagsOf g nodes) = (tagsOf nodes).map g
  | [] => rfl
  | node :: rest => by
      rw [mapTagsOf, tagsOf, tags_mapTags node, tagsOf_mapTagsOf rest, tagsOf, List.map_append]

end

/-- A tag without its declarations. -/
def undeclared (tag : StartTag) : StartTag := { tag with declarations := [] }

mutual

/-- **Trees are the same if they differ in declarations only.** -/
theorem same_iff : ∀ {a b : Node}, same a b = true ↔ mapTags undeclared a = mapTags undeclared b
  | .text _, .text _ => by simp [same, mapTags]
  | .element s as, .element t bs => by
      simp only [same, mapTags, undeclared, Bool.and_eq_true, beq_iff_eq, sameAll_iff,
        Node.element.injEq, StartTag.mk.injEq, and_true]
  | .text _, .element .. => by simp [same, mapTags]
  | .element .., .text _ => by simp [same, mapTags]

theorem sameAll_iff : ∀ {as bs : List Node},
    sameAll as bs = true ↔ mapTagsOf undeclared as = mapTagsOf undeclared bs
  | [], [] => by simp [sameAll]
  | a :: as, b :: bs => by
      simp only [sameAll, mapTagsOf, Bool.and_eq_true, List.cons.injEq, same_iff, sameAll_iff]
  | [], _ :: _ => by simp [sameAll, mapTagsOf]
  | _ :: _, [] => by simp [sameAll, mapTagsOf]

end

end Node

/-! ## Escaping -/

lemma isBitwise_escapeMarkup : Node.IsBitwise escapeMarkup where
  append _ _ := List.flatMap_append
  eq_nil_iff t := by
    cases t with
    | nil => simp [escapeMarkup]
    | cons c t =>
        rw [escapeMarkup_eq_flatMap, List.flatMap_cons]
        rcases escapeMarkup_char c with ⟨heq, -⟩ | ⟨name, -, heq, -⟩
        all_goals simp [heq]

end FormLetter
