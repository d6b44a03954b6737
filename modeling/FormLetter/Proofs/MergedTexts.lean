import FormLetter.Proofs.Escaped
import FormLetter.Proofs.Expanded
import FormLetter.Proofs.Refusals
import FormLetter.Proofs.Rejoining
import FormLetter.Proofs.Residue
import FormLetter.Package.Template

/-!
# What stands in a merged tree

A merge moves text about: it joins runs, cuts sections out, redirects placeholders and fills in what
the data show.  Whatever it does, an escaped tree stays escaped, and no tag appears in it that was
not there before.

* `Escaped` — all texts of a tree are escaped.  `escaped_joinRuns`, `Escaped.pass`,
  `Escaped.expandTables` and `Escaped.fillTree` — one lemma for each stage.  Passes keep references
  whole because the ranges that rulings delete end at at-signs (`cutsAtSigns_deletedBy`).
* `Showable` — the characters that a merge can put in: printable ones of ASCII, which are among those
  for which `Q` holds, and those of the texts to which paths lead.
* `tags_edit`, `tags_expandNode` — the tags of the result are tags of the tree.
* `renderNamed_escaped` — both for a whole merge of a joined tree.
-/

namespace FormLetter

/-- All texts of the tree are escaped. -/
def Escaped (Q : Char → Prop) (tree : Node) : Prop := ∀ t ∈ tree.texts, IsEscaped Q t

/-- A character for which `Q` holds, or one of a text in the data. -/
def Showable (Q : Char → Prop) (data : Value) (c : Char) : Prop :=
  Q c ∨ ∃ path t, traverse data path = .ok (.text t) ∧ c ∈ t

/-- `Q` holds of the printable characters of ASCII, of which tokens, numbers and the characters of
markup consist. -/
def AdmitsAscii (Q : Char → Prop) : Prop := ∀ c : Char, ' ' ≤ c → c ≤ '~' → Q c

section

variable {Q : Char → Prop}

/-! ## Joining runs -/

lemma mem_textsOf {nodes : List Node} {node : Node} (h : node ∈ nodes) :
    node.texts ⊆ Node.textsOf nodes := by
  rw [textsOf_eq_flatMap]
  exact fun t ht => List.mem_flatMap.mpr ⟨node, h, ht⟩

lemma textsOf_append (nodes others : List Node) :
    Node.textsOf (nodes ++ others) = Node.textsOf nodes ++ Node.textsOf others := by
  simp only [textsOf_eq_flatMap, List.flatMap_append]

lemma texts_of_mem_children {node child : Node} (h : child ∈ node.children) :
    child.texts ⊆ node.texts := by
  cases node with
  | text value => exact absurd h List.not_mem_nil
  | element tag children => exact mem_textsOf h

/-- What runs show together is escaped if their texts are. -/
lemma isEscaped_groupText {runs : List Node} (h : ∀ t ∈ Node.textsOf runs, IsEscaped Q t) :
    IsEscaped Q (groupText runs) := by
  refine IsEscaped.flatMap fun run hrun => ?_
  rw [runContent, Node.contentOf, ← List.flatMap_id]
  refine IsEscaped.flatMap fun t ht => h t (mem_textsOf hrun ?_)
  rw [textsOf_eq_flatMap] at ht
  obtain ⟨child, hchild, ht⟩ := List.mem_flatMap.mp ht
  exact texts_of_mem_children (List.mem_filter.mp hchild).1 ht

/-- A shared format is one of the formats. -/
lemma mem_of_sharedFormat {runs : List Node} {format : Node}
    (h : sharedFormat runs = some format) : ∃ run ∈ runs, format ∈ run.children := by
  cases runs with
  | nil => simp [sharedFormat] at h
  | cons run rest =>
      simp only [sharedFormat, List.map_cons] at h
      split at h
      · exact ⟨run, List.mem_cons_self, List.mem_of_find?_eq_some h⟩
      · simp at h

lemma escaped_settleGroup {runs : List Node} (h : ∀ t ∈ Node.textsOf runs, IsEscaped Q t) :
    ∀ t ∈ Node.textsOf (settleGroup runs), IsEscaped Q t := by
  rw [settleGroup]
  split
  · intro t ht
    simp only [Word.makeRun, Node.textsOf, Node.texts, List.append_nil, textsOf_append,
      List.mem_append, List.mem_singleton] at ht
    rcases ht with ht | rfl
    · -- the text of a shared format is that of a format of some run
      rw [textsOf_eq_flatMap] at ht
      obtain ⟨format, hformat, ht⟩ := List.mem_flatMap.mp ht
      obtain ⟨run, hrun, hmem⟩ := mem_of_sharedFormat (Option.mem_toList.mp hformat)
      exact h t (mem_textsOf hrun (texts_of_mem_children hmem ht))
    · exact isEscaped_groupText h
  · exact h

mutual

/-- **Joining runs keeps a tree escaped.** -/
theorem escaped_joinRuns : ∀ node : Node, Escaped Q node → Escaped Q (joinRuns node)
  | .text value, h => h
  | .element tag children, h => by
      rw [joinRuns]
      split
      · exact escaped_joinParagraph children (by simp [Node.textsOf]) h
      · exact escaped_joinRunsOf children h

theorem escaped_joinRunsOf : ∀ nodes : List Node, (∀ t ∈ Node.textsOf nodes, IsEscaped Q t) →
    ∀ t ∈ Node.textsOf (joinRunsOf nodes), IsEscaped Q t
  | [], h => h
  | node :: rest, h => by
      rw [Node.textsOf, List.forall_mem_append] at h
      rw [joinRunsOf, Node.textsOf, List.forall_mem_append]
      exact ⟨escaped_joinRuns node h.1, escaped_joinRunsOf rest h.2⟩

theorem escaped_joinParagraph : ∀ (nodes : List Node) {waiting : List Node},
    (∀ t ∈ Node.textsOf waiting, IsEscaped Q t) → (∀ t ∈ Node.textsOf nodes, IsEscaped Q t) →
      ∀ t ∈ Node.textsOf (joinParagraph waiting nodes), IsEscaped Q t
  | [], waiting, hwaiting, _ => by
      rw [joinParagraph]
      exact escaped_settleGroup hwaiting
  | node :: rest, waiting, hwaiting, h => by
      rw [Node.textsOf, List.forall_mem_append] at h
      have hnil : ∀ t ∈ Node.textsOf [], IsEscaped Q t := by simp [Node.textsOf]
      have hgroup : ∀ t ∈ Node.textsOf (waiting ++ [node]), IsEscaped Q t := by
        rw [textsOf_append, List.forall_mem_append]
        exact ⟨hwaiting, by simpa [Node.textsOf] using h.1⟩
      simp only [joinParagraph]
      split_ifs
      · rw [Node.textsOf, List.forall_mem_append]
        exact ⟨h.1, escaped_joinParagraph rest hnil h.2⟩
      · exact escaped_joinParagraph rest hgroup h.2
      · rw [textsOf_append, List.forall_mem_append]
        exact ⟨escaped_settleGroup hgroup, escaped_joinParagraph rest hnil h.2⟩
      · exact escaped_joinParagraph rest hwaiting h.2
      · rw [textsOf_append, Node.textsOf, List.forall_mem_append, List.forall_mem_append]
        exact ⟨escaped_settleGroup hwaiting, escaped_joinRuns node h.1,
          escaped_joinParagraph rest hnil h.2⟩

end

/-! ## Passes -/

/-- A marker stands in the flat text, between at-signs. -/
lemma atSigns_of_occurrence {tree : Node} {data : Value} {rulings : List Ruling}
    (h : Decides tree data rulings) {r : Ruling} (hr : r ∈ rulings) {m : Occurrence}
    (hm : m ∈ r.block.occurrences) :
    m.start < m.stop ∧ (flatText tree)[m.start]? = some '@'
      ∧ (flatText tree)[m.stop - 1]? = some '@' := by
  obtain ⟨token, htoken, htext⟩ := exists_token_of_occurrence h hr hm
  obtain ⟨before, after, hpieces, hstart⟩ := mem_tokensFrom.mp htoken
  have hflat : flatText tree
      = before.flatMap Piece.text ++ ('@' :: token.body ++ '@' :: after.flatMap Piece.text) := by
    rw [← spelled_pieces (flatText tree), hpieces]
    simp [Piece.text, Token.text]
  have hlen : (before.flatMap Piece.text).length = m.start := by
    rw [hstart, Nat.zero_add]
    rfl
  have hstop : m.stop = m.start + (token.body.length + 2) := by
    rw [Occurrence.stop, htext, token.length_text]
  refine ⟨by omega, ?_, ?_⟩
  · rw [hflat, List.getElem?_append_right (by omega), hlen, Nat.sub_self]
    rfl
  · rw [hflat, List.getElem?_append_right (by omega), hlen,
      show m.stop - 1 - m.start = token.body.length + 1 by omega]
    simp

/-- **The ranges that rulings delete end at at-signs** of the flat text. -/
theorem cutsAtSigns_deletedBy {tree : Node} {data : Value} {rulings : List Ruling}
    (h : Decides tree data rulings) : CutsAtSigns (deletedBy rulings) 0 (flatText tree) := by
  intro before stretch after hflat hat i hi
  have hnone : ∀ k < stretch.length, (flatText tree)[before.length + k]? ≠ some '@' := by
    intro k hk heq
    rw [hflat, List.getElem?_append_right (by omega), Nat.add_sub_cancel_left,
      List.getElem?_append_left hk] at heq
    exact hat (List.mem_of_getElem? heq)
  rw [Bool.eq_iff_iff, covered_eq_true, covered_eq_true]
  refine exists_congr fun range => and_congr_right fun hrange => ?_
  obtain ⟨r, hr, hrange⟩ := List.mem_flatMap.mp hrange
  obtain ⟨m, hm, n, hn, rfl⟩ := exists_borders hrange
  obtain ⟨hmlt, hstart, -⟩ := atSigns_of_occurrence h hr hm
  obtain ⟨hnlt, -, hstop⟩ := atSigns_of_occurrence h hr hn
  -- neither border lies inside the stretch, where there is no at-sign
  have hlow : ¬ (before.length < m.start ∧ m.start ≤ before.length + i) := fun hin =>
    hnone (m.start - before.length) (by omega)
      (by rw [Nat.add_sub_cancel' (by omega)]; exact hstart)
  have hhigh : ¬ (before.length < n.stop ∧ n.stop ≤ before.length + i) := fun hin =>
    hnone (n.stop - 1 - before.length) (by omega)
      (by rw [Nat.add_sub_cancel' (by omega)]; exact hstop)
  simp only [Nat.zero_add]
  omega

/-- The text of a passage stands in the flat text where the passage starts. -/
lemma exists_flatText_eq {start : Nat} : ∀ {leaves : List Leaf} {p : Passage},
    p ∈ passagesFrom start leaves → ∃ front back,
      Text.joinWith ['\n'] (leaves.map (·.node.content)) = front ++ (p.node.content ++ back)
        ∧ start + front.length = p.start
  | leaf :: rest, p, h => by
      rw [passagesFrom] at h
      rcases List.mem_cons.mp h with rfl | h
      · cases rest with
        | nil => exact ⟨[], [], by simp [Text.joinWith], rfl⟩
        | cons next rest =>
            refine ⟨[], ['\n'] ++ Text.joinWith ['\n'] ((next :: rest).map (·.node.content)),
              ?_, rfl⟩
            rw [List.map_cons, Text.joinWith_cons _ _ (by simp)]
            simp
      · obtain ⟨front, back, hrest, hstart⟩ := exists_flatText_eq h
        have hne : rest.map (·.node.content) ≠ [] := by
          rintro hnil
          rw [List.map_eq_nil_iff.mp hnil] at h
          exact absurd h List.not_mem_nil
        refine ⟨leaf.node.content ++ '\n' :: front, back, ?_, ?_⟩
        · rw [List.map_cons, Text.joinWith_cons _ _ hne, hrest]
          simp
        · simp only [List.length_append, List.length_cons]
          omega

lemma cutsAtSigns_passage {tree : Node} {data : Value} {rulings : List Ruling}
    (h : Decides tree data rulings) {p : Passage} (hp : p ∈ passages tree) :
    CutsAtSigns (deletedBy rulings) p.start p.node.content := by
  obtain ⟨front, back, hflat, hstart⟩ := exists_flatText_eq hp
  have hcuts := cutsAtSigns_deletedBy h
  rw [flatText_eq, hflat] at hcuts
  have := hcuts.right.left
  rwa [hstart] at this

/-- **One pass keeps a tree escaped.** -/
theorem Escaped.pass {tree next : Node} {data : Value} {count : Nat} (ht : Escaped Q tree)
    (h : resolvePass tree data = .ok (next, count)) (hcount : 0 < count) : Escaped Q next := by
  intro t hmem
  obtain ⟨rulings, hd, hplaced, -, rfl⟩ := exists_rulings h hcount
  by_cases hnil : t = []
  · rw [hnil]
    exact .nil
  · obtain ⟨leaf, hl, htl⟩ := exists_leaf_of_mem_texts _ hmem hnil
    have hnode : leaf.node ∈ (survivors tree rulings).map (Passage.remainder rulings) := by
      rw [← leaves_edit_rulings hplaced]
      exact List.mem_map_of_mem hl
    obtain ⟨p, hp, hrest⟩ := List.mem_map.mp hnode
    obtain ⟨hp, -⟩ := mem_survivors.mp hp
    rw [← hrest] at htl
    exact isEscaped_cut p.start p.node (fun u hu => ht u (texts_of_mem_passages hp u hu))
      (cutsAtSigns_passage hd hp) t htl

/-- Passes keep a tree escaped. -/
theorem Passes.escaped {tree last : Node} {data : Value} (h : Passes data tree last)
    (ht : Escaped Q tree) : Escaped Q last := by
  induction h with
  | start tree => exact ht
  | pass hpass hcount _ ih => exact ih (ht.pass hpass hcount)

end

/-! ## Tables and placeholders -/

section

variable {Q : Char → Prop} {data : Value}

/-- Letters and digits lie between the blank and the tilde. -/
lemma AdmitsAscii.of_isAlphanum (hQ : AdmitsAscii Q) {c : Char} (h : c.isAlphanum = true) : Q c := by
  have hbetween : ∀ low high : Char, ' ' ≤ low → high ≤ '~' → low ≤ c → c ≤ high → Q c :=
    fun _ _ hlow hhigh hlc hch => hQ c (Char.le_trans hlow hlc) (Char.le_trans hch hhigh)
  rcases Bool.or_eq_true_iff.mp h with h | h
  · rcases Bool.or_eq_true_iff.mp h with h | h
    · obtain ⟨hlow, hhigh⟩ := of_decide_eq_true h
      exact hbetween 'A' 'Z' (by decide) (by decide) hlow hhigh
    · obtain ⟨hlow, hhigh⟩ := Bool.and_eq_true_iff.mp h
      exact hbetween 'a' 'z' (by decide) (by decide) (of_decide_eq_true hlow)
        (of_decide_eq_true hhigh)
  · obtain ⟨hlow, hhigh⟩ := Bool.and_eq_true_iff.mp h
    exact hbetween '0' '9' (by decide) (by decide) (of_decide_eq_true hlow)
      (of_decide_eq_true hhigh)

/-- So do the characters of markup. -/
lemma AdmitsAscii.of_mem_namedChars (hQ : AdmitsAscii Q) {c : Char}
    (h : c ∈ namedChars.map Prod.snd) : Q c := by
  have hprintable : (namedChars.map Prod.snd).all
      (fun c => decide (' ' ≤ c) && decide (c ≤ '~')) = true := by decide
  simp only [List.all_eq_true, Bool.and_eq_true, decide_eq_true_eq] at hprintable
  exact hQ c (hprintable c h).1 (hprintable c h).2

/-- The characters of tokens are printable, and need not be escaped. -/
lemma showable_of_isBodyChar (hQ : AdmitsAscii Q) {c : Char} (h : isBodyChar c = true) :
    c ≠ '&' ∧ Showable Q data c := by
  simp only [isBodyChar, isPathChar, isNameChar, Bool.or_eq_true, beq_iff_eq] at h
  rcases h with ((h | rfl) | rfl) | rfl
  · refine ⟨?_, Or.inl (hQ.of_isAlphanum h)⟩
    rintro rfl
    exact absurd h (by decide)
  all_goals exact ⟨by decide, Or.inl (hQ _ (by decide) (by decide))⟩

/-- Spelled tokens are escaped. -/
lemma isEscaped_token (hQ : AdmitsAscii Q) {token : Token} (h : (Piece.token token).IsSound) :
    IsEscaped (Showable Q data) token.text := by
  refine IsEscaped.of_plain fun c hc => ?_
  simp only [Token.text, List.cons_append, List.mem_cons, List.mem_append,
    List.not_mem_nil, or_false] at hc
  rcases hc with rfl | hc | rfl
  · exact ⟨by decide, Or.inl (hQ _ (by decide) (by decide))⟩
  · exact showable_of_isBodyChar hQ (isBodyChar_of_ofBody? h hc)
  · exact ⟨by decide, Or.inl (hQ _ (by decide) (by decide))⟩

/-- Redirecting placeholders keeps a text escaped. -/
lemma keptByCopies_isEscaped (hQ : AdmitsAscii Q) :
    KeptByCopies data (IsEscaped (Showable Q data)) := by
  intro scope key t hwithin h
  have hspelled : IsEscaped (Showable Q data) ([] ++ (pieces t).flatMap Piece.text) := by
    rwa [List.nil_append, spelled_pieces]
  rw [mapPlaceholders, mapPiecesFrom_eq, List.flatMap_map]
  refine hspelled.respell (f := fun p => (scope.redirect p).text) [] (fun c => rfl) ?_
  intro token hmem _
  have hsound := RowScope.isSound_redirect hwithin.isName
    (show (Piece.token token).IsSound from meaning_of_mem_pieces hmem)
  obtain ⟨body, meaning⟩ := token
  cases meaning <;> exact isEscaped_token hQ hsound

/-- What a path shows consists of showable characters. -/
lemma showable_valueText (hQ : AdmitsAscii Q) {path : Path} {t : Text}
    (h : valueText data path = .ok t) : ∀ c ∈ t, Showable Q data c := by
  cases path with
  | nil => simp [valueText] at h
  | cons head rest =>
      obtain ⟨value, hvalue, h⟩ := bind_eq_ok.mp (show (traverse data (head :: rest) >>=
        Value.display) = .ok t from h)
      have hnumber : ∀ u : Text, u.all isNumberChar = true → ∀ c ∈ u, Showable Q data c := by
        intro u hu c hc
        have := List.all_eq_true.mp hu c hc
        simp only [isNumberChar, Bool.or_eq_true, beq_iff_eq] at this
        rcases this with ((this | rfl) | rfl) | rfl
        · exact Or.inl (hQ.of_isAlphanum this)
        all_goals exact Or.inl (hQ _ (by decide) (by decide))
      cases value with
      | text s =>
          rw [← Except.ok.inj h]
          exact fun c hc => Or.inr ⟨head :: rest, s, hvalue, hc⟩
      | truth b =>
          rw [← Except.ok.inj h]
          exact hnumber _ (by cases b <;> decide)
      | int i => exact Except.ok.inj h ▸ hnumber _ (all_ofInt i)
      | binary x => exact Except.ok.inj h ▸ hnumber _ x.all_text
      | decimal n => exact Except.ok.inj h ▸ hnumber _ n.all_text
      | _ => simp [Value.display] at h

/-- Filling placeholders in keeps a text escaped. -/
lemma isEscaped_fillText (hQ : AdmitsAscii Q) {t : Text} (h : IsEscaped (Showable Q data) t) :
    IsEscaped (Showable Q data) (fillText data t) := by
  rw [fillText]
  split
  · have hspelled : IsEscaped (Showable Q data) ([] ++ (pieces t).flatMap Piece.text) := by
      rwa [List.nil_append, spelled_pieces]
    refine hspelled.respell (f := fun p => filledText (p.fill data)) [] (fun c => rfl)
      ?_
    intro token hmem _
    have hsound : (Piece.token token).IsSound := meaning_of_mem_pieces hmem
    obtain ⟨body, meaning⟩ := token
    cases meaning with
    | placeholder path =>
        simp only [Piece.fill]
        cases hvalue : valueText data path with
        | ok value => exact isEscaped_escapeValue fun c hc _ _ => showable_valueText hQ hvalue c hc
        | error reason => exact .nil
    | _ => exact isEscaped_token hQ hsound
  · exact h

lemma escaped_fillTree (hQ : AdmitsAscii Q) {tree result : Node} (h : fillTree tree data = .ok result)
    (ht : Escaped (Showable Q data) tree) : Escaped (Showable Q data) result := by
  rw [fillTree] at h
  split at h
  · obtain rfl := Except.ok.inj h
    intro t hmem
    rw [texts_mapText] at hmem
    obtain ⟨u, hu, rfl⟩ := List.mem_map.mp hmem
    exact isEscaped_fillText hQ (ht u hu)
  · simp at h

end

/-! ## Tags -/

mutual

lemma tags_mapText (f : Text → Text) : ∀ node : Node, (node.mapText f).tags = node.tags
  | .text _ => rfl
  | .element tag children => by
      rw [Node.mapText, Node.tags, Node.tags, tagsOf_mapTextOf f children]

lemma tagsOf_mapTextOf (f : Text → Text) : ∀ nodes : List Node,
    Node.tagsOf (Node.mapTextOf f nodes) = Node.tagsOf nodes
  | [] => rfl
  | node :: rest => by
      rw [Node.mapTextOf, Node.tagsOf, Node.tagsOf, tags_mapText f node, tagsOf_mapTextOf f rest]

end

mutual

/-- **Edits bring no tags in.** -/
theorem tags_edit : ∀ (node : Node) (edits : List Edit), (node.edit edits).tags ⊆ node.tags
  | .text value, edits => List.Subset.refl _
  | .element tag children, edits => by
      rw [edit_element]
      split
      · exact List.cons_subset_cons tag (tagsOf_editFrom children 0 edits)
      · rw [tags_cut]
        exact List.Subset.refl _

theorem tagsOf_editFrom : ∀ (nodes : List Node) (index : Nat) (edits : List Edit),
    Node.tagsOf (Node.editFrom edits index nodes) ⊆ Node.tagsOf nodes
  | [], _, _ => List.Subset.refl _
  | node :: rest, index, edits => by
      have hrest := tagsOf_editFrom rest (index + 1) edits
      simp only [Node.editFrom]
      split_ifs
      · exact List.subset_append_of_subset_right _ hrest
      · exact List.subset_append_of_subset_right _ hrest
      · exact List.append_subset.mpr ⟨List.subset_append_of_subset_left _ (tags_edit node _),
          List.subset_append_of_subset_right _ hrest⟩

end

lemma Passes.tags {tree last : Node} {data : Value} (h : Passes data tree last) :
    last.tags ⊆ tree.tags := by
  induction h with
  | start tree => exact List.Subset.refl _
  | pass hpass hcount _ ih =>
      obtain ⟨rulings, -, -, -, rfl⟩ := exists_rulings hpass hcount
      exact List.Subset.trans ih (tags_edit _ _)

lemma mem_tagsOf {nodes : List Node} {node : Node} (h : node ∈ nodes) :
    node.tags ⊆ Node.tagsOf nodes := by
  rw [tagsOf_eq_flatMap]
  exact fun tag htag => List.mem_flatMap.mpr ⟨node, h, htag⟩

/-- The tags of a band are those of its members. -/
lemma tagsOf_of_bandYields {data : Value} {band : List Node} {part : Expansion}
    (h : BandYields data band part)
    (hchild : ∀ child ∈ band, ∀ inner, expandNode data child = .ok inner →
      Node.tagsOf inner.nodes ⊆ child.tags) : Node.tagsOf part.nodes ⊆ Node.tagsOf band := by
  cases h with
  | @single child part hnone hpart =>
      exact List.Subset.trans (hchild child (List.mem_singleton_self child) part hpart)
        (mem_tagsOf (List.mem_singleton_self child))
  | @rows binding first rest hbound =>
      intro tag htag
      rw [tagsOf_eq_flatMap, List.mem_flatMap] at htag
      obtain ⟨copy, hcopy, htag⟩ := htag
      obtain ⟨scope, -, hcopy⟩ := List.mem_flatMap.mp hcopy
      obtain ⟨row, hrow, rfl⟩ := List.mem_map.mp hcopy
      rw [bindRow, tags_mapText] at htag
      exact mem_tagsOf hrow htag

/-- What comes of the members of a list has the tags that come of each of them. -/
lemma tagsOf_concat {α : Type} {R : α → Expansion → Prop} {members : List α}
    {parts : List Expansion} {tags : List StartTag} (h : List.Forall₂ R members parts)
    (hpart : ∀ a ∈ members, ∀ part, R a part → Node.tagsOf part.nodes ⊆ tags) :
    Node.tagsOf (Expansion.concat parts).nodes ⊆ tags := by
  induction h with
  | nil => exact List.nil_subset _
  | @cons a part members parts hfirst _ ih =>
      rw [List.forall_mem_cons] at hpart
      have hrest := ih hpart.2
      rw [tagsOf_eq_flatMap] at hrest
      have hfirst := hpart.1 part hfirst
      rw [tagsOf_eq_flatMap] at hfirst
      rw [Expansion.concat_cons, tagsOf_eq_flatMap]
      exact List.flatMap_append ▸ List.append_subset.mpr ⟨hfirst, hrest⟩

/-- **Expansion brings no tags in.** -/
theorem tagsOf_expandNode {data : Value} (node : Node) : ∀ expansion,
    expandNode data node = .ok expansion → Node.tagsOf expansion.nodes ⊆ node.tags := by
  induction node using Node.byChildren with
  | text value =>
      intro expansion h
      rw [← Except.ok.inj h]
      exact List.Subset.refl _
  | element tag children ih =>
      intro expansion h
      obtain ⟨parts, rfl, htable, hother⟩ := parts_of_expandNode h
      have hinner : Node.tagsOf (Expansion.concat parts).nodes ⊆ Node.tagsOf children := by
        by_cases hname : tag.name = Word.table
        · refine tagsOf_concat (htable hname) fun band hband part hyields tag htag => ?_
          have htag := tagsOf_of_bandYields hyields (fun child hchild =>
            ih child (mem_of_mem_bands hband hchild)) htag
          rw [tagsOf_eq_flatMap] at htag
          obtain ⟨child, hchild, htag⟩ := List.mem_flatMap.mp htag
          exact mem_tagsOf (mem_of_mem_bands hband hchild) htag
        · exact tagsOf_concat (hother hname) fun child hchild part hpart =>
            List.Subset.trans (ih child hchild part hpart) (mem_tagsOf hchild)
      simp only [Expansion.wrap, Node.tagsOf, Node.tags, List.append_nil]
      exact List.cons_subset_cons tag hinner

lemma tags_fillTree {tree result : Node} {data : Value} (h : fillTree tree data = .ok result) :
    result.tags = tree.tags := by
  rw [fillTree] at h
  split at h
  · rw [← Except.ok.inj h, tags_mapText]
  · simp at h

/-! ## Elements -/

lemma isElement_edit (node : Node) (edits : List Edit) :
    (node.edit edits).isElement = node.isElement := by
  cases node with
  | text value => rfl
  | element tag children =>
      rw [edit_element]
      split <;> rfl

lemma Passes.isElement {tree last : Node} {data : Value} (h : Passes data tree last) :
    last.isElement = tree.isElement := by
  induction h with
  | start tree => rfl
  | pass hpass hcount _ ih =>
      obtain ⟨rulings, -, -, -, rfl⟩ := exists_rulings hpass hcount
      exact ih.trans (isElement_edit _ _)

lemma Expands.isElement {data : Value} {tree result : Node} (h : Expands data tree result) :
    result.isElement = tree.isElement := by
  cases h <;> rfl

lemma isElement_fillTree {tree result : Node} {data : Value} (h : fillTree tree data = .ok result) :
    result.isElement = tree.isElement := by
  rw [fillTree] at h
  split at h
  · rw [← Except.ok.inj h]
    cases tree <;> rfl
  · simp at h

/-! ## Whole merges -/

/-- **A merge of a joined and escaped tree** gives an escaped tree with tags of the tree, and an
element if the tree is one. -/
theorem renderNamed_escaped {Q : Char → Prop} (hQ : AdmitsAscii Q) {data : Value} {name : String}
    {tree result : Node} (hjoined : joinRuns tree = tree) (ht : Escaped (Showable Q data) tree)
    (h : Template.renderNamed data name tree = .ok result) :
    Escaped (Showable Q data) result ∧ result.tags ⊆ tree.tags
      ∧ result.isElement = tree.isElement := by
  rw [Template.renderNamed] at h
  split at h
  · rw [boundedProperties, mapError_eq_ok, boundedFill, unlessRefused_eq_ok, hjoined] at h
    exact ⟨escaped_fillTree hQ h.2 ht, tags_fillTree h.2 ▸ List.Subset.refl _,
      isElement_fillTree h.2⟩
  · rw [boundedRender, mapError_eq_ok, unlessRefused_eq_ok, mergeTree, hjoined] at h
    obtain ⟨resolved, hresolved, h⟩ := bind_eq_ok.mp h.2
    obtain ⟨⟨expanded, aliases⟩, hexpanded, h⟩ := bind_eq_ok.mp h
    obtain ⟨hpasses, -⟩ := resolveSections_eq_ok.mp hresolved
    have hfilled := mapError_eq_ok.mp h
    refine ⟨escaped_fillTree hQ hfilled
      (texts_expandTables (keptByCopies_isEscaped hQ) hexpanded (hpasses.escaped ht)), ?_, ?_⟩
    · have hexpansion := tagsOf_expandNode _ _ (expansion_of_expandTables hexpanded).1
      simp only [Node.tagsOf, List.append_nil] at hexpansion
      rw [tags_fillTree hfilled]
      exact List.Subset.trans hexpansion hpasses.tags
    · rw [isElement_fillTree hfilled, (expansion_of_expandTables hexpanded).2.isElement,
        hpasses.isElement]

end FormLetter
