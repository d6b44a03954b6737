import FormLetter.Proofs.Passes

/-!
# Passes keep tokens whole

A pass deletes characters, and characters that were apart may then form a token that nobody wrote.
It cannot happen where every at-sign belongs to a token already: the ranges that rulings delete
begin and end at markers, so of each token all or nothing goes, and what is left is a sequence of
whole tokens and of characters that are no at-signs.

* `RespectsTokens` — no border of a range lies inside a token.  `respectsTokens_deletedBy` — the
  ranges of rulings are of this kind, for every passage.
* `keepOutside_spell` — such a cut deletes whole pieces; `pieces_cut` — so what it leaves of a text
  is read as some of the pieces of the text.
* `Tokenized` — all texts of a tree are tokenized.  `Tokenized.mem_tokens` — then the tokens of the
  flat text are those of the texts.  `Passes.pieces` — passes make no new pieces, so they keep a
  tree tokenized (`Passes.tokenized`).
-/

namespace FormLetter

/-! ## Cuts at the borders of tokens -/

/-- Each token is covered by the ranges as a whole or not at all. -/
def RespectsTokens (ranges : List Range) (start : Nat) (ps : List Piece) : Prop :=
  ∀ position token, (position, token) ∈ tokensFrom start ps →
    ∀ i < token.text.length, covered ranges (position + i) = covered ranges position

/-- The pieces that the ranges do not cover. -/
def keepPieces (ranges : List Range) (start : Nat) : List Piece → List Piece
  | [] => []
  | p :: rest =>
    if covered ranges start then keepPieces ranges (start + p.text.length) rest
    else p :: keepPieces ranges (start + p.text.length) rest

lemma keepPieces_sublist (ranges : List Range) : ∀ (start : Nat) (ps : List Piece),
    (keepPieces ranges start ps).Sublist ps
  | _, [] => List.Sublist.refl _
  | start, p :: rest => by
      rw [keepPieces]
      split
      · exact (keepPieces_sublist ranges _ rest).cons p
      · exact (keepPieces_sublist ranges _ rest).cons_cons p

lemma RespectsTokens.append {ranges : List Range} {start : Nat} {ps qs : List Piece} :
    RespectsTokens ranges start (ps ++ qs)
      ↔ RespectsTokens ranges start ps ∧ RespectsTokens ranges (start + spelledLength ps) qs := by
  simp only [RespectsTokens, tokensFrom_append, List.mem_append, or_imp, forall_and]

/-- **A cut at the borders of tokens deletes whole pieces.** -/
theorem keepOutside_spell {ranges : List Range} : ∀ {start : Nat} {ps : List Piece},
    RespectsTokens ranges start ps →
      keepOutside ranges start (ps.flatMap Piece.text)
        = (keepPieces ranges start ps).flatMap Piece.text
  | _, [], _ => rfl
  | start, p :: rest, h => by
      have hsplit := RespectsTokens.append.mp
        (show RespectsTokens ranges start ([p] ++ rest) from h)
      have hlen : spelledLength [p] = p.text.length := by simp
      have ih := keepOutside_spell (hlen ▸ hsplit.2)
      have hfirst : ∀ k < p.text.length, covered ranges (start + k) = covered ranges start := by
        cases p with
        | char c =>
            intro k hk
            have : k = 0 := by simpa [Piece.text] using hk
            rw [this, Nat.add_zero]
        | token token => exact hsplit.1 start token (by simp [tokensFrom])
      rw [List.flatMap_cons, keepOutside_append, ih, keepPieces]
      cases hc : covered ranges start with
      | true =>
          rw [keepOutside_of_covered fun k hk => (hfirst k hk).trans hc]
          rfl
      | false =>
          rw [keepOutside_of_uncovered fun k hk => (hfirst k hk).trans hc]
          rfl

/-! ## Cuts of tokenized trees -/

/-- Every at-sign of the tree belongs to a token of its text node. -/
def Tokenized (tree : Node) : Prop := ∀ t ∈ tree.texts, IsTokenized t

lemma IsTokenized.flatten {ts : List Text} (h : ∀ t ∈ ts, IsTokenized t) :
    IsTokenized ts.flatten := by
  intro p hp
  rw [IsTokenized.pieces_flatten h] at hp
  obtain ⟨t, ht, hp⟩ := List.mem_flatMap.mp hp
  exact h t ht p hp

mutual

/-- **A cut at the borders of tokens leaves each text some of its pieces.** -/
theorem pieces_cut {ranges : List Range} : ∀ (offset : Nat) (node : Node),
    (∀ t ∈ node.texts, IsTokenized t) → RespectsTokens ranges offset (pieces node.content) →
      ∀ t ∈ (node.cut ranges offset).texts, ∃ u ∈ node.texts, (pieces t).Sublist (pieces u)
  | offset, .text value, h, hr, t, ht => by
      rw [Node.cut, Node.texts, List.mem_singleton] at ht
      have hvalue : IsTokenized value := h value (by simp [Node.texts])
      have hkept := keepPieces_sublist ranges offset (pieces value)
      rw [content_text] at hr
      rw [← spelled_pieces value, keepOutside_spell hr] at ht
      refine ⟨value, by simp [Node.texts], ?_⟩
      rw [ht, pieces_spell fun p hp => hvalue p (hkept.subset hp)]
      exact hkept
  | offset, .element tag children, h, hr, t, ht => by
      rw [content_element] at hr
      exact pieces_cutAll offset children h hr t ht

theorem pieces_cutAll {ranges : List Range} : ∀ (offset : Nat) (nodes : List Node),
    (∀ t ∈ Node.textsOf nodes, IsTokenized t) →
      RespectsTokens ranges offset (pieces (Node.contentOf nodes)) →
      ∀ t ∈ Node.textsOf (Node.cutAll ranges offset nodes),
        ∃ u ∈ Node.textsOf nodes, (pieces t).Sublist (pieces u)
  | _, [], _, _, t, ht => by simp [Node.cutAll, Node.textsOf] at ht
  | offset, node :: rest, h, hr, t, ht => by
      rw [Node.textsOf] at h ⊢
      have hnode : ∀ t ∈ node.texts, IsTokenized t := fun t ht => h t (List.mem_append_left _ ht)
      have hcontent : IsTokenized node.content := IsTokenized.flatten hnode
      rw [contentOf_cons, hcontent.pieces_append, RespectsTokens.append,
        spelledLength_pieces] at hr
      rw [Node.cutAll, Node.textsOf, List.mem_append] at ht
      rcases ht with ht | ht
      · obtain ⟨u, hu, hsub⟩ := pieces_cut offset node hnode hr.1 t ht
        exact ⟨u, List.mem_append_left _ hu, hsub⟩
      · obtain ⟨u, hu, hsub⟩ :=
          pieces_cutAll _ rest (fun t ht => h t (List.mem_append_right _ ht)) hr.2 t ht
        exact ⟨u, List.mem_append_right _ hu, hsub⟩

end

/-! ## The ranges of rulings -/

/-- The markers of a ruling are tokens of the flat text. -/
lemma exists_token_of_occurrence {tree : Node} {data : Value} {rulings : List Ruling}
    (h : Decides tree data rulings) {r : Ruling} (hr : r ∈ rulings) {m : Occurrence}
    (hm : m ∈ r.block.occurrences) :
    ∃ token, (m.start, token) ∈ tokens (flatText tree) ∧ m.text = token.text := by
  have hmem : m ∈ (rulings.map Ruling.block).flatMap Block.occurrences :=
    List.mem_flatMap.mpr ⟨r.block, List.mem_map_of_mem hr, hm⟩
  obtain ⟨marker, hmarker, rfl⟩ := List.mem_map.mp ((pair_occurrences h.sections).subset hmem)
  obtain ⟨⟨position, token⟩, htoken, heq⟩ := List.mem_filterMap.mp hmarker
  rw [Token.marker?_eq_some heq]
  exact ⟨token, htoken, rfl⟩

/-- A range that a ruling deletes goes from the start of a marker to the end of one. -/
lemma exists_borders {r : Ruling} {range : Range} (h : range ∈ r.deleted) :
    ∃ m ∈ r.block.occurrences, ∃ n ∈ r.block.occurrences, range = ⟨m.start, n.stop⟩ := by
  rw [Ruling.deleted, List.mem_append, List.mem_map] at h
  rcases h with ⟨m, hm, rfl⟩ | h
  · exact ⟨m, r.stripped_subset m hm, m, r.stripped_subset m hm, rfl⟩
  · obtain ⟨⟨first, last⟩, hl, rfl⟩ := Option.map_eq_some_iff.mp (Option.mem_toList.mp h)
    obtain ⟨hf, hla⟩ := Ruling.mem_of_lost? hl
    exact ⟨first, hf, last, hla, rfl⟩

/-- **Rulings delete whole tokens.** -/
theorem respectsTokens_deletedBy {tree : Node} {data : Value} {rulings : List Ruling}
    (h : Decides tree data rulings) {p : Passage} (hp : p ∈ passages tree) :
    RespectsTokens (deletedBy rulings) p.start (pieces p.node.content) := by
  intro position token htoken i hi
  have hflat : (position, token) ∈ tokens (flatText tree) := by
    rw [tokens_flatText]
    exact List.mem_flatMap.mpr ⟨p, hp, htoken⟩
  have hcases : ∀ m ∈ rulings.flatMap (fun r => r.block.occurrences),
      (position = m.start ∧ token.text.length = m.text.length)
        ∨ position + token.text.length ≤ m.start ∨ m.stop ≤ position := by
    intro m hm
    obtain ⟨r, hr, hm⟩ := List.mem_flatMap.mp hm
    obtain ⟨other, hother, htext⟩ := exists_token_of_occurrence h hr hm
    rcases pairwise_cases (pairwise_tokensFrom 0 (pieces (flatText tree))) hflat hother
      with heq | hlt | hgt
    · obtain ⟨rfl, rfl⟩ := Prod.mk.inj heq
      exact Or.inl ⟨rfl, by rw [htext]⟩
    · exact Or.inr (Or.inl hlt)
    · rw [← htext] at hgt
      exact Or.inr (Or.inr hgt)
  rw [Bool.eq_iff_iff, covered_eq_true, covered_eq_true]
  refine exists_congr fun range => and_congr_right fun hrange => ?_
  obtain ⟨r, hr, hrange⟩ := List.mem_flatMap.mp hrange
  obtain ⟨m, hm, n, hn, rfl⟩ := exists_borders hrange
  have hlow := hcases m (List.mem_flatMap.mpr ⟨r, hr, hm⟩)
  have hhigh := hcases n (List.mem_flatMap.mpr ⟨r, hr, hn⟩)
  simp only [Occurrence.stop] at hlow hhigh ⊢
  omega

/-! ## Passes over tokenized trees -/

lemma Tokenized.passage {tree : Node} (h : Tokenized tree) {p : Passage} (hp : p ∈ passages tree) :
    ∀ t ∈ p.node.texts, IsTokenized t :=
  fun t ht => h t (texts_of_mem_passages hp t ht)

/-- **The flat text of a tokenized tree has the tokens of its texts,** and no others. -/
theorem Tokenized.mem_tokens {tree : Node} (h : Tokenized tree) {token : Token} :
    (∃ position, (position, token) ∈ tokens (flatText tree))
      ↔ ∃ t ∈ tree.texts, .token token ∈ pieces t := by
  have hpieces : ∀ p ∈ passages tree, pieces p.node.content = p.node.texts.flatMap pieces :=
    fun p hp => IsTokenized.pieces_flatten (h.passage hp)
  rw [tokens_flatText]
  constructor
  · rintro ⟨position, hmem⟩
    obtain ⟨p, hp, htoken⟩ := List.mem_flatMap.mp hmem
    have hcontent : Piece.token token ∈ pieces p.node.content := mem_of_mem_tokensFrom htoken
    rw [hpieces p hp] at hcontent
    obtain ⟨t, ht, hmem⟩ := List.mem_flatMap.mp hcontent
    exact ⟨t, texts_of_mem_passages hp t ht, hmem⟩
  · rintro ⟨t, ht, hmem⟩
    obtain ⟨p, hp, htp⟩ := exists_passage_of_mem_texts ht fun hnil => by
      rw [hnil] at hmem
      exact absurd hmem List.not_mem_nil
    have hcontent : Piece.token token ∈ pieces p.node.content := by
      rw [hpieces p hp]
      exact List.mem_flatMap.mpr ⟨t, htp, hmem⟩
    obtain ⟨before, after, hsplit⟩ := List.append_of_mem hcontent
    exact ⟨p.start + spelledLength before, List.mem_flatMap.mpr ⟨p, hp,
      mem_tokensFrom.mpr ⟨before, after, hsplit, rfl⟩⟩⟩

/-- One pass makes no pieces: those of the texts after it stand in texts before it. -/
theorem Tokenized.pieces_pass {tree next : Node} {data : Value} {count : Nat} (ht : Tokenized tree)
    (h : resolvePass tree data = .ok (next, count)) (hcount : 0 < count) :
    ∀ t ∈ next.texts, ∀ q ∈ pieces t, ∃ u ∈ tree.texts, q ∈ pieces u := by
  intro t hmem q hq
  obtain ⟨rulings, hd, hplaced, -, rfl⟩ := exists_rulings h hcount
  obtain ⟨leaf, hl, htl⟩ := exists_leaf_of_mem_texts _ hmem fun hnil => by
    rw [hnil] at hq
    exact absurd hq List.not_mem_nil
  have hnode : leaf.node ∈ (survivors tree rulings).map (Passage.remainder rulings) := by
    rw [← leaves_edit_rulings hplaced]
    exact List.mem_map_of_mem hl
  obtain ⟨p, hp, hrest⟩ := List.mem_map.mp hnode
  obtain ⟨hp, -⟩ := mem_survivors.mp hp
  rw [← hrest] at htl
  obtain ⟨u, hu, hsub⟩ := pieces_cut p.start p.node (ht.passage hp)
    (respectsTokens_deletedBy hd hp) t htl
  exact ⟨u, texts_of_mem_passages hp u hu, hsub.subset hq⟩

/-- One pass keeps a tree tokenized. -/
theorem Tokenized.pass {tree next : Node} {data : Value} {count : Nat} (ht : Tokenized tree)
    (h : resolvePass tree data = .ok (next, count)) (hcount : 0 < count) : Tokenized next := by
  intro t hmem q hq
  obtain ⟨u, hu, hqu⟩ := ht.pieces_pass h hcount t hmem q hq
  exact ht u hu q hqu

/-- **Passes make no pieces.** -/
theorem Passes.pieces {tree last : Node} {data : Value} (h : Passes data tree last)
    (ht : Tokenized tree) :
    ∀ t ∈ last.texts, ∀ q ∈ pieces t, ∃ u ∈ tree.texts, q ∈ FormLetter.pieces u := by
  induction h with
  | start tree =>
      intro t hmem q hq
      exact ⟨t, hmem, hq⟩
  | pass hpass hcount _ ih =>
      intro t hmem q hq
      obtain ⟨u, hu, hqu⟩ := ih (ht.pass hpass hcount) t hmem q hq
      exact ht.pieces_pass hpass hcount u hu q hqu

/-- **Passes keep a tree tokenized.** -/
theorem Passes.tokenized {tree last : Node} {data : Value} (h : Passes data tree last)
    (ht : Tokenized tree) : Tokenized last := by
  intro t hmem q hq
  obtain ⟨u, hu, hqu⟩ := h.pieces ht t hmem q hq
  exact ht u hu q hqu

end FormLetter
