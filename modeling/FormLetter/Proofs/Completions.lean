import FormLetter.Proofs.Fragments
import FormLetter.Proofs.Passes
import FormLetter.Proofs.Spelling
import FormLetter.Proofs.TokenGrammar
import FormLetter.Proofs.Tokenized

/-!
# Tokens that a cut completes

A pass deletes whole tokens, but an at-sign that belongs to no token may stand in front of what it
deletes.  What comes after the gap can then make it the first character of a token that nobody
wrote.  This file says that a pass makes tokens in this way only.

* **What completes a token.** `IsCompleted` — a token of the text that is left, whose first at-sign
  belonged to no token before, and from which something was deleted.
* **Up to there, nothing changes.** `pieces_keepPieces` — what a cut at the borders of tokens leaves
  is read as the pieces that it leaves, up to the first token that it completes.
* **Passes.** `resolvePass_tokens` — of each passage that stays, the tokens in front of the first
  completed one are tokens that it had, in their order.  `resolvePass_completes_token` — a pass can
  complete one.
-/

namespace FormLetter

/-! ## Pieces that are read one after the other -/

lemma length_text_pos (p : Piece) : 0 < p.text.length := by
  cases p with
  | char c => exact Nat.one_pos
  | token token =>
      rw [Piece.text, token.length_text]
      omega

lemma eq_nil_of_spelledLength {ps : List Piece} (h : spelledLength ps = 0) : ps = [] := by
  cases ps with
  | nil => rfl
  | cons p rest =>
      have := length_text_pos p
      rw [spelledLength_cons] at h
      omega

/-- Pieces that are read as themselves are so without the first of them, too. -/
lemma pieces_tail {p : Piece} {rest : List Piece}
    (h : pieces (p.text ++ rest.flatMap Piece.text) = p :: rest) :
    pieces (rest.flatMap Piece.text) = rest := by
  have hp : pieces p.text = [p] := pieces_text (h ▸ List.mem_cons_self)
  rcases pieces_append_cases p.text (rest.flatMap Piece.text) with
    happend | ⟨before, token, after, hps, hlow, hhigh, -⟩
  · rw [h, hp] at happend
    exact (List.cons.inj happend).2.symm
  · -- a token over the end of the first piece would be the first piece
    rw [h] at hps
    cases before with
    | nil =>
        obtain ⟨rfl, -⟩ := List.cons.inj hps
        rw [spelledLength_nil, Nat.zero_add] at hhigh
        exact absurd hhigh (Nat.lt_irrefl _)
    | cons q before =>
        obtain ⟨rfl, -⟩ := List.cons.inj hps
        rw [spelledLength_cons] at hlow
        omega

/-- Only an at-sign by itself can become the first character of a token. -/
lemma eq_at_of_isUnfinished {t : Text} {p : Piece} (hp : p ∈ pieces t)
    (h : isUnfinished p.text = true) : p = .char '@' := by
  cases p with
  | char c =>
      by_contra hne
      have hc : '@' ∉ [c] := fun hmem => hne (by rw [List.mem_singleton.mp hmem])
      have hfinished : isUnfinished [c] = false := isUnfinished_of_no_at hc
      rw [Piece.text, hfinished] at h
      exact Bool.false_ne_true h
  | token token =>
      have hsound : (Piece.token token).IsSound := meaning_of_mem_pieces hp
      have hread : readPieces none ([Piece.token token].flatMap Piece.text)
          = ([.token token], none) := readPieces_spell (by simpa using hsound)
      rw [List.flatMap_singleton] at hread
      rw [isUnfinished, hread] at h
      exact absurd h Bool.false_ne_true

/-! ## What is left after a cut -/

variable {ranges : List Range}

/-- If nothing is deleted of the characters from which a text that is left begins, then the text
before the cut begins with the same characters. -/
lemma exists_of_keepOutside {start : Nat} {t word rest : Text}
    (hkept : keepOutside ranges start t = word ++ rest)
    (h : ∀ k < word.length, covered ranges (start + k) = false) :
    ∃ others, t = word ++ others := by
  have hshort := length_keepOutside_le ranges start t
  rw [hkept, List.length_append] at hshort
  have hlength : (t.take word.length).length = word.length := List.length_take_of_le (by omega)
  have hfirst : keepOutside ranges start (t.take word.length) = t.take word.length :=
    keepOutside_of_uncovered fun k hk => h k (hlength ▸ hk)
  rw [← List.take_append_drop word.length t, keepOutside_append, hfirst] at hkept
  have hword := (List.append_inj hkept hlength).1
  refine ⟨t.drop word.length, ?_⟩
  nth_rewrite 1 [← List.take_append_drop word.length t]
  rw [hword]

/-- A token that begins with an at-sign which belonged to no token has lost some of what stood
between its characters. -/
lemma exists_covered_of_completed {start : Nat} {rest back : List Piece} {token : Token}
    (hread : pieces ('@' :: rest.flatMap Piece.text) = .char '@' :: rest)
    (hkept : pieces (keepOutside ranges start ('@' :: rest.flatMap Piece.text))
      = .token token :: back) :
    ∃ k < token.text.length, covered ranges (start + k) = true := by
  by_contra hnone
  have huncovered : ∀ k < token.text.length, covered ranges (start + k) = false :=
    fun k hk => Bool.eq_false_iff.mpr fun hc => hnone ⟨k, hk, hc⟩
  have hspell : keepOutside ranges start ('@' :: rest.flatMap Piece.text)
      = token.text ++ back.flatMap Piece.text := by
    rw [← spelled_pieces (keepOutside _ _ _), hkept]
    rfl
  obtain ⟨others, ht⟩ := exists_of_keepOutside hspell huncovered
  have hmeaning := meaning_of_mem_pieces (hkept ▸ List.mem_cons_self)
  -- so the token stands in the text before the cut, where the at-sign belongs to none
  have hlate : ∀ position other,
      (position, other) ∈ tokens ([] ++ token.text ++ others) → 1 ≤ position := by
    intro position other hmem
    rw [List.nil_append, ← ht, tokens, hread, tokensFrom] at hmem
    obtain ⟨before, after, -, hposition⟩ := mem_tokensFrom.mp hmem
    omega
  rcases found_or_shares hmeaning [] others with hmem | ⟨position, other, hmem, hshares⟩
  · exact absurd (hlate _ _ hmem) (by simp)
  · have hone := hlate _ _ hmem
    have hlong := other.length_text
    simp only [List.length_nil] at hshares
    omega

/-- **A cut at the borders of tokens leaves pieces that are read as themselves,** up to the first
token that it completes: one that begins with an at-sign which was a piece, and from which something
was deleted. -/
theorem pieces_keepPieces {start : Nat} {ps : List Piece}
    (hread : pieces (ps.flatMap Piece.text) = ps) (hrespects : RespectsTokens ranges start ps) :
    pieces ((keepPieces ranges start ps).flatMap Piece.text) = keepPieces ranges start ps
      ∨ ∃ before after token back, ps = before ++ .char '@' :: after
          ∧ covered ranges (start + spelledLength before) = false
          ∧ pieces ((keepPieces ranges start ps).flatMap Piece.text)
              = keepPieces ranges start before ++ .token token :: back
          ∧ ∃ k < token.text.length,
              covered ranges (start + spelledLength before + k) = true := by
  induction ps generalizing start with
  | nil => exact Or.inl rfl
  | cons p rest ih =>
      rw [List.flatMap_cons] at hread
      have hp : p ∈ pieces (p.text ++ rest.flatMap Piece.text) := hread ▸ List.mem_cons_self
      have hsplit := RespectsTokens.append.mp
        (show RespectsTokens ranges start ([p] ++ rest) from hrespects)
      simp only [spelledLength_cons, spelledLength_nil, Nat.add_zero] at hsplit
      have ih := ih (pieces_tail hread) hsplit.2
      cases hc : covered ranges start with
      | true =>
          rw [keepPieces, if_pos hc]
          refine ih.imp_right ?_
          rintro ⟨before, after, token, back, rfl, hkept, hps, k, hk, hcovered⟩
          refine ⟨p :: before, after, token, back, rfl, ?_, ?_, k, hk, ?_⟩
          · rwa [spelledLength_cons, ← Nat.add_assoc]
          · rwa [keepPieces, if_pos hc]
          · rwa [spelledLength_cons, ← Nat.add_assoc]
      | false =>
          have hfirst : keepPieces ranges start (p :: rest)
              = p :: keepPieces ranges (start + p.text.length) rest := by
            rw [keepPieces, if_neg (by simp [hc])]
          rcases pieces_append_cases p.text
              ((keepPieces ranges (start + p.text.length) rest).flatMap Piece.text) with
            happend | ⟨before, token, back, hps, hlow, hhigh, hopen⟩
          · rw [pieces_text hp] at happend
            rw [hfirst, List.flatMap_cons, happend]
            rcases ih with hsame | ⟨before, after, token, back, rfl, hkept, hps, k, hk, hcovered⟩
            · exact Or.inl (by rw [hsame]; rfl)
            · refine Or.inr ⟨p :: before, after, token, back, rfl, ?_, ?_, k, hk, ?_⟩
              · rwa [spelledLength_cons, ← Nat.add_assoc]
              · rw [hps, keepPieces, if_neg (by simp [hc])]
                rfl
              · rwa [spelledLength_cons, ← Nat.add_assoc]
          · -- the first piece begins a token that ends behind it
            obtain rfl := eq_at_of_isUnfinished hp hopen
            obtain rfl : before = [] := eq_nil_of_spelledLength (by
              simp only [Piece.text, List.length_singleton] at hlow
              omega)
            have hkept : keepOutside ranges start ('@' :: rest.flatMap Piece.text)
                = '@' :: (keepPieces ranges (start + 1) rest).flatMap Piece.text := by
              have hspell := keepOutside_spell hrespects
              rwa [hfirst] at hspell
            refine Or.inr ⟨[], rest, token, back, rfl, by simpa using hc, ?_, ?_⟩
            · rw [hfirst, List.flatMap_cons, hps]
              rfl
            · rw [spelledLength_nil, Nat.add_zero]
              exact exists_covered_of_completed hread (by rw [hkept]; exact hps)

/-! ## Tokens of what is left -/

/-- A token that stands at a position of what is left of a text, and that nobody wrote: its first
at-sign belonged to no token, and something was deleted from between its characters. -/
def IsCompleted (ranges : List Range) (start : Nat) (t : Text) (position : Nat) (token : Token) :
    Prop :=
  ∃ before after, pieces t = before ++ .char '@' :: after
    ∧ covered ranges (start + spelledLength before) = false
    ∧ position = (keepOutside ranges start (t.take (spelledLength before))).length
    ∧ ∃ k < token.text.length, covered ranges (start + spelledLength before + k) = true

/-- A text in which every at-sign belongs to a token gives nothing to complete. -/
lemma IsTokenized.not_isCompleted {t : Text} (h : IsTokenized t) {start position : Nat}
    {token : Token} : ¬ IsCompleted ranges start t position token := by
  rintro ⟨before, after, hps, -⟩
  exact isTokenized_iff.mp h (hps ▸ List.mem_append_right before List.mem_cons_self)

/-- The texts of the tokens of a text. -/
def tokenTexts (t : Text) : List Text := (tokens t).map fun (_, token) => token.text

/-- Among fewer pieces in the old order there are fewer tokens, in the old order. -/
lemma sublist_tokens {ps qs : List Piece} (h : ps.Sublist qs) (i j : Nat) :
    ((tokensFrom i ps).map fun entry => entry.2.text).Sublist
      ((tokensFrom j qs).map fun entry => entry.2.text) := by
  induction h generalizing i j with
  | slnil => exact List.Sublist.refl _
  | cons p _ ih =>
      cases p with
      | char c => exact ih _ _
      | token token => exact (ih _ _).cons _
  | cons_cons p _ ih =>
      cases p with
      | char c => exact ih _ _
      | token token => exact (ih _ _).cons_cons _

/-- **The tokens that a cut at the borders of tokens leaves,** in front of the first one that it
completes, are tokens of the text before the cut. -/
theorem sublist_tokenTexts {start : Nat} {t : Text}
    (hrespects : RespectsTokens ranges start (pieces t)) {front back : List (Nat × Token)}
    (hsplit : tokens (keepOutside ranges start t) = front ++ back)
    (hfront : ∀ entry ∈ front, ¬ IsCompleted ranges start t entry.1 entry.2) :
    (front.map fun entry => entry.2.text).Sublist (tokenTexts t) := by
  have hspell := keepOutside_spell hrespects
  rw [spelled_pieces] at hspell
  have hread : pieces ((pieces t).flatMap Piece.text) = pieces t := by rw [spelled_pieces]
  rw [tokens, hspell] at hsplit
  rcases pieces_keepPieces hread hrespects with
    hsame | ⟨before, after, token, others, hps, hkept, hpieces, k, hk, hcovered⟩
  · rw [hsame] at hsplit
    have hfew : (front.map fun entry => entry.2.text).Sublist
        ((tokensFrom 0 (keepPieces ranges start (pieces t))).map fun entry => entry.2.text) := by
      rw [hsplit, List.map_append]
      exact List.sublist_append_left _ _
    exact hfew.trans (sublist_tokens (keepPieces_sublist ranges start _) 0 0)
  · rw [hpieces, tokensFrom_append, tokensFrom, Nat.zero_add] at hsplit
    have hcompleted : IsCompleted ranges start t
        (spelledLength (keepPieces ranges start before)) token := by
      refine ⟨before, after, hps, hkept, ?_, k, hk, hcovered⟩
      have htake : t.take (spelledLength before) = before.flatMap Piece.text := by
        rw [← spelled_pieces t, hps, List.flatMap_append]
        exact List.take_left
      rw [hps] at hrespects
      rw [htake, keepOutside_spell (RespectsTokens.append.mp hrespects).1]
      rfl
    -- the completed token is not in front, so what is in front comes before it
    have hbefore : front <+: tokensFrom 0 (keepPieces ranges start before) := by
      rcases List.append_eq_append_iff.mp hsplit with
        ⟨middle, hmiddle, hrest⟩ | ⟨middle, hmiddle, hrest⟩
      · cases middle with
        | nil =>
            rw [List.append_nil] at hmiddle
            exact ⟨[], by rw [List.append_nil, hmiddle]⟩
        | cons entry middle =>
            obtain ⟨rfl, -⟩ := List.cons.inj hrest
            have hmem : (spelledLength (keepPieces ranges start before), token) ∈ front :=
              hmiddle ▸ List.mem_append_right _ List.mem_cons_self
            exact absurd hcompleted (hfront _ hmem)
      · exact ⟨middle, hmiddle.symm⟩
    have hearly : before.Sublist (pieces t) := hps ▸ List.sublist_append_left _ _
    refine ((hbefore.map _).sublist).trans ?_
    exact sublist_tokens ((keepPieces_sublist ranges start before).trans hearly) 0 0

/-! ## Passes -/

/-- What a pass leaves of the passages that stay, whether or not there was something to resolve. -/
lemma exists_survivors {tree next : Node} {data : Value} {count : Nat}
    (h : resolvePass tree data = .ok (next, count)) :
    ∃ rulings : List Ruling, Decides tree data rulings ∧ rulings.length = count
      ∧ next.leaves.map Leaf.node = (survivors tree rulings).map (Passage.remainder rulings) := by
  rcases Nat.eq_zero_or_pos count with rfl | hcount
  · obtain ⟨rfl, hnone⟩ := resolvePass_eq_zero.mp h
    have hdecides : Decides next data [] := ⟨by rw [hnone]; rfl, by simp⟩
    have hall := @leaves_edit_rulings next [] (by simp)
    rw [List.flatMap_nil, edit_nil] at hall
    exact ⟨[], hdecides, rfl, hall⟩
  · obtain ⟨rulings, hdecides, hplaced, hlength, rfl⟩ := exists_rulings h hcount
    exact ⟨rulings, hdecides, hlength, leaves_edit_rulings hplaced⟩

/-- **A pass makes no tokens but those that it completes.**  Of each passage that stays, the tokens
in front of the first completed one are tokens that the passage had before the pass, in their
order; so are all of them where every at-sign of the passage belonged to a token. -/
theorem resolvePass_tokens {tree next : Node} {data : Value} {count : Nat}
    (h : resolvePass tree data = .ok (next, count)) :
    ∃ rulings : List Ruling, Decides tree data rulings ∧ rulings.length = count
      ∧ next.leaves.map Leaf.node = (survivors tree rulings).map (Passage.remainder rulings)
      ∧ ∀ p ∈ survivors tree rulings,
        (∀ front back, tokens (p.remainder rulings).content = front ++ back →
          (∀ entry ∈ front,
            ¬ IsCompleted (deletedBy rulings) p.start p.node.content entry.1 entry.2) →
          (front.map fun entry => entry.2.text).Sublist (tokenTexts p.node.content))
        ∧ (IsTokenized p.node.content →
          (tokenTexts (p.remainder rulings).content).Sublist (tokenTexts p.node.content)) := by
  obtain ⟨rulings, hdecides, hlength, hleaves⟩ := exists_survivors h
  refine ⟨rulings, hdecides, hlength, hleaves, fun p hp => ?_⟩
  have hrespects := respectsTokens_deletedBy hdecides (mem_survivors.mp hp).1
  rw [Passage.remainder, content_cut]
  refine ⟨fun front back hsplit hfront => sublist_tokenTexts hrespects hsplit hfront, ?_⟩
  intro htokenized
  exact sublist_tokenTexts hrespects (List.append_nil _).symm
    fun entry _ => htokenized.not_isCompleted

/-- An at-sign of its own stands in front of a marker, and no token comes of it. -/
theorem resolvePass_tokens_address :
    let tree := plainBody ["write to me@@if:a@home@else@work@endif@", "@name@"]
    let next := plainBody ["write to me@home", "@name@"]
    let data := flags [("a", true)]
    resolvePass tree data = .ok (next, 1)
      ∧ ∃ rulings : List Ruling, Decides tree data rulings ∧ rulings.length = 1
        ∧ next.leaves.map Leaf.node = (survivors tree rulings).map (Passage.remainder rulings)
        ∧ ∀ p ∈ survivors tree rulings,
          (∀ front back, tokens (p.remainder rulings).content = front ++ back →
            (∀ entry ∈ front,
              ¬ IsCompleted (deletedBy rulings) p.start p.node.content entry.1 entry.2) →
            (front.map fun entry => entry.2.text).Sublist (tokenTexts p.node.content))
          ∧ (IsTokenized p.node.content →
            (tokenTexts (p.remainder rulings).content).Sublist (tokenTexts p.node.content)) := by
  intro tree next data
  have hpass : resolvePass tree data = .ok (next, 1) := by decide +kernel
  exact ⟨hpass, resolvePass_tokens hpass⟩

/-- **A pass can complete a token.**  The first at-sign of the paragraph belongs to no token; after
the pass it begins one, which is not among those that the paragraph had. -/
theorem resolvePass_completes_token :
    let tree := plainBody ["@@if:a@name@endif@@"]
    let next := plainBody ["@name@"]
    resolvePass tree (flags [("a", true)]) = .ok (next, 1)
      ∧ tree.leaves.map (fun leaf => tokenTexts leaf.node.content)
          = [["@if:a@".toList, "@endif@".toList]]
      ∧ next.leaves.map (fun leaf => tokenTexts leaf.node.content) = [["@name@".toList]]
      ∧ ¬ ["@name@".toList].Sublist ["@if:a@".toList, "@endif@".toList] := by
  decide +kernel

end FormLetter
