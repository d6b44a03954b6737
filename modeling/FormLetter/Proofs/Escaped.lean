import FormLetter.Document.Unescape
import FormLetter.Merge.Substitution
import FormLetter.Proofs.Tokenized

/-!
# Escaped text

What stands between the tags of a tree is escaped: an ampersand always begins a reference to one of
the characters of markup, and the reference is complete.  Whatever a merge does to such a text, it
stays escaped, because references and tokens cannot overlap: no reference holds an at-sign.

* `IsEscaped Q` — the text consists of characters for which `Q` holds and of such references.
  Escaping makes it so (`isEscaped_escapeMarkup`, `isEscaped_escapeValue`), and resolving the
  references gives characters for which `Q` holds again (`IsEscaped.of_mem_unescape`).
* `IsEscaped.of_append_at` — at an at-sign the text can be taken apart.
* `IsEscaped.respell` — so tokens can be replaced by other escaped texts, and
  `IsEscaped.keepOutside`, `isEscaped_cut` — ranges can be cut out whose borders are at-signs.
-/

namespace FormLetter

/-- Character data as it stands between tags: characters that stand for themselves, for which `Q`
holds, and complete references to the characters of markup. -/
inductive IsEscaped (Q : Char → Prop) : Text → Prop
  | nil : IsEscaped Q []
  | plain {c : Char} {t : Text} (hc : c ≠ '&') (hQ : Q c) (h : IsEscaped Q t) :
      IsEscaped Q (c :: t)
  | reference {name t : Text} (hname : name ∈ namedChars.map Prod.fst) (h : IsEscaped Q t) :
      IsEscaped Q ('&' :: (name ++ ';' :: t))

section

variable {Q : Char → Prop}

namespace IsEscaped

lemma mono {R : Char → Prop} (hR : ∀ c, Q c → R c) {t : Text} (h : IsEscaped Q t) :
    IsEscaped R t := by
  induction h with
  | nil => exact .nil
  | plain hc hQ _ ih => exact .plain hc (hR _ hQ) ih
  | reference hname _ ih => exact .reference hname ih

lemma append {t u : Text} (ht : IsEscaped Q t) (hu : IsEscaped Q u) : IsEscaped Q (t ++ u) := by
  induction ht with
  | nil => exact hu
  | plain hc hQ _ ih => exact .plain hc hQ ih
  | @reference name t hname _ ih =>
      rw [List.cons_append, List.append_assoc, List.cons_append]
      exact .reference hname ih

lemma flatMap {α : Type} {f : α → Text} {l : List α} (h : ∀ a ∈ l, IsEscaped Q (f a)) :
    IsEscaped Q (l.flatMap f) := by
  induction l with
  | nil => exact .nil
  | cons a rest ih =>
      rw [List.forall_mem_cons] at h
      rw [List.flatMap_cons]
      exact h.1.append (ih h.2)

/-- A text without ampersands is escaped. -/
lemma of_plain {t : Text} (h : ∀ c ∈ t, c ≠ '&' ∧ Q c) : IsEscaped Q t := by
  induction t with
  | nil => exact .nil
  | cons c rest ih =>
      rw [List.forall_mem_cons] at h
      exact .plain h.1.1 h.1.2 (ih h.2)

/-- A reference holds no at-sign before its semicolon. -/
lemma at_not_mem_name {name : Text} (h : name ∈ namedChars.map Prod.fst) : '@' ∉ name := by
  revert name
  decide

/-- **At an at-sign an escaped text falls into escaped texts.** -/
theorem of_append_at {t u : Text} (h : IsEscaped Q (t ++ '@' :: u)) :
    IsEscaped Q t ∧ IsEscaped Q u := by
  generalize hall : t ++ '@' :: u = all at h
  induction h generalizing t with
  | nil => simp at hall
  | @plain c rest hc hQ hrest ih =>
      cases t with
      | nil =>
          obtain ⟨-, rfl⟩ := List.cons.inj hall
          exact ⟨.nil, hrest⟩
      | cons d front =>
          obtain ⟨rfl, hrest⟩ := List.cons.inj hall
          obtain ⟨hfront, hu⟩ := ih hrest
          exact ⟨.plain hc hQ hfront, hu⟩
  | @reference name rest hname hrest ih =>
      cases t with
      | nil => exact absurd (List.cons.inj hall).1 (by decide)
      | cons d front =>
          obtain ⟨rfl, hrest⟩ := List.cons.inj hall
          rcases List.append_eq_append_iff.mp hrest.symm with
            ⟨inside, rfl, hinside⟩ | ⟨inside, rfl, hinside⟩
          · -- the at-sign stands behind the name, and so behind the semicolon
            cases inside with
            | nil => exact absurd (List.cons.inj hinside).1 (by decide)
            | cons e back =>
                obtain ⟨rfl, hback⟩ := List.cons.inj hinside
                obtain ⟨hback, hu⟩ := ih hback.symm
                exact ⟨.reference hname hback, hu⟩
          · -- the at-sign stands in the name
            cases inside with
            | nil => exact absurd (List.cons.inj hinside).1 (by decide)
            | cons e back =>
                obtain ⟨rfl, -⟩ := List.cons.inj hinside
                exact absurd (by simp) (at_not_mem_name hname)

/-- **Tokens can be replaced by escaped texts,** whatever stands in front of them. -/
theorem respell {f : Piece → Text} : ∀ {ps : List Piece} (front : Text),
    (∀ c, f (.char c) = [c]) →
    (∀ token, Piece.token token ∈ ps → IsEscaped Q token.body → IsEscaped Q (f (.token token))) →
    IsEscaped Q (front ++ ps.flatMap Piece.text) → IsEscaped Q (front ++ ps.flatMap f)
  | [], _, _, _, h => h
  | .char c :: rest, front, hchar, htoken, h => by
      have hrest := respell (front ++ [c]) hchar
        (fun token hmem => htoken token (List.mem_cons_of_mem _ hmem))
        (by simpa [Piece.text] using h)
      simpa [hchar] using hrest
  | .token token :: rest, front, hchar, htoken, h => by
      have h' : IsEscaped Q (front ++ '@' :: (token.body ++ '@' :: rest.flatMap Piece.text)) := by
        simpa [Piece.text, Token.text] using h
      obtain ⟨hfront, hbehind⟩ := h'.of_append_at
      obtain ⟨hbody, hrest⟩ := hbehind.of_append_at
      have hrest' := respell [] hchar
        (fun token hmem => htoken token (List.mem_cons_of_mem _ hmem)) hrest
      rw [List.flatMap_cons]
      exact hfront.append ((htoken token List.mem_cons_self hbody).append hrest')

end IsEscaped

/-- A complete reference to a character of markup. -/
lemma isEscaped_reference {name : Text} (h : name ∈ namedChars.map Prod.fst) :
    IsEscaped Q ('&' :: (name ++ [';'])) := .reference h .nil

/-! ## Cuts next to at-signs -/

/-- Ranges begin and end next to at-signs of the text that starts at this position: whatever
stretch of it has none is covered as a whole or not at all. -/
def CutsAtSigns (ranges : List Range) (start : Nat) (t : Text) : Prop :=
  ∀ before stretch after, t = before ++ (stretch ++ after) → '@' ∉ stretch →
    ∀ i < stretch.length,
      covered ranges (start + before.length + i) = covered ranges (start + before.length)

namespace CutsAtSigns

variable {ranges : List Range} {start : Nat} {t u : Text}

lemma left (h : CutsAtSigns ranges start (t ++ u)) : CutsAtSigns ranges start t := by
  intro before stretch after heq
  exact h before stretch (after ++ u) (by rw [heq]; simp only [List.append_assoc])

lemma right (h : CutsAtSigns ranges start (t ++ u)) :
    CutsAtSigns ranges (start + t.length) u := by
  intro before stretch after heq hat i hi
  have := h (t ++ before) stretch after (by rw [heq, List.append_assoc]) hat i hi
  rwa [List.length_append, ← Nat.add_assoc] at this

end CutsAtSigns

/-- **A cut next to at-signs leaves escaped text,** since it keeps or deletes each reference as a
whole. -/
theorem IsEscaped.keepOutside {ranges : List Range} {start : Nat} {t : Text} (h : IsEscaped Q t)
    (hcuts : CutsAtSigns ranges start t) : IsEscaped Q (keepOutside ranges start t) := by
  induction h generalizing start with
  | nil => exact .nil
  | @plain c t hc hQc ht ih =>
      have hrest := ih (hcuts.right (t := [c]))
      rw [FormLetter.keepOutside]
      split
      · exact hrest
      · exact .plain hc hQc hrest
  | @reference name t hname ht ih =>
      have hsplit : '&' :: (name ++ ';' :: t) = ('&' :: (name ++ [';'])) ++ t := by simp
      rw [hsplit] at hcuts ⊢
      have hrest := ih hcuts.right
      have hwhole := hcuts [] ('&' :: (name ++ [';'])) t rfl (by simp [at_not_mem_name hname])
      simp only [List.length_nil, Nat.add_zero] at hwhole
      rw [keepOutside_append]
      cases hc : covered ranges start with
      | true =>
          rw [keepOutside_of_covered fun k hk => (hwhole k hk).trans hc]
          exact hrest
      | false =>
          rw [keepOutside_of_uncovered fun k hk => (hwhole k hk).trans hc]
          exact (isEscaped_reference hname).append hrest

mutual

/-- The texts of a tree stay escaped when the tree is cut next to at-signs. -/
theorem isEscaped_cut {ranges : List Range} : ∀ (start : Nat) (node : Node),
    (∀ t ∈ node.texts, IsEscaped Q t) → CutsAtSigns ranges start node.content →
      ∀ t ∈ (node.cut ranges start).texts, IsEscaped Q t
  | start, .text value, h, hcuts, t, ht => by
      rw [Node.cut, Node.texts, List.mem_singleton] at ht
      rw [content_text] at hcuts
      rw [ht]
      exact (h value (List.mem_singleton_self value)).keepOutside hcuts
  | start, .element tag children, h, hcuts, t, ht => by
      rw [content_element] at hcuts
      exact isEscaped_cutAll start children h hcuts t ht

theorem isEscaped_cutAll {ranges : List Range} : ∀ (start : Nat) (nodes : List Node),
    (∀ t ∈ Node.textsOf nodes, IsEscaped Q t) → CutsAtSigns ranges start (Node.contentOf nodes) →
      ∀ t ∈ Node.textsOf (Node.cutAll ranges start nodes), IsEscaped Q t
  | _, [], _, _, t, ht => by simp [Node.cutAll, Node.textsOf] at ht
  | start, node :: rest, h, hcuts, t, ht => by
      rw [Node.textsOf, List.forall_mem_append] at h
      rw [contentOf_cons] at hcuts
      rw [Node.cutAll, Node.textsOf, List.mem_append] at ht
      rcases ht with ht | ht
      · exact isEscaped_cut start node h.1 hcuts.left t ht
      · exact isEscaped_cutAll _ rest h.2 hcuts.right t ht

end

/-! ## Escaping -/

/-- Escaping leaves no angle brackets, so only the other characters have to be as `Q` says. -/
lemma isEscaped_escapeMarkup {t : Text} (h : ∀ c ∈ t, c ≠ '<' → c ≠ '>' → Q c) :
    IsEscaped Q (escapeMarkup t) := by
  refine IsEscaped.flatMap fun c hc => ?_
  split_ifs with hamp hless hgreater
  · exact isEscaped_reference (show Text.ofString "amp" ∈ _ by decide)
  · exact isEscaped_reference (show Text.ofString "lt" ∈ _ by decide)
  · exact isEscaped_reference (show Text.ofString "gt" ∈ _ by decide)
  · exact .plain hamp (h c hc hless hgreater) .nil

lemma isEscaped_escapeValue {t : Text} (h : ∀ c ∈ t, c ≠ '<' → c ≠ '>' → Q c) :
    IsEscaped Q (escapeValue t) := by
  refine IsEscaped.flatMap fun c hc => ?_
  split_ifs with hamp hless hgreater
  · exact isEscaped_reference (show Text.ofString "amp" ∈ _ by decide)
  · exact isEscaped_reference (show Text.ofString "lt" ∈ _ by decide)
  · exact isEscaped_reference (show Text.ofString "gt" ∈ _ by decide)
  · exact isEscaped_reference (show Text.ofString "quot" ∈ _ by decide)
  · exact isEscaped_reference (show Text.ofString "apos" ∈ _ by decide)
  · exact .plain hamp (h c hc hless hgreater) .nil

/-! ## Resolving -/

lemma unescape_cons {c : Char} (hc : c ≠ '&') (t : Text) : unescape (c :: t) = c :: unescape t := by
  rw [unescape]
  exact hc

lemma namedChars_eq : namedChars =
    [(['a', 'm', 'p'], '&'), (['l', 't'], '<'), (['g', 't'], '>'),
     (['q', 'u', 'o', 't'], '\x22'), (['a', 'p', 'o', 's'], '\x27')] := by
  decide

/-- The names of the characters of markup are known. -/
lemma entityText?_of_mem {name : Text} {c : Char} (h : (name, c) ∈ namedChars) :
    entityText? name = some [c] := by
  have hlookup : ∀ entry ∈ namedChars, namedChars.lookup entry.1 = some entry.2 := by decide
  rw [entityText?, hlookup _ h]
  rfl

/-- A name with its semicolon is looked up as a whole. -/
lemma resolve_reference {name : Text} {c : Char} (h : (name, c) ∈ namedChars) (t : Text) :
    codeReference? (name ++ ';' :: t) = none ∧ nameReference? (name ++ ';' :: t) = some ([c], t) := by
  have hname := entityText?_of_mem h
  rw [namedChars_eq] at h
  simp only [List.mem_cons, Prod.mk.injEq, List.not_mem_nil, or_false] at h
  rcases h with ⟨rfl, rfl⟩ | ⟨rfl, rfl⟩ | ⟨rfl, rfl⟩ | ⟨rfl, rfl⟩ | ⟨rfl, rfl⟩
  all_goals exact ⟨rfl, by simp [nameReference?, maxNameLength, endsName, hname]⟩

/-- A complete reference to a character of markup is resolved to it. -/
lemma unescape_named {name : Text} {c : Char} (h : (name, c) ∈ namedChars) (t : Text) :
    unescape ('&' :: (name ++ ';' :: t)) = c :: unescape t := by
  obtain ⟨hnumber, hfound⟩ := resolve_reference h t
  rw [unescape, hnumber, hfound]
  simp only [Option.none_or]
  rw [if_pos (by simp; omega), List.singleton_append]

/-- What stands in front of the first separator stays in the first piece. -/
lemma splitOn_append {separator : Char} : ∀ {s : Text} (_ : separator ∉ s) (t : Text),
    ∃ piece pieces, Text.splitOn separator t = piece :: pieces
      ∧ Text.splitOn separator (s ++ t) = (s ++ piece) :: pieces
  | [], _, t => by
      obtain ⟨piece, pieces, h⟩ := List.exists_cons_of_ne_nil (Text.splitOn_ne_nil separator t)
      exact ⟨piece, pieces, h, h⟩
  | c :: s, hs, t => by
      rw [List.mem_cons, not_or] at hs
      obtain ⟨piece, pieces, ht, hst⟩ := splitOn_append hs.2 t
      refine ⟨piece, pieces, ht, ?_⟩
      rw [List.cons_append, Text.splitOn, if_neg (Ne.symm hs.1), hst]
      rfl

/-- **No conversion is refused in an escaped text,** which has no references by code. -/
theorem IsEscaped.referenceRefusal? {t : Text} (h : IsEscaped Q t) :
    FormLetter.referenceRefusal? t = none := by
  unfold FormLetter.referenceRefusal?
  induction h with
  | nil => rfl
  | @plain c t hc _ _ ih =>
      obtain ⟨piece, pieces, ht, hct⟩ := splitOn_append (s := [c]) (by simpa using Ne.symm hc) t
      rw [List.singleton_append] at hct
      rw [ht, List.drop_one, List.tail_cons] at ih
      rwa [hct, List.drop_one, List.tail_cons]
  | @reference name t hname _ ih =>
      have hamp : '&' ∉ name ++ [';'] := by
        revert name
        decide
      have hcode : ∀ rest, codeRefusal? (name ++ rest) = none := by
        obtain ⟨⟨_, c⟩, hentry, rfl⟩ := List.mem_map.mp hname
        rw [namedChars_eq] at hentry
        simp only [List.mem_cons, Prod.mk.injEq, List.not_mem_nil, or_false] at hentry
        rcases hentry with ⟨rfl, -⟩ | ⟨rfl, -⟩ | ⟨rfl, -⟩ | ⟨rfl, -⟩ | ⟨rfl, -⟩
        all_goals exact fun rest => rfl
      obtain ⟨piece, pieces, ht, hsplit⟩ := splitOn_append hamp t
      rw [List.append_assoc, List.singleton_append] at hsplit
      rw [Text.splitOn, if_pos rfl, List.drop_one, List.tail_cons, hsplit, List.findSome?_cons,
        List.append_assoc, hcode]
      rwa [ht, List.drop_one, List.tail_cons] at ih

lemma unescape_reference {name : Text} (hname : name ∈ namedChars.map Prod.fst) (t : Text) :
    ∃ c ∈ namedChars.map Prod.snd, unescape ('&' :: (name ++ ';' :: t)) = c :: unescape t := by
  obtain ⟨⟨_, c⟩, hentry, rfl⟩ := List.mem_map.mp hname
  exact ⟨c, List.mem_map_of_mem hentry, unescape_named hentry t⟩

/-- **What an escaped text stands for consists of characters for which `Q` holds,** if `Q` holds of
the characters of markup. -/
theorem IsEscaped.of_mem_unescape (hQ : ∀ c ∈ namedChars.map Prod.snd, Q c) {t : Text}
    (h : IsEscaped Q t) : ∀ c ∈ unescape t, Q c := by
  induction h with
  | nil => simp [unescape]
  | plain hc hQc _ ih =>
      rw [unescape_cons hc]
      exact List.forall_mem_cons.mpr ⟨hQc, ih⟩
  | @reference name t hname _ ih =>
      obtain ⟨c, hc, heq⟩ := unescape_reference hname t
      rw [heq]
      exact List.forall_mem_cons.mpr ⟨hQ c hc, ih⟩

end

end FormLetter
