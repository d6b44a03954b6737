import FormLetter.Proofs.Escaped
import FormLetter.Proofs.NestedTables
import FormLetter.Proofs.Splicing

/-!
# Values come out as given

A document holds its texts escaped, and a value is escaped before it takes the place of a
placeholder.  A reader of the document resolves the references again, and finds the text the author
wrote with the values that the data hold.

* `SparesTokens` — ways to spell out characters that tokens are immune to: the characters of a body
  stay, and what another character becomes still fits into no body.  `SparesTokens.tokens_spelledOut`
  — a text that is spelled out so has the tokens it had, moved.
* `IsEscaped.unescape_append` — no reference comes about where an escaped text ends, so references
  are resolved text by text.
* `fillText_verbatim` — filling in an escaped text is splicing the text itself, with the values
  themselves.
-/

namespace FormLetter

/-! ## Tokens of texts that are spelled out -/

/-- A way to spell out characters under which tokens stay as they are: at-signs neither come nor go,
the characters of bodies stay, and no other character becomes such characters alone. -/
structure SparesTokens (f : Char → Text) : Prop where
  at_sign : f '@' = ['@']
  no_at_sign {c : Char} : c ≠ '@' → '@' ∉ f c
  body {c : Char} : isBodyChar c = true → f c = [c]
  other {c : Char} : isBodyChar c = false → ∃ d ∈ f c, isBodyChar d = false

/-- The pieces that a piece becomes when characters are spelled out. -/
def Piece.spelledOut (f : Char → Text) : Piece → List Piece
  | .char c => (f c).map .char
  | .token t => [.token t]

/-- The state of a reader that has read the characters spelled out. -/
def ReaderState.spelledOut (f : Char → Text) : ReaderState → ReaderState
  | none => none
  | some body => some (body.reverse.flatMap f).reverse

lemma flatMap_spelledOut_chars (f : Char → Text) (t : Text) :
    (t.map Piece.char).flatMap (Piece.spelledOut f) = (t.flatMap f).map .char := by
  rw [List.flatMap_map, List.map_flatMap]
  rfl

lemma ofBody?_eq_none {body : Text} {c : Char} (hc : c ∈ body) (h : isBodyChar c = false) :
    Meaning.ofBody? body = none := by
  cases hm : Meaning.ofBody? body with
  | none => rfl
  | some meaning =>
      rw [isBodyChar_of_ofBody? hm hc] at h
      cases h

namespace SparesTokens

variable {f : Char → Text}

lemma text_spelledOut (hf : SparesTokens f) (state : ReaderState) :
    (state.spelledOut f).text = state.text.flatMap f := by
  cases state with
  | none => rfl
  | some body => simp [ReaderState.spelledOut, ReaderState.text, hf.at_sign]

lemma flatMap_body (hf : SparesTokens f) {body : Text} (h : ∀ c ∈ body, isBodyChar c = true) :
    body.flatMap f = body := by
  rw [List.flatMap_congr fun c hc => hf.body (h c hc), List.flatMap_singleton']

/-- A body means what it meant. -/
lemma ofBody?_flatMap (hf : SparesTokens f) (body : Text) :
    Meaning.ofBody? (body.flatMap f) = Meaning.ofBody? body := by
  by_cases h : ∀ c ∈ body, isBodyChar c = true
  · rw [hf.flatMap_body h]
  · simp only [not_forall, Bool.not_eq_true] at h
    obtain ⟨c, hc, hodd⟩ := h
    obtain ⟨d, hd, hodd'⟩ := hf.other hodd
    rw [ofBody?_eq_none hc hodd, ofBody?_eq_none (List.mem_flatMap.mpr ⟨c, hc, hd⟩) hodd']

lemma flatMap_token (hf : SparesTokens f) {token : Token}
    (h : Meaning.ofBody? token.body = some token.meaning) : token.text.flatMap f = token.text := by
  have hbody := hf.flatMap_body fun c hc => isBodyChar_of_ofBody? h hc
  simp [Token.text, hf.at_sign, hbody]

/-- What one character becomes is read as characters, outside all candidates. -/
lemma readPieces_none (hf : SparesTokens f) {c : Char} (hc : c ≠ '@') :
    readPieces none (f c) = ((f c).map .char, none) := by
  have hsound : ∀ p ∈ (f c).map Piece.char, p.IsSound := by
    simp only [List.mem_map, forall_exists_index, and_imp, forall_apply_eq_imp_iff₂]
    intro d hd hat
    exact hf.no_at_sign hc (hat ▸ hd)
  have h := readPieces_spell hsound
  rwa [flatMap_text_map_char] at h

/-- **Reading commutes with spelling out.** -/
theorem readPieces_spelledOut (hf : SparesTokens f) (state : ReaderState) (t : Text) :
    readPieces (state.spelledOut f) (t.flatMap f)
      = ((readPieces state t).1.flatMap (Piece.spelledOut f),
          (readPieces state t).2.spelledOut f) := by
  fun_induction readPieces state t with
  | case1 state => cases state <;> rfl
  | case2 rest ih =>
      rw [List.flatMap_cons, hf.at_sign]
      simpa [ReaderState.spelledOut, readPieces] using ih
  | case3 c rest hc pieces last e ih =>
      rw [e] at ih
      rw [List.flatMap_cons, ReaderState.spelledOut, readPieces_append, hf.readPieces_none hc]
      simp only [ReaderState.spelledOut] at ih
      rw [ih]
      rfl
  | case4 body rest meaning hm pieces last e ih =>
      rw [e] at ih
      have hmeaning : Meaning.ofBody? (body.reverse.flatMap f) = some meaning :=
        (hf.ofBody?_flatMap _).trans hm
      have hbody : body.reverse.flatMap f = body.reverse :=
        hf.flatMap_body fun c hc => isBodyChar_of_ofBody? hm hc
      simp only [ReaderState.spelledOut] at ih
      simp only [List.flatMap_cons, hf.at_sign, ReaderState.spelledOut, List.cons_append,
        List.nil_append, readPieces, ↓reduceIte, List.reverse_reverse, hmeaning, ih]
      rw [hbody]
      rfl
  | case5 body rest hm pieces last e ih =>
      rw [e] at ih
      have hmeaning : Meaning.ofBody? (body.reverse.flatMap f) = none :=
        (hf.ofBody?_flatMap _).trans hm
      simp only [ReaderState.spelledOut, List.reverse_nil, List.flatMap_nil] at ih
      simp only [List.flatMap_cons, hf.at_sign, ReaderState.spelledOut, List.cons_append,
        List.nil_append, readPieces, ↓reduceIte, List.reverse_reverse, hmeaning, ih]
      rw [List.flatMap_append, flatMap_spelledOut_chars, Piece.spelledOut, hf.at_sign]
      rfl
  | case6 body c rest hc ih =>
      rw [← ih, List.flatMap_cons, ReaderState.spelledOut, readPieces_append,
        readPieces_body _ _ (hf.no_at_sign hc)]
      simp [ReaderState.spelledOut]

theorem pieces_spelledOut (hf : SparesTokens f) (t : Text) :
    pieces (t.flatMap f) = (pieces t).flatMap (Piece.spelledOut f) := by
  have h : readPieces none (t.flatMap f) = _ := hf.readPieces_spelledOut none t
  rw [pieces_eq_piecesFrom, piecesFrom, h, hf.text_spelledOut, ← flatMap_spelledOut_chars,
    ← List.flatMap_append]
  rfl

lemma tokensFrom_spelledOut (hf : SparesTokens f) : ∀ (ps : List Piece) (front : Text),
    (∀ token, Piece.token token ∈ ps → Meaning.ofBody? token.body = some token.meaning) →
      tokensFrom (front.flatMap f).length (ps.flatMap (Piece.spelledOut f))
        = (tokensFrom front.length ps).map fun (start, token) =>
            ((((front ++ ps.flatMap Piece.text).take start).flatMap f).length, token)
  | [], _, _ => rfl
  | .char c :: rest, front, h => by
      have ih := hf.tokensFrom_spelledOut rest (front ++ [c])
        fun token hmem => h token (List.mem_cons_of_mem _ hmem)
      have hskip : ∀ (t : Text) (k : Nat) (ps : List Piece),
          tokensFrom k (t.map Piece.char ++ ps) = tokensFrom (k + t.length) ps := by
        intro t
        induction t with
        | nil => intro k ps; rfl
        | cons d t ih =>
            intro k ps
            rw [List.map_cons, List.cons_append, tokensFrom, ih, List.length_cons]
            congr 1
            omega
      rw [List.flatMap_append, List.length_append, List.length_append] at ih
      rw [List.flatMap_cons, Piece.spelledOut, hskip, tokensFrom]
      simpa [Piece.text] using ih
  | .token token :: rest, front, h => by
      have htoken := hf.flatMap_token (h token List.mem_cons_self)
      have ih := hf.tokensFrom_spelledOut rest (front ++ token.text)
        fun token hmem => h token (List.mem_cons_of_mem _ hmem)
      rw [List.flatMap_append, htoken, List.length_append, List.length_append,
        List.append_assoc] at ih
      have htake : (front ++ (token.text ++ rest.flatMap Piece.text)).take front.length = front :=
        List.take_left' rfl
      rw [List.flatMap_cons, Piece.spelledOut, List.singleton_append, tokensFrom, tokensFrom, ih,
        List.map_cons, List.flatMap_cons, Piece.text]
      simp only [htake]

/-- **The tokens stay the same** when characters are spelled out, each behind what the text in front
of it has become. -/
theorem tokens_spelledOut (hf : SparesTokens f) (t : Text) :
    tokens (t.flatMap f)
      = (tokens t).map fun (start, token) => (((t.take start).flatMap f).length, token) := by
  have h := hf.tokensFrom_spelledOut (pieces t) [] fun token hmem => meaning_of_mem_pieces hmem
  rw [tokens, tokens, hf.pieces_spelledOut]
  simp only [List.nil_append, spelled_pieces] at h
  exact h

end SparesTokens

/-! ## References where texts meet -/

section

variable {Q : Char → Prop}

lemma unescape_nil : unescape [] = [] := by rw [unescape]

/-- **No reference comes about where an escaped text ends,** so what follows is resolved apart. -/
theorem IsEscaped.unescape_append {t : Text} (h : IsEscaped Q t) (u : Text) :
    unescape (t ++ u) = unescape t ++ unescape u := by
  induction h with
  | nil => rw [List.nil_append, unescape_nil, List.nil_append]
  | plain hc _ _ ih => rw [List.cons_append, unescape_cons hc, unescape_cons hc, ih]; rfl
  | @reference name t hname _ ih =>
      obtain ⟨⟨_, c⟩, hentry, rfl⟩ := List.mem_map.mp hname
      rw [List.cons_append, List.append_assoc, List.cons_append, unescape_named hentry,
        unescape_named hentry, ih]
      rfl

lemma unescape_flatMap {α : Type} {f g : α → Text} {l : List α}
    (h : ∀ a ∈ l, IsEscaped Q (f a) ∧ unescape (f a) = g a) :
    unescape (l.flatMap f) = l.flatMap g := by
  induction l with
  | nil => rw [List.flatMap_nil, unescape_nil, List.flatMap_nil]
  | cons a rest ih =>
      rw [List.forall_mem_cons] at h
      obtain ⟨⟨hescaped, ha⟩, hrest⟩ := h
      rw [List.flatMap_cons, hescaped.unescape_append, ha, ih hrest, List.flatMap_cons]

end

/-! ## Escaping -/

lemma escapeMarkup_eq_flatMap (t : Text) :
    escapeMarkup t = t.flatMap fun c => escapeMarkup [c] := by
  simp [escapeMarkup]

lemma escapeValue_eq_flatMap (t : Text) :
    escapeValue t = t.flatMap fun c => escapeValue [c] := by
  simp [escapeValue]

/-- The text with every occurrence of a character replaced. -/
def replaceChar (c : Char) (new t : Text) : Text := t.flatMap fun d => if d = c then new else [d]

/-- Replacing characters one after the other is replacing each of them once. -/
lemma replaceChar_flatMap (c : Char) (new : Text) (f : Char → Text) (t : Text) :
    replaceChar c new (t.flatMap f) = t.flatMap fun d => replaceChar c new (f d) :=
  List.flatMap_assoc

/-- **Escaping replaces one character after the other,** the ampersand first, so that no reference is
escaped again. -/
theorem escapeMarkup_eq_replaceChar (t : Text) :
    escapeMarkup t = replaceChar '>' (Text.ofString "&gt;")
      (replaceChar '<' (Text.ofString "&lt;") (replaceChar '&' (Text.ofString "&amp;") t)) := by
  have hamp : replaceChar '&' (Text.ofString "&amp;") t
      = t.flatMap fun d => if d = '&' then Text.ofString "&amp;" else [d] := rfl
  rw [hamp, replaceChar_flatMap, replaceChar_flatMap]
  refine List.flatMap_congr fun c _ => ?_
  split_ifs with hamp hless hgreater
  · rfl
  · rw [hless]
    rfl
  · rw [hgreater]
    rfl
  · simp [replaceChar, hless, hgreater]

/-- The same for values, whose quotes are escaped too. -/
theorem escapeValue_eq_replaceChar (t : Text) :
    escapeValue t = replaceChar '\x27' (Text.ofString "&apos;")
      (replaceChar '\x22' (Text.ofString "&quot;") (escapeMarkup t)) := by
  conv_rhs => rw [escapeMarkup, replaceChar_flatMap, replaceChar_flatMap]
  refine List.flatMap_congr fun c _ => ?_
  split_ifs with hamp hless hgreater hdouble hsingle
  · rfl
  · rfl
  · rfl
  · rw [hdouble]
    rfl
  · rw [hsingle]
    rfl
  · simp [replaceChar, hdouble, hsingle]

/-- An escaped character is itself, or a complete reference to it. -/
lemma escapeMarkup_char (c : Char) :
    (escapeMarkup [c] = [c] ∧ c ≠ '&')
      ∨ ∃ name, (name, c) ∈ namedChars ∧ escapeMarkup [c] = '&' :: (name ++ [';'])
        ∧ isBodyChar c = false := by
  simp only [escapeMarkup, List.flatMap_singleton]
  split_ifs with hamp hless hgreater
  · exact Or.inr ⟨Text.ofString "amp", by rw [hamp]; decide, rfl, by rw [hamp]; decide⟩
  · exact Or.inr ⟨Text.ofString "lt", by rw [hless]; decide, rfl, by rw [hless]; decide⟩
  · exact Or.inr ⟨Text.ofString "gt", by rw [hgreater]; decide, rfl, by rw [hgreater]; decide⟩
  · exact Or.inl ⟨rfl, hamp⟩

lemma escapeValue_char (c : Char) :
    (escapeValue [c] = [c] ∧ c ≠ '&')
      ∨ ∃ name, (name, c) ∈ namedChars ∧ escapeValue [c] = '&' :: (name ++ [';']) := by
  simp only [escapeValue, List.flatMap_singleton]
  split_ifs with hamp hless hgreater hdouble hsingle
  · exact Or.inr ⟨Text.ofString "amp", by rw [hamp]; decide, rfl⟩
  · exact Or.inr ⟨Text.ofString "lt", by rw [hless]; decide, rfl⟩
  · exact Or.inr ⟨Text.ofString "gt", by rw [hgreater]; decide, rfl⟩
  · exact Or.inr ⟨Text.ofString "quot", by rw [hdouble]; decide, rfl⟩
  · exact Or.inr ⟨Text.ofString "apos", by rw [hsingle]; decide, rfl⟩
  · exact Or.inl ⟨rfl, hamp⟩

/-- What a spelled out character stands for. -/
lemma unescape_char {c : Char} {t : Text}
    (h : (t = [c] ∧ c ≠ '&') ∨ ∃ name, (name, c) ∈ namedChars ∧ t = '&' :: (name ++ [';'])) :
    unescape t = [c] := by
  rcases h with ⟨rfl, hc⟩ | ⟨name, hname, rfl⟩
  · rw [unescape_cons hc, unescape_nil]
  · rw [unescape_named hname, unescape_nil]

/-- Resolving references undoes escaping markup. -/
theorem unescape_escapeMarkup (t : Text) : unescape (escapeMarkup t) = t := by
  rw [escapeMarkup_eq_flatMap, unescape_flatMap (Q := fun _ => True) (g := fun c => [c]) fun c _ =>
    ⟨isEscaped_escapeMarkup fun _ _ _ _ => trivial, unescape_char
      ((escapeMarkup_char c).imp_right fun ⟨name, hname, h, _⟩ => ⟨name, hname, h⟩)⟩,
    List.flatMap_singleton']

/-- **Resolving references undoes escaping a value.** -/
theorem unescape_escapeValue (t : Text) : unescape (escapeValue t) = t := by
  rw [escapeValue_eq_flatMap, unescape_flatMap (Q := fun _ => True) (g := fun c => [c]) fun c _ =>
    ⟨isEscaped_escapeValue fun _ _ _ _ => trivial, unescape_char (escapeValue_char c)⟩,
    List.flatMap_singleton']

/-- Escaping markup leaves tokens as they are: what it turns into references fits into no body, and
no more do the references. -/
lemma sparesTokens_escapeMarkup : SparesTokens fun c => escapeMarkup [c] where
  at_sign := rfl
  no_at_sign := by
    intro c hc
    rcases escapeMarkup_char c with ⟨heq, -⟩ | ⟨name, hname, heq, -⟩
    · rw [heq, List.mem_singleton]
      exact Ne.symm hc
    · rw [heq]
      have := IsEscaped.at_not_mem_name (List.mem_map_of_mem (f := Prod.fst) hname)
      simpa using this
  body := by
    intro c hc
    rcases escapeMarkup_char c with ⟨heq, -⟩ | ⟨name, hname, heq, hodd⟩
    · exact heq
    · rw [hc] at hodd
      cases hodd
  other := by
    intro c hc
    rcases escapeMarkup_char c with ⟨heq, -⟩ | ⟨name, hname, heq, -⟩
    · exact ⟨c, by rw [heq]; exact List.mem_singleton_self c, hc⟩
    · exact ⟨';', by rw [heq]; simp, by decide⟩

/-! ## Filling in -/

/-- A text all whose placeholders have values is filled in with these. -/
lemma fillText_of_values {data : Value} {t : Text} {shown : Path → Text}
    (h : ∀ token path, Piece.token token ∈ pieces t → token.meaning = .placeholder path →
      valueText data path = .ok (shown path)) :
    failuresIn data t = [] ∧ fillText data t = spliced shown t := by
  have hfill : ∀ p ∈ pieces t, p.fill data = .ok (p.spliced shown) := by
    rintro (c | ⟨body, meaning⟩) hp
    · rfl
    · cases meaning with
      | placeholder path => simp only [Piece.fill, h _ path hp rfl, Piece.spliced]
      | _ => rfl
  have hnone : failuresIn data t = [] := by
    rw [failuresIn, List.filterMap_eq_nil_iff]
    exact fun p hp => by rw [hfill p hp]; rfl
  refine ⟨hnone, ?_⟩
  rw [fillText, if_pos (by rw [hnone]; rfl), spliced]
  exact List.flatMap_congr fun p hp => by rw [hfill p hp]; rfl

/-- A token holds no characters of markup. -/
lemma plain_token {token : Token} (h : Meaning.ofBody? token.body = some token.meaning) :
    ∀ c ∈ token.text, c ≠ '&' ∧ c ≠ '<' ∧ c ≠ '>' := by
  intro c hc
  rw [Token.text, List.mem_append, List.mem_cons, List.mem_singleton] at hc
  rcases hc with (rfl | hc) | rfl
  · decide
  · have hbody := isBodyChar_of_ofBody? h hc
    refine ⟨?_, ?_, ?_⟩ <;> rintro rfl <;> exact absurd hbody (by decide)
  · decide

lemma unescape_of_plain {t : Text} (h : '&' ∉ t) : unescape t = t := by
  induction t with
  | nil => exact unescape_nil
  | cons c rest ih =>
      rw [List.mem_cons, not_or] at h
      rw [unescape_cons (Ne.symm h.1), ih h.2]

/-- What a piece of a text becomes when the text is escaped and then filled in. -/
lemma spliced_spelledOut {p : Piece} {t : Text} (shown : Path → Text) (hp : p ∈ pieces t) :
    IsEscaped (fun c => c ≠ '<' ∧ c ≠ '>')
        ((p.spelledOut fun c => escapeMarkup [c]).flatMap (Piece.spliced shown))
      ∧ unescape ((p.spelledOut fun c => escapeMarkup [c]).flatMap (Piece.spliced shown))
        = p.becomes shown := by
  rcases p with c | ⟨body, meaning⟩
  · have hchars : ((escapeMarkup [c]).map Piece.char).flatMap (Piece.spliced shown)
        = escapeMarkup [c] := by
      rw [List.flatMap_map]
      exact List.flatMap_singleton' _
    rw [Piece.spelledOut, hchars]
    exact ⟨isEscaped_escapeMarkup fun _ _ hless hgreater => ⟨hless, hgreater⟩,
      unescape_char ((escapeMarkup_char c).imp_right fun ⟨name, hname, h, _⟩ => ⟨name, hname, h⟩)⟩
  · have hsound := plain_token (meaning_of_mem_pieces hp)
    have hescaped := IsEscaped.of_plain hsound
    have hplain := unescape_of_plain fun hamp => (hsound _ hamp).1 rfl
    rw [Piece.spelledOut, List.flatMap_singleton]
    cases meaning with
    | placeholder path =>
        exact ⟨isEscaped_escapeValue fun _ _ hless hgreater => ⟨hless, hgreater⟩,
          unescape_escapeValue (shown path)⟩
    | opening path => exact ⟨hescaped, hplain⟩
    | alternative => exact ⟨hescaped, hplain⟩
    | closing => exact ⟨hescaped, hplain⟩

/-- **A value comes out exactly as the data hold it.**  Let all placeholders of a text have values.
Escaping the text leaves its tokens, in order, each behind the escaped text in front of it.  Filling
in the escaped text succeeds, and what it gives stands for the text with the values themselves in the
place of the placeholders.  It is escaped: it holds no angle bracket, and each of its ampersands
begins a complete reference.  Resolving references undoes escaping for every value, and a value
stands for itself behind every escaped text and in front of every text. -/
theorem fillText_verbatim {r : Text} {data : Value} {shown : Path → Text}
    (h : ∀ p ∈ placeholders r, valueText data p.path = .ok (shown p.path)) :
    tokens (escapeMarkup r)
        = (tokens r).map (fun (start, token) => ((escapeMarkup (r.take start)).length, token))
      ∧ failuresIn data (escapeMarkup r) = []
      ∧ unescape (fillText data (escapeMarkup r)) = splice r 0 (newTexts shown (placeholders r))
      ∧ IsEscaped (fun c => c ≠ '<' ∧ c ≠ '>') (fillText data (escapeMarkup r))
      ∧ ∀ value : Text, unescape (escapeValue value) = value
        ∧ ∀ front back, IsEscaped (fun _ => True) front →
          unescape (front ++ escapeValue value ++ back)
            = unescape front ++ value ++ unescape back := by
  have hpieces : pieces (escapeMarkup r)
      = (pieces r).flatMap (Piece.spelledOut fun c => escapeMarkup [c]) := by
    rw [escapeMarkup_eq_flatMap, sparesTokens_escapeMarkup.pieces_spelledOut]
  have hvalues : ∀ token path, Piece.token token ∈ pieces (escapeMarkup r) →
      token.meaning = .placeholder path → valueText data path = .ok (shown path) := by
    rintro ⟨body, meaning⟩ path hmem rfl
    rw [hpieces, List.mem_flatMap] at hmem
    obtain ⟨p, hp, hmem⟩ := hmem
    cases p with
    | char c => simp [Piece.spelledOut] at hmem
    | token token =>
        rw [Piece.spelledOut, List.mem_singleton] at hmem
        rw [← hmem] at hp
        obtain ⟨q, hq, rfl⟩ := exists_placeholder_of_mem_pieces hp
        exact h q hq
  obtain ⟨hnone, hfilled⟩ := fillText_of_values hvalues
  rw [hfilled, spliced, hpieces, List.flatMap_assoc, splice_placeholders]
  refine ⟨?_, hnone, unescape_flatMap fun p hp => spliced_spelledOut shown hp,
    IsEscaped.flatMap fun p hp => (spliced_spelledOut shown hp).1, fun value =>
      ⟨unescape_escapeValue value, fun front back hfront => ?_⟩⟩
  · have htokens := sparesTokens_escapeMarkup.tokens_spelledOut r
    simp only [← escapeMarkup_eq_flatMap] at htokens
    exact htokens
  · have hvalue : IsEscaped (fun _ => True) (escapeValue value) :=
      isEscaped_escapeValue fun _ _ _ _ => trivial
    rw [(hfront.append hvalue).unescape_append, hfront.unescape_append, unescape_escapeValue]

/-- Values that complete what stands around them, were they not escaped. -/
theorem fillText_verbatim_lookalike :
    let r := "&@x@lt; <@y@>".toList
    let data : Value :=
      .mapping [(.text ['x'], .text "amp;".toList), (.text ['y'], .text "&#38;".toList)]
    (∀ p ∈ placeholders r, valueText data p.path = .ok (shownAt data p.path))
      ∧ fillText data (escapeMarkup r) = "&amp;amp;lt; &lt;&amp;#38;&gt;".toList
      ∧ unescape (fillText data (escapeMarkup r)) = "&amp;lt; <&#38;>".toList := by
  intro r data
  have h : ∀ p ∈ placeholders r, valueText data p.path = .ok (shownAt data p.path) := by
    decide +kernel
  refine ⟨h, by decide +kernel, ?_⟩
  rw [(fillText_verbatim h).2.2.1]
  decide +kernel

end FormLetter
