import FormLetter.Proofs.Spelling
import FormLetter.Proofs.Splicing

/-!
# Replacing tokens by tokens

A function puts other placeholders in the place of those in a text, and may look at where each of
them stands.  The new text is read again, from the left, with tokens of other lengths and with stray
at-signs next to them.  What is found is what was put there: the tokens are those of the old text,
with new ones for placeholders, and each stands as much further on as the text before it has grown.

* `IsPlaceholderText` — a text that is one placeholder.
* `replacedFrom` — the pieces of a text with new tokens for placeholders.
  `pieces_mapPlaceholders` — the new text is read as these.
* `shifted` — where a position of the old text is found in the new one
  (`length_mapPiecesFrom_of_pieces`).  `tokens_mapPlaceholders` — so tokens correspond one by one.
* `replacing_keeps_tokens` — placeholders, markers and the text around them, also in a row that is
  copied for an item.
-/

namespace FormLetter

/-! ## Texts that are one placeholder -/

/-- The text is a placeholder with this path and nothing else. -/
def IsPlaceholderText (t : Text) (path : Path) : Prop := placeholders t = [⟨⟨0, t⟩, path⟩]

lemma isPlaceholderText_iff {t : Text} {path : Path} :
    IsPlaceholderText t path
      ↔ ∃ body, t = '@' :: body ++ ['@'] ∧ Meaning.ofBody? body = some (.placeholder path) := by
  constructor
  · intro h
    have hmem : (⟨⟨0, t⟩, path⟩ : Placeholder) ∈ placeholders t := by
      rw [h]
      exact List.mem_singleton_self _
    obtain ⟨token, hpiece, hmeaning, htext⟩ := exists_token_of_mem_placeholders hmem
    exact ⟨token.body, htext, hmeaning ▸ meaning_of_mem_pieces hpiece⟩
  · rintro ⟨body, rfl, h⟩
    have hsound : (Piece.token ⟨body, .placeholder path⟩).IsSound := h
    have hspelled : pieces ([Piece.token ⟨body, .placeholder path⟩].flatMap Piece.text)
        = [.token ⟨body, .placeholder path⟩] := pieces_spell (by simpa using hsound)
    rw [List.flatMap_singleton, Piece.text, Token.text] at hspelled
    rw [IsPlaceholderText, placeholders, tokens, hspelled]
    rfl

/-! ## New tokens for placeholders -/

section

variable {f : Placeholder → Text} {paths : Placeholder → Path}

/-- The token that stands in the place of another one: for a placeholder the one that is put
there. -/
def Token.replaced (f : Placeholder → Text) (paths : Placeholder → Path) (start : Nat)
    (token : Token) : Token :=
  match token.placeholder? start with
  | none => token
  | some p => ⟨(f p).tail.dropLast, .placeholder (paths p)⟩

/-- Consecutive pieces with new tokens for placeholders. -/
def replacedFrom (f : Placeholder → Text) (paths : Placeholder → Path) (start : Nat) :
    List Piece → List Piece
  | [] => []
  | .char c :: rest => .char c :: replacedFrom f paths (start + 1) rest
  | .token token :: rest =>
    .token (token.replaced f paths start) :: replacedFrom f paths (start + token.text.length) rest

/-- The new token has the new text. -/
lemma Token.text_replaced {start : Nat} {token : Token}
    (h : ∀ p, token.placeholder? start = some p → IsPlaceholderText (f p) (paths p)) :
    (token.replaced f paths start).text
      = ((token.placeholder? start).map f).getD token.text := by
  rw [Token.replaced]
  cases hp : token.placeholder? start with
  | none => rfl
  | some p =>
      obtain ⟨body, htext, -⟩ := isPlaceholderText_iff.mp (h p hp)
      simp [htext, Token.text]

/-- The new token is a token. -/
lemma Token.isSound_replaced {start : Nat} {token : Token}
    (h : ∀ p, token.placeholder? start = some p → IsPlaceholderText (f p) (paths p))
    (htoken : (Piece.token token).IsSound) :
    (Piece.token (token.replaced f paths start)).IsSound := by
  rw [Token.replaced]
  cases hp : token.placeholder? start with
  | none => exact htoken
  | some p =>
      obtain ⟨body, htext, hbody⟩ := isPlaceholderText_iff.mp (h p hp)
      simpa [htext, Piece.IsSound] using hbody

lemma placeholdersFrom_cons_char (start : Nat) (c : Char) (rest : List Piece) :
    placeholdersFrom start (.char c :: rest) = placeholdersFrom (start + 1) rest := rfl

lemma placeholdersFrom_cons_token (start : Nat) (token : Token) (rest : List Piece) :
    placeholdersFrom start (.token token :: rest)
      = (token.placeholder? start).toList
        ++ placeholdersFrom (start + token.text.length) rest := by
  obtain ⟨body, meaning⟩ := token
  cases meaning <;> rfl

/-- Replacing placeholders in a text is writing the new pieces down; and these may stand in the
places of the old ones. -/
lemma mapPiecesFrom_replaced : ∀ (start : Nat) (ps : List Piece),
    (∀ p ∈ placeholdersFrom start ps, IsPlaceholderText (f p) (paths p)) →
    (∀ token, Piece.token token ∈ ps → (Piece.token token).IsSound) →
      mapPiecesFrom f start ps = (replacedFrom f paths start ps).flatMap Piece.text
        ∧ List.Forall₂ Piece.Stands ps (replacedFrom f paths start ps)
  | _, [], _, _ => ⟨rfl, .nil⟩
  | start, .char c :: rest, h, hsound => by
      obtain ⟨htext, hstands⟩ := mapPiecesFrom_replaced (start + 1) rest h
        fun token hmem => hsound token (List.mem_cons_of_mem _ hmem)
      rw [mapPiecesFrom, htext]
      exact ⟨rfl, .cons rfl hstands⟩
  | start, .token token :: rest, h, hsound => by
      rw [placeholdersFrom_cons_token, List.forall_mem_append] at h
      obtain ⟨htext, hstands⟩ := mapPiecesFrom_replaced _ rest h.2
        fun token hmem => hsound token (List.mem_cons_of_mem _ hmem)
      have hone : ∀ p, token.placeholder? start = some p → IsPlaceholderText (f p) (paths p) :=
        fun p hp => h.1 p (by simp [hp])
      rw [mapPiecesFrom, htext, ← Token.text_replaced hone]
      exact ⟨rfl, .cons (Token.isSound_replaced hone (hsound token List.mem_cons_self)) hstands⟩

/-- **What is read is what was put there.** -/
lemma pieces_mapPlaceholders {t : Text}
    (h : ∀ p ∈ placeholders t, IsPlaceholderText (f p) (paths p)) :
    pieces (mapPlaceholders f t) = replacedFrom f paths 0 (pieces t) := by
  obtain ⟨htext, hstands⟩ := mapPiecesFrom_replaced 0 (pieces t) h
    fun token hmem => meaning_of_mem_pieces hmem
  rw [mapPlaceholders, htext, pieces_respell hstands]

end

/-! ## Positions -/

/-- Where the character at a position stands when the placeholders of the text are replaced: further
on by the new texts before it, and back by the old ones. -/
def shifted (f : Placeholder → Text) (t : Text) (position : Nat) : Nat :=
  let before := (placeholders t).filter (·.start < position)
  position + (before.flatMap f).length - (before.flatMap (·.text)).length

section

variable {f : Placeholder → Text} {paths : Placeholder → Path}

lemma placeholdersFrom_append (start : Nat) (ps qs : List Piece) :
    placeholdersFrom start (ps ++ qs)
      = placeholdersFrom start ps ++ placeholdersFrom (start + spelledLength ps) qs := by
  rw [placeholdersFrom, tokensFrom_append, List.filterMap_append]
  rfl

lemma Token.start_of_placeholder? {start : Nat} {token : Token} {p : Placeholder}
    (h : token.placeholder? start = some p) : p.toOccurrence = ⟨start, token.text⟩ := by
  obtain ⟨body, meaning⟩ := token
  cases meaning with
  | placeholder path =>
      obtain rfl := Option.some.inj h
      rfl
  | _ => simp [Token.placeholder?] at h

/-- Placeholders stand among their pieces. -/
lemma start_of_mem_placeholdersFrom {start : Nat} {ps : List Piece} {p : Placeholder}
    (h : p ∈ placeholdersFrom start ps) :
    start ≤ p.start ∧ p.start < start + spelledLength ps := by
  obtain ⟨⟨position, token⟩, hmem, hp⟩ := List.mem_filterMap.mp h
  obtain ⟨before, after, rfl, rfl⟩ := mem_tokensFrom.mp hmem
  have hlength := token.length_text
  rw [Token.start_of_placeholder? hp, spelledLength_append, spelledLength_cons, Piece.text]
  exact ⟨Nat.le_add_right _ _, by simp only; omega⟩

lemma length_mapPiecesFrom : ∀ (start : Nat) (ps : List Piece),
    (mapPiecesFrom f start ps).length + ((placeholdersFrom start ps).flatMap (·.text)).length
      = spelledLength ps + ((placeholdersFrom start ps).flatMap f).length
  | _, [] => rfl
  | start, .char c :: rest => by
      have ih := length_mapPiecesFrom (start + 1) rest
      simp only [mapPiecesFrom, placeholdersFrom_cons_char, spelledLength_cons, Piece.text,
        List.length_cons, List.length_nil]
      omega
  | start, .token token :: rest => by
      have ih := length_mapPiecesFrom (start + token.text.length) rest
      rw [mapPiecesFrom, placeholdersFrom_cons_token, spelledLength_cons, Piece.text]
      cases hp : token.placeholder? start with
      | none =>
          simp only [Option.map_none, Option.getD_none, Option.toList_none, List.nil_append,
            List.length_append]
          omega
      | some p =>
          have htext : p.text = token.text := by rw [Token.start_of_placeholder? hp]
          simp only [Option.map_some, Option.getD_some, Option.toList_some, List.singleton_append,
            List.flatMap_cons, List.length_append, htext]
          omega

/-- **A position is shifted to the end of what is written before it.** -/
lemma length_mapPiecesFrom_of_pieces {t : Text} {front back : List Piece}
    (h : pieces t = front ++ back) :
    (mapPiecesFrom f 0 front).length = shifted f t (spelledLength front) := by
  have hbefore : (placeholders t).filter (·.start < spelledLength front)
      = placeholdersFrom 0 front := by
    have hsplit : placeholders t = placeholdersFrom 0 (pieces t) := rfl
    rw [hsplit, h, placeholdersFrom_append, List.filter_append, Nat.zero_add,
      List.filter_eq_self.mpr fun p hp => ?_, List.filter_eq_nil_iff.mpr fun p hp => ?_,
      List.append_nil]
    · have := start_of_mem_placeholdersFrom hp
      simp only [decide_eq_true_eq]
      omega
    · have := start_of_mem_placeholdersFrom hp
      simp only [decide_eq_true_eq]
      omega
  have hlength := length_mapPiecesFrom (f := f) 0 front
  simp only [shifted, hbefore]
  omega

lemma mapPiecesFrom_append (start : Nat) (ps qs : List Piece) :
    mapPiecesFrom f start (ps ++ qs)
      = mapPiecesFrom f start ps ++ mapPiecesFrom f (start + spelledLength ps) qs := by
  induction ps generalizing start with
  | nil => rfl
  | cons p rest ih =>
      cases p with
      | char c => simp [mapPiecesFrom, ih, Piece.text, Nat.add_assoc]
      | token token => simp [mapPiecesFrom, ih, Piece.text, Nat.add_assoc]

lemma text_replaced_of_mem_tokens {t : Text} {position : Nat} {token : Token}
    (h : ∀ p ∈ placeholders t, IsPlaceholderText (f p) (paths p))
    (hmem : (position, token) ∈ tokens t) :
    (token.replaced f paths position).text
      = ((token.placeholder? position).map f).getD token.text :=
  Token.text_replaced fun p hp => h p (List.mem_filterMap.mpr ⟨(position, token), hmem, hp⟩)

/-- The tokens of the new pieces, behind those that have been written. -/
lemma tokensFrom_replacedFrom {t : Text}
    (h : ∀ p ∈ placeholders t, IsPlaceholderText (f p) (paths p)) :
    ∀ (front back : List Piece), pieces t = front ++ back →
      tokensFrom (mapPiecesFrom f 0 front).length
          (replacedFrom f paths (spelledLength front) back)
        = (tokensFrom (spelledLength front) back).map fun (position, token) =>
          (shifted f t position, token.replaced f paths position)
  | _, [], _ => rfl
  | front, .char c :: rest, hpieces => by
      have ih := tokensFrom_replacedFrom h (front ++ [.char c]) rest
        (by rw [hpieces, List.append_assoc, List.singleton_append])
      rw [mapPiecesFrom_append] at ih
      simpa [mapPiecesFrom, replacedFrom, tokensFrom, Piece.text] using ih
  | front, .token token :: rest, hpieces => by
      have ih := tokensFrom_replacedFrom h (front ++ [.token token]) rest
        (by rw [hpieces, List.append_assoc, List.singleton_append])
      have hmem : (spelledLength front, token) ∈ tokens t :=
        mem_tokensFrom.mpr ⟨front, rest, hpieces, by rw [Nat.zero_add]⟩
      rw [mapPiecesFrom_append] at ih
      rw [replacedFrom, tokensFrom, tokensFrom, List.map_cons, text_replaced_of_mem_tokens h hmem,
        length_mapPiecesFrom_of_pieces hpieces]
      refine congrArg (_ :: ·) ?_
      simpa [mapPiecesFrom, Piece.text, length_mapPiecesFrom_of_pieces hpieces] using ih

/-- **Tokens correspond one by one.** -/
lemma tokens_mapPlaceholders {t : Text}
    (h : ∀ p ∈ placeholders t, IsPlaceholderText (f p) (paths p)) :
    tokens (mapPlaceholders f t) = (tokens t).map fun (position, token) =>
      (shifted f t position, token.replaced f paths position) := by
  rw [tokens, pieces_mapPlaceholders h]
  exact tokensFrom_replacedFrom h [] (pieces t) rfl

end

/-! ## The structure of a text -/

/-- The stretch at another position. -/
def Occurrence.relocated (place : Nat → Nat) (here : Occurrence) : Occurrence :=
  ⟨place here.start, here.text⟩

/-- The marker at another position. -/
def Marker.relocated (place : Nat → Nat) : Marker → Marker
  | .opening here condition => .opening (here.relocated place) condition
  | .alternative here => .alternative (here.relocated place)
  | .closing here => .closing (here.relocated place)

/-- The new text has the structure of the old one, with the given texts and paths for
placeholders. -/
structure KeepsTokens (f : Placeholder → Text) (paths : Placeholder → Path) (t new : Text) :
    Prop where
  /-- What stands between placeholders is copied. -/
  spliced : new = splice t 0 (replacements f (placeholders t))
  placeholders : placeholders new
    = (placeholders t).map fun p => ⟨⟨shifted f t p.start, f p⟩, paths p⟩
  markers : markers new = (markers t).map (.relocated (shifted f t))

section

variable {f : Placeholder → Text} {paths : Placeholder → Path} {t : Text}

/-- **Replacing placeholders by placeholders keeps the tokens of a text.** -/
lemma keepsTokens_mapPlaceholders
    (h : ∀ p ∈ placeholders t, IsPlaceholderText (f p) (paths p)) :
    KeepsTokens f paths t (mapPlaceholders f t) where
  spliced := (splice_replacements f t).symm
  placeholders := by
    rw [FormLetter.placeholders, tokens_mapPlaceholders h, FormLetter.placeholders,
      List.filterMap_map, List.map_filterMap]
    refine List.filterMap_congr fun ⟨position, token⟩ hmem => ?_
    have htext := text_replaced_of_mem_tokens h hmem
    simp only [Function.comp_apply]
    obtain ⟨body, meaning⟩ := token
    cases meaning with
    | placeholder path =>
        simp only [Token.replaced, Token.placeholder?, Option.map_some, Option.getD_some] at htext ⊢
        rw [htext]
    | _ => rfl
  markers := by
    rw [FormLetter.markers, tokens_mapPlaceholders h, FormLetter.markers,
      List.filterMap_map, List.map_filterMap]
    refine List.filterMap_congr fun ⟨position, token⟩ _ => ?_
    obtain ⟨body, meaning⟩ := token
    cases meaning <;> rfl

/-- Placeholders that are replaced by what they are leave the text as it is. -/
lemma mapPlaceholders_eq_self (h : ∀ p ∈ placeholders t, f p = p.text) :
    mapPlaceholders f t = t := by
  have hpieces : ∀ (start : Nat) (ps : List Piece),
      mapPiecesFrom (·.text) start ps = ps.flatMap Piece.text := by
    intro start ps
    induction ps generalizing start with
    | nil => rfl
    | cons p rest ih =>
        rcases p with c | ⟨body, meaning⟩
        · rw [mapPiecesFrom, ih]
          rfl
        · rw [mapPiecesFrom, ih]
          cases meaning <;> rfl
  have hsame : replacements f (placeholders t) = replacements (·.text) (placeholders t) :=
    List.map_congr_left fun p hp => by rw [h p hp]
  rw [← splice_replacements, hsame, splice_replacements, mapPlaceholders, hpieces, spelled_pieces]

/-- **The token of a copied row is a placeholder,** if the row names its list by a name. -/
lemma isPlaceholderText_token {scope : RowScope} (hname : isName scope.segment = true)
    {p : Placeholder} (hp : p ∈ placeholders t) :
    IsPlaceholderText (scope.token p) (scope.resolve p.path) := by
  obtain ⟨⟨body, meaning⟩, hpiece, hmeaning, -⟩ := exists_token_of_mem_placeholders hp
  obtain rfl : meaning = .placeholder p.path := hmeaning
  exact isPlaceholderText_iff.mpr ⟨_, rfl,
    RowScope.isSound_redirect hname (meaning_of_mem_pieces hpiece)⟩

end

/-- **Replacing tokens keeps the token structure.**  Let each placeholder of a text give way to a
text that is one placeholder.  Then the new text has these placeholders, in the order of the old
ones, and the markers of the old text; all stand where the changes before them have shifted them;
and between placeholders nothing has changed.  If each placeholder gives way to itself, the text
stays.  This is what happens in the copies of a row: whatever segment of a row names the list,
whatever the item and its number, each token that is written for a placeholder is one placeholder,
so each text of the copy has the structure of the text that it is copied from. -/
theorem replacing_keeps_tokens :
    (∀ (t : Text) (f : Placeholder → Text) (paths : Placeholder → Path),
        (∀ p ∈ placeholders t, IsPlaceholderText (f p) (paths p)) →
          KeepsTokens f paths t (mapPlaceholders f t))
      ∧ (∀ t f, (∀ p ∈ placeholders t, f p = p.text) → mapPlaceholders f t = t)
      ∧ ∀ (source : Node), ∀ named ∈ source.texts, ∀ q ∈ placeholders named,
        ∀ (item : Value) (index : Nat),
          let scope : RowScope := ⟨q.path.headD [], item, index⟩
          (∀ t, ∀ p ∈ placeholders t, IsPlaceholderText (scope.token p) (scope.resolve p.path))
            ∧ ∀ row, List.Forall₂ (KeepsTokens scope.token fun p => scope.resolve p.path)
                row.texts (bindRow scope row).texts := by
  refine ⟨fun t f paths h => keepsTokens_mapPlaceholders h,
    fun t f h => mapPlaceholders_eq_self h, ?_⟩
  intro source named _ q hq item index scope
  have htokens : ∀ t, ∀ p ∈ placeholders t,
      IsPlaceholderText (scope.token p) (scope.resolve p.path) :=
    fun t p hp => isPlaceholderText_token (isName_of_mem_placeholders hq) hp
  refine ⟨htokens, fun row => ?_⟩
  rw [bindRow, texts_mapText, List.forall₂_map_right_iff]
  exact List.forall₂_same.mpr fun t _ => keepsTokens_mapPlaceholders (htokens t)

/-- Stray at-signs stand right before a placeholder and behind the last marker; and a segment is
spelled in capitals in the row of an item that has its own entry for the other one. -/
theorem replacing_keeps_tokens_at_stray_signs :
    let t := "@@n@@Else@ x@".toList
    let f : Placeholder → Text := fun _ => "@a.0.n@".toList
    let paths : Placeholder → Path := fun _ => ["a".toList, "0".toList, "n".toList]
    let named := "@A.x@ @n@ @m@".toList
    let q : Placeholder := ⟨⟨0, "@A.x@".toList⟩, ["A".toList, "x".toList]⟩
    let scope : RowScope := ⟨"A".toList, .mapping [(.text "N".toList, .null)], 3⟩
    (∀ p ∈ placeholders t, IsPlaceholderText (f p) (paths p))
      ∧ KeepsTokens f paths t (mapPlaceholders f t)
      ∧ mapPlaceholders f t = "@@a.0.n@@Else@ x@".toList
      ∧ mapPlaceholders (·.text) t = t
      ∧ q ∈ placeholders named
      ∧ List.Forall₂ (KeepsTokens scope.token fun p => scope.resolve p.path) [named]
        (bindRow scope (.text named)).texts
      ∧ (bindRow scope (.text named)).texts = ["@A.3.x@ @A.3.n@ @m@".toList] := by
  intro t f paths named q scope
  have hone : ∀ p ∈ placeholders t, IsPlaceholderText (f p) (paths p) := fun _ _ => by rfl
  have hq : q ∈ placeholders named := by decide
  exact ⟨hone, replacing_keeps_tokens.1 t f paths hone, by decide,
    replacing_keeps_tokens.2.1 t _ fun _ _ => rfl, hq,
    (replacing_keeps_tokens.2.2 (.text named) named (by simp [Node.texts]) q hq scope.item
      scope.index).2 (.text named), by decide⟩

end FormLetter
