import Mathlib.Data.List.Forall2
import FormLetter.Merge.Rows
import FormLetter.Proofs.Reading

/-!
# Respelling tokens

Table rows are copied by replacing tokens in their text, and the copies are read again later.  The
second reading finds what was put there: if each token gives way to some other token, the new text
has the new tokens at the places of the old ones, and all characters between them as before.  Stray
at-signs need no exception, for they fail before the token as they did before.

* `Piece.Stands` — a piece that may stand in the place of another.
* `pieces_respell` — a text respelled piece by piece is read as its new pieces.
* `ofBody?_dotted` — a path of two or more segments is a placeholder, written down.  So the token
  that a row copy holds for a placeholder is a placeholder with the redirected path
  (`RowScope.isSound_redirect`), and `pieces_bound` says what a text of the copy is read as.
-/

namespace FormLetter

/-! ## Reading respelled text -/

/-- Whether the second piece may stand in the place of the first: the same character for a
character, a token for a token. -/
def Piece.Stands : Piece → Piece → Prop
  | .char c, q => q = .char c
  | .token _, .token u => (Piece.token u).IsSound
  | .token _, .char _ => False

lemma stands_chars : ∀ {t : Text} {qs : List Piece},
    List.Forall₂ Piece.Stands (t.map .char) qs → qs = t.map .char
  | [], _, .nil => rfl
  | c :: t, q :: qs, .cons h hs => by
      rw [show q = .char c from h, stands_chars hs, List.map_cons]

/-- What corresponds to a sequence in two parts has two parts. -/
lemma forall₂_split {α β : Type} {R : α → β → Prop} : ∀ {l m : List α} {n : List β},
    List.Forall₂ R (l ++ m) n → ∃ a b, List.Forall₂ R l a ∧ List.Forall₂ R m b ∧ n = a ++ b
  | [], _, n, h => ⟨[], n, .nil, h, rfl⟩
  | _ :: l, _, _ :: _, .cons hx h => by
      obtain ⟨a, b, ha, hb, rfl⟩ := forall₂_split (l := l) h
      exact ⟨_ :: a, b, .cons hx ha, hb, rfl⟩

/-- What is read from inside a candidate begins with its at-sign, respelled or not. -/
lemma head?_respelled {body t : Text} {qs : List Piece}
    (h : List.Forall₂ Piece.Stands (readPieces (some body) t).1 qs) :
    (qs.flatMap Piece.text ++ (readPieces (some body) t).2.text).head? = some '@' := by
  induction t generalizing body qs with
  | nil =>
      cases h
      rfl
  | cons c rest ih =>
      by_cases hc : c = '@'
      · subst hc
        cases hm : Meaning.ofBody? body.reverse with
        | some meaning =>
            simp only [readPieces, ↓reduceIte, hm] at h
            cases h with
            | @cons _ q _ qs' hq hqs =>
                cases q with
                | char c => exact absurd hq (by simp [Piece.Stands])
                | token u => rfl
        | none =>
            simp only [readPieces, ↓reduceIte, hm, List.cons_append] at h
            cases h with
            | @cons _ q _ qs' hq hqs =>
                rw [show q = .char '@' from hq]
                rfl
      · simp only [readPieces, if_neg hc] at h ⊢
        exact ih h

/-- **Respelled text is read as its new pieces,** and the reader ends in the state in which the old
text left it. -/
theorem readPieces_respell {state : ReaderState} {t : Text} {qs : List Piece}
    (hstate : ∀ body, state = some body → '@' ∉ body)
    (h : List.Forall₂ Piece.Stands (readPieces state t).1 qs) :
    readPieces none (qs.flatMap Piece.text ++ (readPieces state t).2.text)
      = (qs, (readPieces state t).2) := by
  fun_induction readPieces state t generalizing qs with
  | case1 state =>
      cases h
      cases state with
      | none => rfl
      | some body =>
          have hbody : '@' ∉ body.reverse := by simpa using hstate body rfl
          simp [ReaderState.text, readPieces, readPieces_body [] body.reverse hbody]
  | case2 rest ih =>
      exact ih (fun body hb => by simp [← Option.some.inj hb]) h
  | case3 c rest hc pieces last e ih =>
      rw [e] at ih
      cases h with
      | @cons _ q _ qs' hq hqs =>
          have ih := ih (by simp) hqs
          rw [show q = .char c from hq]
          simp only [List.flatMap_cons, Piece.text, List.cons_append, List.nil_append] at ih ⊢
          rw [readPieces, if_neg hc, ih]
  | case4 body rest meaning hm pieces last e ih =>
      rw [e] at ih
      cases h with
      | @cons _ q _ qs' hq hqs =>
          have ih := ih (by simp) hqs
          cases q with
          | char c => exact absurd hq (by simp [Piece.Stands])
          | token u =>
              rw [List.flatMap_cons, List.append_assoc, Piece.text, readPieces_token hq, ih]
  | case5 body rest hm pieces last e ih =>
      have hhead := @head?_respelled [] rest
      rw [e] at ih hhead
      simp only [List.cons_append] at h
      cases h with
      | @cons _ q _ rs hq hrs =>
          -- the characters of the failed candidate, and then what follows it
          obtain ⟨chars, qs', hchars, hqs, rfl⟩ := forall₂_split hrs
          obtain rfl := stands_chars hchars
          obtain ⟨tail, htail⟩ := List.head?_eq_some_iff.mp (hhead hqs)
          have ih := ih (fun body hb => by simp [← Option.some.inj hb]) hqs
          have hbody : '@' ∉ body.reverse := by simpa using hstate body rfl
          simp only at ih htail
          rw [htail] at ih
          rw [show q = .char '@' from hq]
          simp only [List.flatMap_cons, List.flatMap_append, Piece.text, flatMap_text_map_char,
            List.append_assoc, htail, List.cons_append, List.nil_append]
          rw [readPieces, if_pos rfl, readPieces_append, readPieces_body [] body.reverse hbody]
          simp only [readPieces, ↓reduceIte] at ih
          simp [readPieces, hm, ih]
  | case6 body c rest hc ih =>
      refine ih (fun b hb => ?_) h
      obtain rfl := Option.some.inj hb
      simp only [List.mem_cons, not_or]
      exact ⟨Ne.symm hc, hstate body rfl⟩

theorem pieces_respell {t : Text} {qs : List Piece}
    (h : List.Forall₂ Piece.Stands (pieces t) qs) : pieces (qs.flatMap Piece.text) = qs := by
  have hsplit : pieces t = (readPieces none t).1 ++ (readPieces none t).2.text.map .char := rfl
  rw [hsplit] at h
  obtain ⟨settled, open?, hsettled, hopen, rfl⟩ := forall₂_split h
  obtain rfl := stands_chars hopen
  have hread := readPieces_respell (by simp) hsettled
  rw [List.flatMap_append, flatMap_text_map_char, pieces, hread]

/-! ## Placeholders written down -/

lemma afterIf?_eq_none {body : Text} (h : ':' ∉ body) : afterIf? body = none := by
  unfold afterIf?
  split
  · simp at h
  · rfl

lemma lower_ne_of_dot_mem {body : Text} (word : Text) (h : '.' ∈ body) (hw : '.' ∉ word) :
    Text.lower body ≠ word := by
  intro heq
  rw [← heq] at hw
  exact hw (List.mem_map_of_mem h)

/-- A placeholder spells its path, and only such paths are placeholders. -/
lemma dotted_of_placeholder {body : Text} {path : Path}
    (h : Meaning.ofBody? body = some (.placeholder path)) :
    path.dotted = body ∧ path.isSpellable = true := by
  unfold Meaning.ofBody? at h
  split at h
  · obtain ⟨p, -, hp⟩ := Option.map_eq_some_iff.mp h
    simp at hp
  · split at h
    · simp at h
    · split at h
      · simp at h
      · obtain ⟨p, hp, heq⟩ := Option.map_eq_some_iff.mp h
        obtain rfl := Meaning.placeholder.inj heq
        obtain ⟨rfl, hs⟩ := Path.ofText?_eq_some hp
        exact ⟨Text.joinWith_splitOn '.' body, hs⟩

/-- **A path of two or more segments is a placeholder, written down.**  The dot keeps it from being
a keyword. -/
theorem ofBody?_dotted {path : Path} (hs : path.isSpellable = true) (hlen : 2 ≤ path.length) :
    Meaning.ofBody? path.dotted = some (.placeholder path) := by
  have hcolon : ':' ∉ path.dotted := by
    intro h
    rcases mem_joinWith h with h | ⟨segment, hmem, h⟩
    · simp at h
    · exact absurd (Path.isNameChar_of_isSpellable hs hmem h) (by decide)
  have hdot : '.' ∈ path.dotted := by
    match path, hlen with
    | first :: second :: rest, _ =>
        rw [Path.dotted, Text.joinWith_cons _ _ (by simp)]
        simp
  unfold Meaning.ofBody?
  rw [afterIf?_eq_none hcolon]
  simp only [if_neg (lower_ne_of_dot_mem (Text.ofString "else") hdot (by decide)),
    if_neg (lower_ne_of_dot_mem (Text.ofString "endif") hdot (by decide)),
    Path.ofText?_dotted hs, Option.map_some]

lemma isNumeral_ofNat (n : Nat) : isNumeral (Text.ofNat n) = true := by
  have hne : Text.ofNat n ≠ [] := Nat.toDigits_ne_nil
  simp only [isNumeral, Bool.and_eq_true, Bool.not_eq_true', List.isEmpty_eq_false_iff,
    List.all_eq_true]
  exact ⟨hne, fun c hc => Nat.isDigit_of_mem_toDigits (by decide) (by decide) hc⟩

/-! ## Redirected tokens -/

/-- What the copy of a row holds in the place of a piece of the row. -/
def RowScope.redirect (scope : RowScope) : Piece → Piece
  | .char c => .char c
  | .token token =>
    match token.meaning with
    | .placeholder path => .token ⟨(scope.resolve path).dotted, .placeholder (scope.resolve path)⟩
    | _ => .token token

/-- **Redirected placeholders are placeholders,** with the redirected path as their meaning. -/
theorem RowScope.isSound_redirect {scope : RowScope} (hseg : isName scope.segment = true)
    {token : Token} (h : (Piece.token token).IsSound) :
    (scope.redirect (.token token)).IsSound := by
  obtain ⟨body, meaning⟩ := token
  cases meaning with
  | opening path => exact h
  | alternative => exact h
  | closing => exact h
  | placeholder path =>
      obtain ⟨rfl, hs⟩ := dotted_of_placeholder h
      simp only [RowScope.redirect, Piece.IsSound]
      cases path with
      | nil => simp [Path.isSpellable] at hs
      | cons head rest =>
          have hnum := isNumeral_ofNat scope.index
          have hs' := hs
          simp only [Path.isSpellable, Bool.and_eq_true] at hs'
          rw [RowScope.resolve]
          split_ifs
          · exact ofBody?_dotted (by simp [Path.isSpellable, hseg, hnum, hs'.2]) (by simp)
          · exact ofBody?_dotted (by simp [Path.isSpellable, hseg, hnum, hs'.1, hs'.2]) (by simp)
          · exact h

lemma mapPiecesFrom_eq (scope : RowScope) : ∀ (start : Nat) (ps : List Piece),
    mapPiecesFrom scope.token start ps = (ps.map scope.redirect).flatMap Piece.text
  | _, [] => rfl
  | start, .char c :: rest => by
      rw [mapPiecesFrom, mapPiecesFrom_eq scope (start + 1) rest]
      rfl
  | start, .token ⟨body, meaning⟩ :: rest => by
      rw [mapPiecesFrom, mapPiecesFrom_eq scope _ rest, List.map_cons, List.flatMap_cons]
      cases meaning <;> rfl

/-- **The copy of a text is read as the redirected pieces of the text.** -/
theorem pieces_bound {scope : RowScope} (hseg : isName scope.segment = true) (t : Text) :
    pieces (mapPlaceholders scope.token t) = (pieces t).map scope.redirect := by
  rw [mapPlaceholders, mapPiecesFrom_eq]
  refine pieces_respell (t := t) (List.forall₂_map_right_iff.mpr (List.forall₂_same.mpr ?_))
  intro p hp
  cases p with
  | char c => rfl
  | token token =>
      have hsound := RowScope.isSound_redirect hseg
        (show (Piece.token token).IsSound from meaning_of_mem_pieces hp)
      obtain ⟨body, meaning⟩ := token
      cases meaning <;> exact hsound

end FormLetter
