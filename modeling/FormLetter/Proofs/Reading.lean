import Mathlib.Tactic.Common
import FormLetter.Markup.Lexer

/-!
# Reading a text in parts

`pieces` reads a whole text from left to right.  Everything that is said about documents needs the
pieces of one text node, of one paragraph, of the text that is left after a cut, so this file says
how the pieces of a text follow from those of its parts.

* **The state is all that matters.** `readPieces_append` — what is read after a text depends on it
  through the state of the reader only.
* **Texts without stray at-signs** (`IsTokenized`) are the ones a reader leaves from the state in
  which it entered.  `pieces_spell` — sound pieces, spelled out and read again, are the same
  pieces; so the pieces of such texts concatenate, and a part of them in the old order is such a
  text again.
* **Open candidates.** `piecesFrom_some` — what follows an open candidate completes it to a token or
  is read for itself.
* **Line ends are walls.** `pieces_append_lineEnd` — no token holds a line end, so the pieces on
  both sides of one are read independently, stray at-signs or not.
-/

namespace FormLetter

/-! ## What the body of a token can hold -/

/-- A character that the body of some token holds. -/
def isBodyChar (c : Char) : Bool := isPathChar c || c == ':'

lemma splitOn_eq_list_splitOn (separator : Char) (t : Text) :
    Text.splitOn separator t = List.splitOn separator t := by
  induction t with
  | nil => rfl
  | cons c rest ih =>
      rw [List.splitOn_cons_eq_if_modifyHead, Text.splitOn, ih]
      by_cases hc : c = separator
      · simp [hc]
      · rw [if_neg hc, if_neg (by simpa using hc)]
        cases hs : List.splitOn separator rest with
        | nil => exact absurd hs (List.splitOn_ne_nil separator rest)
        | cons first others => simp

lemma joinWith_eq_intercalate (separator : Text) :
    ∀ parts : List Text, Text.joinWith separator parts = separator.intercalate parts
  | [] => rfl
  | [part] => by simp [Text.joinWith]
  | part :: second :: others => by
      rw [Text.joinWith, joinWith_eq_intercalate separator (second :: others),
        List.intercalate_cons_cons]
      simp

namespace Text

lemma joinWith_cons (separator piece : Text) {pieces : List Text} (h : pieces ≠ []) :
    joinWith separator (piece :: pieces) = piece ++ separator ++ joinWith separator pieces := by
  cases pieces with
  | nil => exact absurd rfl h
  | cons _ _ => rfl

lemma splitOn_ne_nil (separator : Char) (t : Text) : splitOn separator t ≠ [] := by
  rw [splitOn_eq_list_splitOn]
  exact List.splitOn_ne_nil separator t

/-- Splitting loses nothing: the pieces with the separator put back between them are the text. -/
lemma joinWith_splitOn (separator : Char) (t : Text) :
    joinWith [separator] (splitOn separator t) = t := by
  rw [joinWith_eq_intercalate, splitOn_eq_list_splitOn, List.intercalate_splitOn]

end Text

lemma mem_joinWith {separator : Text} {c : Char} :
    ∀ {parts : List Text}, c ∈ Text.joinWith separator parts →
      c ∈ separator ∨ ∃ part ∈ parts, c ∈ part
  | [], h => by simp [Text.joinWith] at h
  | [part], h => Or.inr ⟨part, by simp, by simpa [Text.joinWith] using h⟩
  | part :: second :: others, h => by
      rw [Text.joinWith_cons _ _ (by simp), List.mem_append, List.mem_append] at h
      rcases h with (h | h) | h
      · exact Or.inr ⟨part, by simp, h⟩
      · exact Or.inl h
      · rcases mem_joinWith h with h | ⟨other, ho, hc⟩
        · exact Or.inl h
        · exact Or.inr ⟨other, List.mem_cons_of_mem _ ho, hc⟩

/-- A path that can be written in a token: a name, then names and numerals. -/
def Path.isSpellable : Path → Bool
  | [] => false
  | first :: rest => isName first && rest.all fun segment => isName segment || isNumeral segment

lemma Path.ofText?_eq_some {t : Text} {path : Path} (h : Path.ofText? t = some path) :
    path = Text.splitOn '.' t ∧ path.isSpellable = true := by
  unfold Path.ofText? at h
  cases hs : Text.splitOn '.' t with
  | nil => simp [hs] at h
  | cons first rest =>
      simp only [hs] at h
      split at h
      · next hv =>
          rw [Option.some.injEq] at h
          subst h
          exact ⟨rfl, hv⟩
      · simp at h

lemma isNameChar_of_isName {segment : Text} (h : isName segment = true) {c : Char}
    (hc : c ∈ segment) : isNameChar c = true := by
  cases segment with
  | nil => simp at hc
  | cons d rest =>
      simp only [isName, Bool.and_eq_true, List.all_eq_true] at h
      rcases List.mem_cons.mp hc with rfl | hc
      · have := h.1
        simp only [isNameStart, Bool.or_eq_true] at this
        simp only [isNameChar, Char.isAlphanum, Bool.or_eq_true]
        tauto
      · exact h.2 c hc

lemma isNameChar_of_isNumeral {segment : Text} (h : isNumeral segment = true) {c : Char}
    (hc : c ∈ segment) : isNameChar c = true := by
  simp only [isNumeral, Bool.and_eq_true, List.all_eq_true] at h
  simp [isNameChar, Char.isAlphanum, h.2 c hc]

lemma Path.isNameChar_of_isSpellable {path : Path} (h : path.isSpellable = true) {segment : Text}
    (hs : segment ∈ path) {c : Char} (hc : c ∈ segment) : isNameChar c = true := by
  cases path with
  | nil => simp at hs
  | cons first rest =>
      simp only [Path.isSpellable, Bool.and_eq_true, List.all_eq_true, Bool.or_eq_true] at h
      rcases List.mem_cons.mp hs with rfl | hs
      · exact isNameChar_of_isName h.1 hc
      · rcases h.2 segment hs with h | h
        · exact isNameChar_of_isName h hc
        · exact isNameChar_of_isNumeral h hc

/-- A path that can be written is read as itself. -/
lemma Path.ofText?_dotted {path : Path} (h : path.isSpellable = true) :
    Path.ofText? path.dotted = some path := by
  have hne : path ≠ [] := by
    rintro rfl
    simp [Path.isSpellable] at h
  have hdot : ∀ segment ∈ path, '.' ∉ segment := fun segment hs hc =>
    absurd (Path.isNameChar_of_isSpellable h hs hc) (by decide)
  have hsplit : Text.splitOn '.' path.dotted = path := by
    rw [splitOn_eq_list_splitOn, Path.dotted, joinWith_eq_intercalate]
    exact List.splitOn_intercalate '.' hdot hne
  unfold Path.ofText?
  rw [hsplit]
  cases path with
  | nil => exact absurd rfl hne
  | cons first rest =>
      simp only [Path.isSpellable] at h
      simp [h]

lemma isPathChar_of_ofText? {t : Text} {path : Path} (h : Path.ofText? t = some path) {c : Char}
    (hc : c ∈ t) : isPathChar c = true := by
  obtain ⟨rfl, hv⟩ := Path.ofText?_eq_some h
  rw [← Text.joinWith_splitOn '.' t] at hc
  rcases mem_joinWith hc with hdot | ⟨segment, hs, hcs⟩
  · rw [List.mem_singleton.mp hdot]
    rfl
  · simp [isPathChar, Path.isNameChar_of_isSpellable hv hs hcs]

lemma isPathChar_of_lower_mem (word : Text) (hw : word.all Char.isAlpha = true) {body : Text}
    (h : Text.lower body = word) {c : Char} (hc : c ∈ body) : isPathChar c = true := by
  have hm : c.toLower ∈ word := by
    rw [← h]
    exact List.mem_map_of_mem hc
  have ha : c.isAlpha = true := by
    by_cases hu : c.isUpper = true
    · exact (Bool.or_eq_true _ _).mpr (Or.inl hu)
    · have hl : c.toLower = c := dif_neg fun hrange => hu (decide_eq_true hrange)
      exact List.all_eq_true.mp hw _ (hl ▸ hm)
  simp [isPathChar, isNameChar, Char.isAlphanum, ha]

/-- A text with the keyword of an opening marker begins with two letters and a colon. -/
lemma afterIf?_eq_some {body rest : Text} (h : afterIf? body = some rest) :
    ∃ i f, body = i :: f :: ':' :: rest ∧ isPathChar i = true ∧ isPathChar f = true := by
  unfold afterIf? at h
  split at h
  · next i f others =>
      split at h
      · next hif =>
          rw [Bool.and_eq_true, decide_eq_true_eq, decide_eq_true_eq] at hif
          obtain rfl := Option.some.inj h
          refine ⟨i, f, rfl, ?_, ?_⟩
          · exact isPathChar_of_lower_mem ['i'] rfl (by simp [Text.lower, hif.1])
              (List.mem_singleton_self i)
          · exact isPathChar_of_lower_mem ['f'] rfl (by simp [Text.lower, hif.2])
              (List.mem_singleton_self f)
      · simp at h
  · simp at h

/-- The body of a token has the keyword of an opening marker and then a path, or no colon at all. -/
lemma isPathChar_of_ofBody? {body : Text} {meaning : Meaning}
    (h : Meaning.ofBody? body = some meaning) :
    (∃ rest, afterIf? body = some rest ∧ ∀ c ∈ rest, isPathChar c = true)
      ∨ afterIf? body = none ∧ ∀ c ∈ body, isPathChar c = true := by
  unfold Meaning.ofBody? at h
  split at h
  · next rest hrest =>
      obtain ⟨path, hp, -⟩ := Option.map_eq_some_iff.mp h
      exact Or.inl ⟨rest, hrest, fun c hc => isPathChar_of_ofText? hp hc⟩
  · next hnone =>
      refine Or.inr ⟨hnone, fun c hc => ?_⟩
      split at h
      · next he => exact isPathChar_of_lower_mem (Text.ofString "else") rfl he hc
      · split at h
        · next he => exact isPathChar_of_lower_mem (Text.ofString "endif") rfl he hc
        · obtain ⟨path, hp, -⟩ := Option.map_eq_some_iff.mp h
          exact isPathChar_of_ofText? hp hc

/-- The body of a token holds letters, digits, underscores, dots and at most a colon. -/
theorem isBodyChar_of_ofBody? {body : Text} {meaning : Meaning}
    (h : Meaning.ofBody? body = some meaning) {c : Char} (hc : c ∈ body) :
    isBodyChar c = true := by
  rcases isPathChar_of_ofBody? h with ⟨rest, hrest, hall⟩ | ⟨-, hall⟩
  · obtain ⟨i, f, rfl, hi, hf⟩ := afterIf?_eq_some hrest
    simp only [List.mem_cons] at hc
    rcases hc with rfl | rfl | rfl | hc
    · simp [isBodyChar, hi]
    · simp [isBodyChar, hf]
    · rfl
    · simp [isBodyChar, hall c hc]
  · simp [isBodyChar, hall c hc]

/-! ## Reading on from a state -/

/-- The pieces of a text that is read from a given state. -/
def piecesFrom (state : ReaderState) (t : Text) : List Piece :=
  (readPieces state t).1 ++ (readPieces state t).2.text.map .char

lemma pieces_eq_piecesFrom (t : Text) : pieces t = piecesFrom none t := rfl

/-- **Reading composes.**  What follows a text is read from the state that the text leaves. -/
theorem readPieces_append (state : ReaderState) (t u : Text) :
    readPieces state (t ++ u)
      = ((readPieces state t).1 ++ (readPieces (readPieces state t).2 u).1,
          (readPieces (readPieces state t).2 u).2) := by
  fun_induction readPieces state t with
  | case1 state => simp
  | case2 rest ih => simpa [readPieces] using ih
  | case3 c rest h pieces last e ih =>
      rw [e] at ih
      simp [readPieces, h, ih]
  | case4 body rest meaning hm pieces last e ih =>
      rw [e] at ih
      simp [readPieces, hm, ih]
  | case5 body rest hm pieces last e ih =>
      rw [e] at ih
      simp [readPieces, hm, ih]
  | case6 body c rest h ih => simpa [readPieces, h] using ih

lemma piecesFrom_append (state : ReaderState) (t u : Text) :
    piecesFrom state (t ++ u)
      = (readPieces state t).1 ++ piecesFrom (readPieces state t).2 u := by
  rw [piecesFrom, piecesFrom, readPieces_append, List.append_assoc]

/-- Inside a candidate, all characters before the next at-sign belong to the body. -/
lemma readPieces_body (body t : Text) (h : '@' ∉ t) :
    readPieces (some body) t = ([], some (t.reverse ++ body)) := by
  induction t generalizing body with
  | nil => rfl
  | cons c rest ih =>
      rw [List.mem_cons, not_or] at h
      rw [readPieces, if_neg (Ne.symm h.1), ih _ h.2]
      simp

/-! ## Sound pieces -/

/-- A piece that a reader finds and that leaves no at-sign without a token: a token that means what
its body says, or a character other than the at-sign. -/
def Piece.IsSound : Piece → Prop
  | .char c => c ≠ '@'
  | .token t => Meaning.ofBody? t.body = some t.meaning

lemma at_not_mem_body {body : Text} {meaning : Meaning}
    (h : Meaning.ofBody? body = some meaning) : '@' ∉ body :=
  fun hc => absurd (isBodyChar_of_ofBody? h hc) (by decide)

lemma lineEnd_not_mem_body {body : Text} {meaning : Meaning}
    (h : Meaning.ofBody? body = some meaning) : '\n' ∉ body :=
  fun hc => absurd (isBodyChar_of_ofBody? h hc) (by decide)

/-- Every token that a reader settles means what its body says. -/
lemma meaning_of_mem_readPieces {state : ReaderState} {t : Text} {token : Token}
    (h : Piece.token token ∈ (readPieces state t).1) :
    Meaning.ofBody? token.body = some token.meaning := by
  fun_induction readPieces state t with
  | case1 state => simp at h
  | case2 rest ih => exact ih h
  | case3 c rest hc pieces last e ih => simp_all
  | case4 body rest meaning hm pieces last e ih =>
      rw [e] at ih
      rcases List.mem_cons.mp h with h | h
      · rw [Piece.token.injEq] at h
        rw [h]
        exact hm
      · exact ih h
  | case5 body rest hm pieces last e ih =>
      rw [e] at ih
      simp only [List.cons_append, List.mem_cons, reduceCtorEq, List.mem_append, List.mem_map,
        false_or] at h
      rcases h with ⟨c, -, hc⟩ | h
      · exact absurd hc (by simp)
      · exact ih h
  | case6 body c rest hc ih => exact ih h

lemma meaning_of_mem_pieces {t : Text} {token : Token} (h : Piece.token token ∈ pieces t) :
    Meaning.ofBody? token.body = some token.meaning := by
  rw [pieces_eq_piecesFrom, piecesFrom, List.mem_append] at h
  rcases h with h | h
  · exact meaning_of_mem_readPieces h
  · simp at h

/-- A sound token is read in one go. -/
lemma readPieces_token {token : Token} (h : (Piece.token token).IsSound) (rest : Text) :
    readPieces none (token.text ++ rest)
      = (.token token :: (readPieces none rest).1, (readPieces none rest).2) := by
  have hbody := readPieces_body [] token.body (at_not_mem_body h)
  have hm : Meaning.ofBody? token.body = some token.meaning := h
  simp only [Token.text, List.cons_append, List.append_assoc, readPieces, ↓reduceIte]
  rw [readPieces_append, hbody]
  simp [readPieces, hm]

/-- **Sound pieces are read as themselves,** and the reader is then outside all candidates. -/
theorem readPieces_spell {ps : List Piece} (h : ∀ p ∈ ps, p.IsSound) :
    readPieces none (ps.flatMap Piece.text) = (ps, none) := by
  induction ps with
  | nil => rfl
  | cons p rest ih =>
      have ih := ih fun q hq => h q (List.mem_cons_of_mem _ hq)
      have hp := h p List.mem_cons_self
      cases p with
      | char c =>
          have hc : c ≠ '@' := hp
          simp [Piece.text, readPieces, hc, ih]
      | token token =>
          rw [List.flatMap_cons, Piece.text, readPieces_token hp, ih]

theorem pieces_spell {ps : List Piece} (h : ∀ p ∈ ps, p.IsSound) :
    pieces (ps.flatMap Piece.text) = ps := by
  simp [pieces, readPieces_spell h, ReaderState.text]

/-! ## Texts without stray at-signs -/

/-- Every at-sign of the text belongs to a token. -/
def IsTokenized (t : Text) : Prop := ∀ p ∈ pieces t, p.IsSound

/-- Only an at-sign that is read as a mere character keeps a text from being tokenized. -/
lemma isTokenized_iff {t : Text} : IsTokenized t ↔ Piece.char '@' ∉ pieces t := by
  constructor
  · exact fun h hm => h _ hm rfl
  · intro h p hp
    cases p with
    | char c => exact fun hc => h (hc ▸ hp)
    | token token => exact meaning_of_mem_pieces hp

lemma IsTokenized.readPieces {t : Text} (h : IsTokenized t) :
    readPieces none t = (pieces t, none) := by
  conv_lhs => rw [← spelled_pieces t]
  exact readPieces_spell h

/-- A tokenized text does not influence how the text after it is read. -/
theorem IsTokenized.pieces_append {t : Text} (h : IsTokenized t) (u : Text) :
    pieces (t ++ u) = pieces t ++ pieces u := by
  rw [pieces_eq_piecesFrom, piecesFrom_append, h.readPieces]
  rfl

lemma IsTokenized.pieces_flatten {ts : List Text} (h : ∀ t ∈ ts, IsTokenized t) :
    pieces ts.flatten = ts.flatMap pieces := by
  induction ts with
  | nil => rfl
  | cons t rest ih =>
      rw [List.flatten_cons, (h t List.mem_cons_self).pieces_append,
        ih fun u hu => h u (List.mem_cons_of_mem _ hu), List.flatMap_cons]

/-! ## Open candidates -/

/-- **What becomes of an open candidate.**  Either it is ordinary text, and what follows is read for
itself, or what follows completes it to a token. -/
theorem piecesFrom_some (body t : Text) :
    piecesFrom (some body) t = (ReaderState.text (some body)).map .char ++ pieces t
      ∨ ∃ w u meaning, t = w ++ '@' :: u ∧ Meaning.ofBody? (body.reverse ++ w) = some meaning
        ∧ piecesFrom (some body) t = .token ⟨body.reverse ++ w, meaning⟩ :: pieces u := by
  induction t generalizing body with
  | nil => exact Or.inl (by simp [piecesFrom, pieces, readPieces, ReaderState.text])
  | cons c rest ih =>
      by_cases hc : c = '@'
      · subst hc
        cases hm : Meaning.ofBody? body.reverse with
        | some meaning =>
            refine Or.inr ⟨[], rest, meaning, rfl, by rw [List.append_nil, hm], ?_⟩
            simp [piecesFrom, pieces, readPieces, hm]
        | none =>
            exact Or.inl (by simp [piecesFrom, pieces, readPieces, hm, ReaderState.text])
      · have hstep : piecesFrom (some body) (c :: rest) = piecesFrom (some (c :: body)) rest := by
          simp [piecesFrom, readPieces, hc]
        rcases ih (c :: body) with h | ⟨w, u, meaning, rfl, hm, h⟩
        · exact Or.inl (by simp [hstep, h, pieces, readPieces, hc, ReaderState.text])
        · refine Or.inr ⟨c :: w, u, meaning, rfl, ?_, ?_⟩
          · simpa using hm
          · rw [hstep, h]
            simp

/-! ## Line ends -/

/-- A candidate whose body can no longer become that of a token is ordinary text up to the next
at-sign, which opens the next candidate. -/
lemma piecesFrom_of_lineEnd_mem {body : Text} (hb : '\n' ∈ body) (t : Text) :
    piecesFrom (some body) t = (ReaderState.text (some body)).map .char ++ pieces t := by
  rcases piecesFrom_some body t with h | ⟨w, u, meaning, -, hm, -⟩
  · exact h
  · exact absurd (by simp [hb]) (lineEnd_not_mem_body hm)

/-- **Line ends are walls.**  The texts before and after a line end are read independently. -/
theorem pieces_append_lineEnd (t u : Text) :
    pieces (t ++ '\n' :: u) = pieces t ++ .char '\n' :: pieces u := by
  have ht : pieces t = (readPieces none t).1 ++ (readPieces none t).2.text.map .char := rfl
  rw [pieces_eq_piecesFrom (t ++ _), piecesFrom_append, ht, List.append_assoc]
  congr 1
  cases (readPieces none t).2 with
  | none => simp [piecesFrom, pieces, readPieces, ReaderState.text]
  | some body =>
      have h := piecesFrom_of_lineEnd_mem (List.mem_cons_self (a := '\n') (l := body)) u
      simp only [piecesFrom, readPieces, ReaderState.text] at h ⊢
      simpa using h

/-! ## Where tokens and markers stand -/

/-- The number of characters that some pieces stand for. -/
def spelledLength (ps : List Piece) : Nat := (ps.flatMap Piece.text).length

@[simp] lemma spelledLength_nil : spelledLength [] = 0 := rfl

@[simp] lemma spelledLength_cons (p : Piece) (ps : List Piece) :
    spelledLength (p :: ps) = p.text.length + spelledLength ps := by
  simp [spelledLength]

@[simp] lemma spelledLength_append (ps qs : List Piece) :
    spelledLength (ps ++ qs) = spelledLength ps + spelledLength qs := by
  simp [spelledLength]

@[simp] lemma spelledLength_pieces (t : Text) : spelledLength (pieces t) = t.length := by
  rw [spelledLength, spelled_pieces]

lemma tokensFrom_append (start : Nat) (ps qs : List Piece) :
    tokensFrom start (ps ++ qs)
      = tokensFrom start ps ++ tokensFrom (start + spelledLength ps) qs := by
  induction ps generalizing start with
  | nil => rfl
  | cons p rest ih =>
      cases p with
      | char c => simp [tokensFrom, ih, Piece.text, Nat.add_assoc]
      | token token => simp [tokensFrom, ih, Piece.text, Nat.add_assoc]

lemma tokensFrom_moved (offset start : Nat) (ps : List Piece) :
    tokensFrom (offset + start) ps
      = (tokensFrom start ps).map fun (position, token) => (offset + position, token) := by
  induction ps generalizing start with
  | nil => rfl
  | cons p rest ih =>
      cases p with
      | char c => exact ih (start + 1)
      | token token =>
          rw [tokensFrom, tokensFrom, List.map_cons, Nat.add_assoc, ih]

/-- A token is found at a position exactly if pieces of that length come before it. -/
lemma mem_tokensFrom {start position : Nat} {ps : List Piece} {token : Token} :
    (position, token) ∈ tokensFrom start ps ↔
      ∃ before after, ps = before ++ .token token :: after
        ∧ position = start + spelledLength before := by
  constructor
  · intro h
    induction ps generalizing start with
    | nil => simp [tokensFrom] at h
    | cons p rest ih =>
        cases p with
        | char c =>
            obtain ⟨before, after, rfl, hpos⟩ := ih h
            exact ⟨.char c :: before, after, rfl, by simp [hpos, Piece.text, Nat.add_assoc]⟩
        | token first =>
            rcases List.mem_cons.mp h with h | h
            · obtain ⟨rfl, rfl⟩ := Prod.mk.inj h
              exact ⟨[], rest, rfl, rfl⟩
            · obtain ⟨before, after, rfl, hpos⟩ := ih h
              exact ⟨.token first :: before, after, rfl, by simp [hpos, Piece.text, Nat.add_assoc]⟩
  · rintro ⟨before, after, rfl, rfl⟩
    rw [tokensFrom_append]
    exact List.mem_append_right _ List.mem_cons_self

lemma mem_of_mem_tokensFrom {start position : Nat} {ps : List Piece} {token : Token}
    (h : (position, token) ∈ tokensFrom start ps) : Piece.token token ∈ ps := by
  obtain ⟨before, after, hsplit, -⟩ := mem_tokensFrom.mp h
  rw [hsplit]
  exact List.mem_append_right _ List.mem_cons_self

lemma pairwise_tokensFrom (start : Nat) (ps : List Piece) :
    (tokensFrom start ps).Pairwise fun a b => a.1 + a.2.text.length ≤ b.1 := by
  induction ps generalizing start with
  | nil => exact List.Pairwise.nil
  | cons p rest ih =>
      cases p with
      | char c => exact ih _
      | token token =>
          refine List.pairwise_cons.mpr ⟨?_, ih _⟩
          rintro ⟨position, other⟩ h
          obtain ⟨before, after, -, hpos⟩ := mem_tokensFrom.mp h
          simp only [hpos]
          omega

/-- A placeholder of a text is one of its tokens. -/
lemma exists_token_of_mem_placeholders {t : Text} {p : Placeholder} (h : p ∈ placeholders t) :
    ∃ token, Piece.token token ∈ pieces t ∧ token.meaning = .placeholder p.path
      ∧ p.text = token.text := by
  obtain ⟨⟨position, token⟩, hmem, hp⟩ := List.mem_filterMap.mp h
  refine ⟨token, mem_of_mem_tokensFrom hmem, ?_⟩
  obtain ⟨body, meaning⟩ := token
  cases meaning with
  | placeholder path =>
      obtain rfl := Option.some.inj hp
      exact ⟨rfl, rfl⟩
  | opening path => simp [Token.placeholder?] at hp
  | alternative => simp [Token.placeholder?] at hp
  | closing => simp [Token.placeholder?] at hp

/-- The conditional markers of a text whose first character stands at `start`. -/
def markersFrom (start : Nat) (t : Text) : List Marker :=
  (tokensFrom start (pieces t)).filterMap fun (position, token) => token.marker? position

lemma markers_eq_markersFrom (t : Text) : markers t = markersFrom 0 t := rfl

lemma Token.marker?_eq_some {token : Token} {position : Nat} {m : Marker}
    (h : token.marker? position = some m) : m.here = ⟨position, token.text⟩ := by
  unfold Token.marker? at h
  split at h
  · simp at h
  all_goals
    rw [Option.some.injEq] at h
    rw [← h]
    rfl

/-- A marker of a text is one of its tokens. -/
lemma exists_token_of_mem_markersFrom {start : Nat} {t : Text} {m : Marker}
    (h : m ∈ markersFrom start t) :
    ∃ before token after, pieces t = before ++ .token token :: after
      ∧ m.here = ⟨start + spelledLength before, token.text⟩ := by
  obtain ⟨⟨position, token⟩, hmem, hm⟩ := List.mem_filterMap.mp h
  obtain ⟨before, after, hps, hpos⟩ := mem_tokensFrom.mp hmem
  exact ⟨before, token, after, hps, by rw [Token.marker?_eq_some hm, hpos]⟩

lemma Token.length_text (token : Token) : token.text.length = token.body.length + 2 := by
  simp [Token.text]

/-- A marker takes up at least one character of the text that holds it. -/
lemma bounds_of_mem_markersFrom {start : Nat} {t : Text} {m : Marker}
    (h : m ∈ markersFrom start t) :
    start ≤ m.here.start ∧ m.here.start < m.here.stop ∧ m.here.stop ≤ start + t.length := by
  obtain ⟨before, token, after, hps, hm⟩ := exists_token_of_mem_markersFrom h
  have hlen := spelledLength_pieces t
  rw [hps] at hlen
  have htok := token.length_text
  simp only [spelledLength_append, spelledLength_cons, Piece.text] at hlen
  simp only [hm, Occurrence.stop]
  omega

lemma pairwise_markersFrom (start : Nat) (t : Text) :
    (markersFrom start t).Pairwise fun a b => a.here.stop ≤ b.here.start := by
  refine (pairwise_tokensFrom start (pieces t)).filterMap _ ?_
  rintro ⟨i, a⟩ ⟨j, b⟩ hab m hm n hn
  rw [Token.marker?_eq_some hm, Token.marker?_eq_some hn]
  exact hab

end FormLetter
