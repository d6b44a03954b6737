import Mathlib.Data.List.Induction
import Mathlib.Data.List.Sort
import FormLetter.Proofs.Passages

/-!
# The tokens of a text, by their grammar

The reader finds tokens in one pass over the text.  A grammar says what a token is, without any
reading; and which of the tokens that stand in a text are found follows from it.

* **Words.** `SpellsPath`, `Finding.IsToken` — the grammar: names and numerals, paths, placeholders
  and markers.  `spellsPath_iff`, `isToken_ofToken` tie it to `Path.ofText?` and `Meaning.ofBody?`.
* **Places.** Two tokens of a text can share no more than an at-sign, the last of the one and the
  first of the other.  `found_or_shares` — a token that stands in a text is found, unless its first
  at-sign is the last of one that is found.
* **Choices.** `IsChoice` — tokens of a text that are apart, where only such a neighbour keeps a
  token out.  There is one such choice (`IsChoice.unique`), and it is what placeholders and markers
  make up together (`isChoice_iff`).
-/

namespace FormLetter

/-! ## Characters and words -/

/-- A letter of the Latin alphabet without diacritics. -/
def IsLetter (c : Char) : Prop := ('a' ≤ c ∧ c ≤ 'z') ∨ ('A' ≤ c ∧ c ≤ 'Z')

/-- A decimal digit. -/
def IsDigit (c : Char) : Prop := '0' ≤ c ∧ c ≤ '9'

/-- A segment that can name a key: a letter or an underscore, then letters, digits and
underscores. -/
def IsNameWord (t : Text) : Prop :=
  ∃ c rest, t = c :: rest ∧ (IsLetter c ∨ c = '_')
    ∧ ∀ d ∈ rest, IsLetter d ∨ IsDigit d ∨ d = '_'

/-- A segment that can count into a list: digits, at least one. -/
def IsNumeralWord (t : Text) : Prop := t ≠ [] ∧ ∀ d ∈ t, IsDigit d

/-- **The grammar of paths:** a name, then any number of names and numerals, each after a dot. -/
inductive SpellsPath : Text → Path → Prop
  | name {t : Text} (h : IsNameWord t) : SpellsPath t [t]
  | step {t segment : Text} {path : Path} (h : SpellsPath t path)
      (hsegment : IsNameWord segment ∨ IsNumeralWord segment) :
      SpellsPath (t ++ '.' :: segment) (path ++ [segment])

/-- The text is the word, which is in lower case, in some mixture of letter cases. -/
def IsCasing (word t : Text) : Prop := List.Forall₂ (fun l c => c = l ∨ c = l.toUpper) word t

/-! ## Tokens -/

/-- What is reported of a token. -/
inductive Finding
  | placeholder (p : Placeholder)
  | marker (m : Marker)
deriving DecidableEq

namespace Finding

/-- Where the token stands. -/
def here : Finding → Occurrence
  | .placeholder p => p.toOccurrence
  | .marker m => m.here

/-- **The grammar of tokens,** each with what is to be reported of it.  A keyword is no path. -/
inductive IsToken : Finding → Prop
  | placeholder (start : Nat) {body : Text} {path : Path} (h : SpellsPath body path)
      (helse : ¬ IsCasing ['e', 'l', 's', 'e'] body)
      (hend : ¬ IsCasing ['e', 'n', 'd', 'i', 'f'] body) :
      IsToken (.placeholder ⟨⟨start, '@' :: body ++ ['@']⟩, path⟩)
  | opening (start : Nat) {keyword spelling : Text} {path : Path}
      (hkeyword : IsCasing ['i', 'f'] keyword) (h : SpellsPath spelling path) :
      IsToken (.marker (.opening ⟨start, '@' :: (keyword ++ ':' :: spelling) ++ ['@']⟩
        ⟨spelling, path⟩))
  | alternative (start : Nat) {body : Text} (h : IsCasing ['e', 'l', 's', 'e'] body) :
      IsToken (.marker (.alternative ⟨start, '@' :: body ++ ['@']⟩))
  | closing (start : Nat) {body : Text} (h : IsCasing ['e', 'n', 'd', 'i', 'f'] body) :
      IsToken (.marker (.closing ⟨start, '@' :: body ++ ['@']⟩))

end Finding

/-- The stretch stands in the text, at its position. -/
def Occurrence.StandsIn (here : Occurrence) (t : Text) : Prop :=
  ∃ before after, t = before ++ here.text ++ after ∧ here.start = before.length

/-- The placeholders and the conditional markers of a text, merged by position. -/
def findings (t : Text) : List Finding :=
  List.merge ((placeholders t).map .placeholder) ((markers t).map .marker)
    fun a b => a.here.start ≤ b.here.start

/-- A choice among the tokens that stand in a text, from left to right. -/
structure IsChoice (t : Text) (found : List Finding) : Prop where
  /-- The chosen tokens are apart, and in order. -/
  apart : found.Pairwise fun a b => a.here.stop ≤ b.here.start
  /-- They are tokens of the text. -/
  sound : ∀ f ∈ found, f.here.StandsIn t ∧ f.IsToken
  /-- Any other token of the text begins with the last at-sign of one that is chosen. -/
  complete : ∀ f : Finding, f.here.StandsIn t → f.IsToken →
    f ∈ found ∨ ∃ g ∈ found, g.here.stop = f.here.start + 1

/-! ## The grammar and its reading -/

lemma isUpper_iff {c : Char} : c.isUpper = true ↔ 'A' ≤ c ∧ c ≤ 'Z' := decide_eq_true_iff

lemma isLower_iff {c : Char} : c.isLower = true ↔ 'a' ≤ c ∧ c ≤ 'z' := by
  have hdef : c.isLower = (decide ('a' ≤ c) && decide (c ≤ 'z')) := rfl
  rw [hdef, Bool.and_eq_true, decide_eq_true_iff, decide_eq_true_iff]

lemma isAlpha_iff {c : Char} : c.isAlpha = true ↔ IsLetter c := by
  have hdef : c.isAlpha = (c.isUpper || c.isLower) := rfl
  rw [hdef, Bool.or_eq_true, isUpper_iff, isLower_iff, IsLetter, or_comm]

lemma isDigit_iff {c : Char} : c.isDigit = true ↔ IsDigit c := by
  simp only [Char.isDigit, IsDigit, Bool.and_eq_true, decide_eq_true_eq]
  rfl

lemma isName_iff {t : Text} : isName t = true ↔ IsNameWord t := by
  cases t with
  | nil => simp [isName, IsNameWord]
  | cons c rest =>
      simp only [isName, isNameStart, isNameChar, Char.isAlphanum, Bool.and_eq_true,
        Bool.or_eq_true, List.all_eq_true, isAlpha_iff, isDigit_iff, beq_iff_eq, or_assoc]
      constructor
      · rintro ⟨hc, hrest⟩
        exact ⟨c, rest, rfl, hc, hrest⟩
      · rintro ⟨d, others, heq, hc, hrest⟩
        obtain ⟨rfl, rfl⟩ := List.cons.inj heq
        exact ⟨hc, hrest⟩

lemma isNumeral_iff {t : Text} : isNumeral t = true ↔ IsNumeralWord t := by
  simp [isNumeral, IsNumeralWord, isDigit_iff]

lemma Path.dotted_concat {path : Path} (h : path ≠ []) (segment : Text) :
    Path.dotted (path ++ [segment]) = path.dotted ++ '.' :: segment := by
  induction path with
  | nil => exact absurd rfl h
  | cons first rest ih =>
      cases rest with
      | nil => simp [Path.dotted, Text.joinWith]
      | cons second others =>
          have ih := ih (List.cons_ne_nil second others)
          rw [Path.dotted, Path.dotted] at ih
          rw [Path.dotted, Path.dotted, List.cons_append,
            Text.joinWith_cons _ _ (List.append_ne_nil_of_left_ne_nil (by simp) _), ih,
            Text.joinWith_cons _ first (List.cons_ne_nil second others), List.append_assoc,
            List.append_assoc, List.append_assoc]

/-- The grammar gives the spelling of a path that can be written. -/
lemma SpellsPath.dotted {t : Text} {path : Path} (h : SpellsPath t path) :
    path.dotted = t ∧ path.isSpellable = true := by
  induction h with
  | name h => exact ⟨rfl, by simp [Path.isSpellable, isName_iff.mpr h]⟩
  | @step t segment path h hsegment ih =>
      obtain ⟨ht, hpath⟩ := ih
      cases path with
      | nil => simp [Path.isSpellable] at hpath
      | cons first rest =>
          refine ⟨by rw [Path.dotted_concat (by simp), ht], ?_⟩
          simp only [Path.isSpellable, Bool.and_eq_true] at hpath
          simpa [Path.isSpellable, hpath, isName_iff, isNumeral_iff] using hsegment

lemma spellsPath_dotted {path : Path} (h : path.isSpellable = true) :
    SpellsPath path.dotted path := by
  cases path with
  | nil => simp [Path.isSpellable] at h
  | cons first rest =>
      simp only [Path.isSpellable, Bool.and_eq_true] at h
      obtain ⟨hfirst, hrest⟩ := h
      -- the grammar adds segments at the end
      induction rest using List.reverseRecOn with
      | nil => exact .name (isName_iff.mp hfirst)
      | append_singleton rest last ih =>
          simp only [List.all_append, Bool.and_eq_true, List.all_cons, List.all_nil,
            Bool.and_true, Bool.or_eq_true, isName_iff, isNumeral_iff] at hrest
          have hstep := (ih (by simpa [isName_iff, isNumeral_iff] using hrest.1)).step hrest.2
          rwa [← Path.dotted_concat (List.cons_ne_nil first rest)] at hstep

/-- **The grammar of paths is the one that is read.** -/
lemma spellsPath_iff {t : Text} {path : Path} :
    SpellsPath t path ↔ Path.ofText? t = some path := by
  constructor
  · intro h
    obtain ⟨rfl, hpath⟩ := h.dotted
    exact Path.ofText?_dotted hpath
  · intro h
    obtain ⟨rfl, hpath⟩ := Path.ofText?_eq_some h
    have hspelled := spellsPath_dotted hpath
    rwa [Path.dotted, Text.joinWith_splitOn] at hspelled

/-- Two characters come to a lower case letter: itself and its capital. -/
lemma toLower_eq_iff {l c : Char} (hl : l.isLower = true) :
    c.toLower = l ↔ c = l ∨ c = l.toUpper := by
  have hrange : 'a'.val ≤ l.val ∧ l.val ≤ 'z'.val := isLower_iff.mp hl
  have hupper : l.toUpper = ⟨l.val + ('A'.val - 'a'.val), _⟩ := dif_pos hrange
  by_cases hc : c.val ≥ 'A'.val ∧ c.val ≤ 'Z'.val
  · have hlower : c.toLower = ⟨c.val + ('a'.val - 'A'.val), _⟩ := dif_pos hc
    rw [hlower, hupper, Char.ext_iff, Char.ext_iff, Char.ext_iff]
    clear hl hlower hupper
    grind
  · have hsame : c.toLower = c := dif_neg hc
    rw [hsame, hupper, Char.ext_iff, Char.ext_iff]
    clear hl hsame hupper
    grind

lemma lower_eq_iff {word t : Text} (hword : ∀ l ∈ word, l.isLower = true) :
    Text.lower t = word ↔ IsCasing word t := by
  induction t generalizing word with
  | nil => cases word <;> simp [Text.lower, IsCasing]
  | cons c rest ih =>
      cases word with
      | nil => simp [Text.lower, IsCasing]
      | cons l others =>
          obtain ⟨hl, hothers⟩ := List.forall_mem_cons.mp hword
          have ih := ih hothers
          simp only [Text.lower, IsCasing] at ih
          simp [Text.lower, IsCasing, List.map_cons, toLower_eq_iff hl, ih]

lemma isCasing_iff_if {i f : Char} :
    i.toLower = 'i' ∧ f.toLower = 'f' ↔ IsCasing ['i', 'f'] [i, f] := by
  rw [toLower_eq_iff (by decide), toLower_eq_iff (by decide)]
  simp [IsCasing]

/-- The keyword of an opening marker and a colon are followed by the rest of the body. -/
lemma afterIf?_iff {body rest : Text} :
    afterIf? body = some rest
      ↔ ∃ keyword, IsCasing ['i', 'f'] keyword ∧ body = keyword ++ ':' :: rest := by
  constructor
  · intro h
    obtain ⟨i, f, rfl, -, -⟩ := afterIf?_eq_some h
    refine ⟨[i, f], isCasing_iff_if.mp ?_, rfl⟩
    simp only [afterIf?] at h
    split at h
    · next hif => simpa using hif
    · simp at h
  · rintro ⟨keyword, hkeyword, rfl⟩
    match keyword, hkeyword with
    | [i, f], hkeyword =>
        have hif := isCasing_iff_if.mpr hkeyword
        simp [afterIf?, hif]

/-! ## Tokens as they are reported -/

namespace Finding

/-- What is reported of a token that has been read at a position. -/
def ofToken (start : Nat) (token : Token) : Finding :=
  match token.meaning with
  | .placeholder path => .placeholder ⟨⟨start, token.text⟩, path⟩
  | .opening path => .marker (.opening ⟨start, token.text⟩ (.ofPath path))
  | .alternative => .marker (.alternative ⟨start, token.text⟩)
  | .closing => .marker (.closing ⟨start, token.text⟩)

@[simp] lemma here_ofToken (start : Nat) (token : Token) :
    (ofToken start token).here = ⟨start, token.text⟩ := by
  obtain ⟨body, meaning⟩ := token
  cases meaning <;> rfl

/-- A body that spells a path has no colon, so it does not begin with the keyword of an opening
marker. -/
lemma afterIf?_of_spellsPath {body : Text} {path : Path} (h : SpellsPath body path) :
    afterIf? body = none := by
  cases hif : afterIf? body with
  | none => rfl
  | some rest =>
      obtain ⟨i, f, rfl, -, -⟩ := afterIf?_eq_some hif
      exact absurd (isPathChar_of_ofText? (spellsPath_iff.mp h) (c := ':') (by simp)) (by decide)

lemma afterIf?_of_isCasing {word body : Text} (hword : word.all Char.isAlpha = true)
    (h : Text.lower body = word) : afterIf? body = none := by
  cases hif : afterIf? body with
  | none => rfl
  | some rest =>
      obtain ⟨i, f, rfl, -, -⟩ := afterIf?_eq_some hif
      exact absurd (isPathChar_of_lower_mem word hword h (c := ':') (by simp)) (by decide)

lemma lower_eq_else {t : Text} :
    Text.lower t = Text.ofString "else" ↔ IsCasing ['e', 'l', 's', 'e'] t :=
  @lower_eq_iff ['e', 'l', 's', 'e'] t (by simp)

lemma lower_eq_endif {t : Text} :
    Text.lower t = Text.ofString "endif" ↔ IsCasing ['e', 'n', 'd', 'i', 'f'] t :=
  @lower_eq_iff ['e', 'n', 'd', 'i', 'f'] t (by simp)

/-- A word of the grammar is read as what the grammar says of it. -/
lemma IsToken.ofBody? {f : Finding} (h : f.IsToken) :
    ∃ start token, Meaning.ofBody? token.body = some token.meaning ∧ f = ofToken start token := by
  cases h with
  | @placeholder start body path hpath helse hend =>
      refine ⟨start, ⟨body, .placeholder path⟩, ?_, rfl⟩
      rw [← lower_eq_else] at helse
      rw [← lower_eq_endif] at hend
      simp [Meaning.ofBody?, afterIf?_of_spellsPath hpath, helse, hend, spellsPath_iff.mp hpath]
  | @opening start keyword spelling path hkeyword hpath =>
      obtain rfl := hpath.dotted.1
      refine ⟨start, ⟨keyword ++ ':' :: path.dotted, .opening path⟩, ?_, rfl⟩
      simp [Meaning.ofBody?, afterIf?_iff.mpr ⟨keyword, hkeyword, rfl⟩, spellsPath_iff.mp hpath]
  | @alternative start body hword =>
      refine ⟨start, ⟨body, .alternative⟩, ?_, rfl⟩
      have hlower := lower_eq_else.mpr hword
      simp [Meaning.ofBody?, afterIf?_of_isCasing rfl hlower, hlower]
  | @closing start body hword =>
      refine ⟨start, ⟨body, .closing⟩, ?_, rfl⟩
      have hlower := lower_eq_endif.mpr hword
      have hother : Text.ofString "endif" ≠ Text.ofString "else" := by decide
      simp [Meaning.ofBody?, afterIf?_of_isCasing rfl hlower, hlower, hother]

/-- What is read is a word of the grammar. -/
lemma isToken_ofToken {start : Nat} {token : Token}
    (h : Meaning.ofBody? token.body = some token.meaning) : (ofToken start token).IsToken := by
  obtain ⟨body, meaning⟩ := token
  simp only [Meaning.ofBody?] at h
  split at h
  · next rest hif =>
      obtain ⟨keyword, hkeyword, rfl⟩ := afterIf?_iff.mp hif
      obtain ⟨path, hpath, rfl⟩ := Option.map_eq_some_iff.mp h
      have hspells := spellsPath_iff.mpr hpath
      have hopening := IsToken.opening start hkeyword hspells
      rwa [← hspells.dotted.1] at hopening ⊢
  · split at h
    · next helse =>
        obtain rfl := Option.some.inj h
        exact .alternative start (lower_eq_else.mp helse)
    · next helse =>
        split at h
        · next hend =>
            obtain rfl := Option.some.inj h
            exact .closing start (lower_eq_endif.mp hend)
        · next hend =>
            obtain ⟨path, hpath, rfl⟩ := Option.map_eq_some_iff.mp h
            exact .placeholder start (spellsPath_iff.mpr hpath) (mt lower_eq_else.mpr helse)
              (mt lower_eq_endif.mpr hend)

end Finding

/-- Split by kind and put together again, tokens are what they were, in some order. -/
lemma perm_findings (found : List (Nat × Token)) :
    List.Perm
      ((found.filterMap fun (start, token) => token.placeholder? start).map Finding.placeholder
        ++ (found.filterMap fun (start, token) => token.marker? start).map Finding.marker)
      (found.map fun (start, token) => Finding.ofToken start token) := by
  induction found with
  | nil => exact List.Perm.nil
  | cons first rest ih =>
      obtain ⟨start, body, meaning⟩ := first
      cases meaning with
      | placeholder path => exact ih.cons _
      | opening path => exact List.perm_middle.trans (ih.cons _)
      | alternative => exact List.perm_middle.trans (ih.cons _)
      | closing => exact List.perm_middle.trans (ih.cons _)

/-- Each kind by itself is in the order of all tokens. -/
lemma pairwise_placeholders (t : Text) :
    ((placeholders t).map Finding.placeholder).Pairwise fun a b => a.here.start ≤ b.here.start := by
  rw [List.pairwise_map]
  refine (pairwise_tokensFrom 0 (pieces t)).filterMap _ ?_
  rintro ⟨i, body, meaning⟩ ⟨j, other, meant⟩ hij p hp q hq
  cases meaning with
  | placeholder path =>
      cases meant with
      | placeholder path' =>
          obtain rfl := Option.some.inj hp
          obtain rfl := Option.some.inj hq
          exact Nat.le_trans (Nat.le_add_right i _) hij
      | _ => simp [Token.placeholder?] at hq
  | _ => simp [Token.placeholder?] at hp

lemma pairwise_markers (t : Text) :
    ((markers t).map Finding.marker).Pairwise fun a b => a.here.start ≤ b.here.start := by
  rw [List.pairwise_map]
  exact (pairwise_markersFrom 0 t).imp fun h => Nat.le_trans (Nat.le_add_right _ _) h

/-- **The placeholders and the markers of a text, merged by position, are its tokens.** -/
lemma findings_eq (t : Text) :
    findings t = (tokens t).map fun (start, token) => Finding.ofToken start token := by
  have hperm : List.Perm (findings t)
      ((tokens t).map fun (start, token) => Finding.ofToken start token) :=
    (List.merge_perm_append _).trans (perm_findings (tokens t))
  have hmerged : (findings t).Pairwise fun a b => decide (a.here.start ≤ b.here.start) = true := by
    refine List.pairwise_merge (fun a b c => ?_) (fun a b => ?_) _ _ ?_ ?_
    · simpa using Nat.le_trans
    · simpa using Nat.le_total a.here.start b.here.start
    · simpa using pairwise_placeholders t
    · simpa using pairwise_markers t
  have hordered := pairwise_tokensFrom 0 (pieces t)
  have hsorted : ((tokens t).map fun (start, token) => Finding.ofToken start token).Pairwise
      fun a b => decide (a.here.start ≤ b.here.start) = true := by
    rw [List.pairwise_map]
    refine hordered.imp fun h => ?_
    simp only [Finding.here_ofToken, decide_eq_true_eq]
    omega
  refine hperm.eq_of_pairwise (fun f g hf hg hfg hgf => ?_) hmerged hsorted
  -- no two tokens begin at one place
  obtain ⟨⟨i, a⟩, ha, rfl⟩ := List.mem_map.mp (hperm.subset hf)
  obtain ⟨⟨j, b⟩, hb, rfl⟩ := List.mem_map.mp hg
  simp only [Finding.here_ofToken, decide_eq_true_eq] at hfg hgf
  rcases pairwise_cases hordered ha hb with heq | hlt | hlt
  · rw [heq]
  · have := a.length_text
    simp only at hlt
    omega
  · have := b.length_text
    simp only at hlt
    omega

/-! ## Tokens that stand in a text -/

/-- **A token that stands in a text is found,** unless its first at-sign is the last one of a token
that is found. -/
lemma found_or_shares {token : Token} (h : Meaning.ofBody? token.body = some token.meaning)
    (before after : Text) :
    (before.length, token) ∈ tokens (before ++ token.text ++ after)
      ∨ ∃ position other, (position, other) ∈ tokens (before ++ token.text ++ after)
          ∧ position + other.text.length = before.length + 1 := by
  have hread : pieces (token.text ++ after) = .token token :: pieces after := by
    rw [pieces_eq_piecesFrom, piecesFrom, readPieces_token h]
    rfl
  have hlen : spelledLength (readPieces none before).1 + (readPieces none before).2.text.length
      = before.length := by
    rw [spelledLength, ← List.length_append, spelled_readPieces]
    rfl
  rw [List.append_assoc, tokens, pieces_eq_piecesFrom, piecesFrom_append]
  cases hstate : (readPieces none before).2 with
  | none =>
      rw [hstate] at hlen
      refine Or.inl (mem_tokensFrom.mpr
        ⟨_, pieces after, by rw [← pieces_eq_piecesFrom, hread], ?_⟩)
      rw [Nat.zero_add, ← hlen]
      rfl
  | some body =>
      rw [hstate] at hlen
      rcases piecesFrom_some body (token.text ++ after) with hplain | ⟨w, rest, meaning, hw, hm, hp⟩
      · -- the candidate that is open is ordinary text
        refine Or.inl (mem_tokensFrom.mpr
          ⟨(readPieces none before).1 ++ (ReaderState.text (some body)).map .char, pieces after,
            by rw [hplain, hread, List.append_assoc], ?_⟩)
        rw [Nat.zero_add, spelledLength_append, ← hlen]
        simp only [spelledLength, flatMap_text_map_char]
      · -- the first at-sign closes the candidate
        cases w with
        | cons c w =>
            have hc : c = '@' := (List.cons.inj hw).1.symm
            exact absurd (by simp [hc]) (at_not_mem_body hm)
        | nil =>
            refine Or.inr ⟨_, _, mem_tokensFrom.mpr ⟨_, pieces rest, by rw [hp], rfl⟩, ?_⟩
            rw [← hlen, Token.length_text]
            simp [ReaderState.text]
            omega

/-! ## The choice that is made -/

lemma mem_findings {t : Text} {f : Finding} :
    f ∈ findings t
      ↔ ∃ start token, (start, token) ∈ tokens t ∧ f = Finding.ofToken start token := by
  rw [findings_eq, List.mem_map]
  constructor
  · rintro ⟨⟨start, token⟩, h, rfl⟩
    exact ⟨start, token, h, rfl⟩
  · rintro ⟨start, token, h, rfl⟩
    exact ⟨⟨start, token⟩, h, rfl⟩

/-- A token takes up its first and its last at-sign. -/
lemma Finding.IsToken.start_lt_stop {f : Finding} (h : f.IsToken) :
    f.here.start + 1 < f.here.stop := by
  obtain ⟨start, token, -, rfl⟩ := h.ofBody?
  have := token.length_text
  simp only [Finding.here_ofToken, Occurrence.stop]
  omega

/-- **The tokens that are found are a choice.** -/
lemma isChoice_findings (t : Text) : IsChoice t (findings t) where
  apart := by
    rw [findings_eq, List.pairwise_map]
    refine (pairwise_tokensFrom 0 (pieces t)).imp fun h => ?_
    simpa only [Finding.here_ofToken, Occurrence.stop] using h
  sound := by
    intro f hf
    obtain ⟨start, token, hmem, rfl⟩ := mem_findings.mp hf
    obtain ⟨before, after, hps, hstart⟩ := mem_tokensFrom.mp hmem
    refine ⟨⟨before.flatMap Piece.text, after.flatMap Piece.text, ?_, ?_⟩, ?_⟩
    · conv_lhs => rw [← spelled_pieces t, hps]
      simp [Piece.text]
    · simpa [spelledLength] using hstart
    · exact Finding.isToken_ofToken (meaning_of_mem_pieces (mem_of_mem_tokensFrom hmem))
  complete := by
    rintro f ⟨before, after, rfl, hstart⟩ hf
    obtain ⟨start, token, hm, rfl⟩ := hf.ofBody?
    simp only [Finding.here_ofToken] at hstart ⊢
    subst hstart
    rcases found_or_shares hm before after with hmem | ⟨position, other, hmem, hshares⟩
    · exact Or.inl (mem_findings.mpr ⟨before.length, token, hmem, rfl⟩)
    · exact Or.inr ⟨_, mem_findings.mpr ⟨position, other, hmem, rfl⟩, by
        simpa only [Finding.here_ofToken, Occurrence.stop] using hshares⟩

/-- The members of one choice are among those of any other. -/
lemma IsChoice.subset {t : Text} {found others : List Finding} (h : IsChoice t found)
    (hothers : IsChoice t others) : ∀ f, f ∈ found ↔ f ∈ others := by
  -- by induction on the position: what could keep a token out of a choice begins before it
  suffices hmain : ∀ n, ∀ f : Finding, f.here.start = n → (f ∈ found ↔ f ∈ others) by
    exact fun f => hmain _ f rfl
  intro n
  induction n using Nat.strong_induction_on with
  | _ n ih =>
    have hkeeps : ∀ {chosen rest : List Finding}, IsChoice t chosen → IsChoice t rest →
        (∀ m < n, ∀ g : Finding, g.here.start = m → g ∈ rest → g ∈ chosen) →
        ∀ f : Finding, f.here.start = n → f ∈ chosen → f ∈ rest := by
      intro chosen rest hchosen hrest hbefore f hn hf
      obtain ⟨hstands, htoken⟩ := hchosen.sound f hf
      rcases hrest.complete f hstands htoken with hmem | ⟨g, hg, hshares⟩
      · exact hmem
      · have hlong := (hrest.sound g hg).2.start_lt_stop
        have hfore := hbefore g.here.start (by omega) g rfl hg
        rcases pairwise_cases hchosen.apart hfore hf with heq | hlt | hlt
        · rw [heq] at hlong hshares
          omega
        · omega
        · have := htoken.start_lt_stop
          omega
    intro f hf
    exact ⟨hkeeps h hothers (fun m hm g hg => (ih m hm g hg).mpr) f hf,
      hkeeps hothers h (fun m hm g hg => (ih m hm g hg).mp) f hf⟩

/-- **There is one choice.** -/
lemma IsChoice.unique {t : Text} {found others : List Finding} (h : IsChoice t found)
    (hothers : IsChoice t others) : found = others := by
  have hstrict : ∀ {chosen : List Finding}, IsChoice t chosen →
      chosen.Pairwise fun a b => a.here.start < b.here.start := by
    intro chosen hchosen
    refine hchosen.apart.imp_of_mem fun ha _ hab => ?_
    have := (hchosen.sound _ ha).2.start_lt_stop
    omega
  have hirrefl : Std.Irrefl fun a b : Finding => a.here.start < b.here.start :=
    ⟨fun _ => Nat.lt_irrefl _⟩
  have hantisymm : Std.Antisymm fun a b : Finding => a.here.start < b.here.start :=
    ⟨fun _ _ hab hba => absurd hab (Nat.lt_asymm hba)⟩
  exact (hstrict h).eq_of_mem_iff (hstrict hothers) (h.subset hothers)

/-- **Which tokens are found.**  The placeholders and the conditional markers of a text, merged by
position, are the one choice among the tokens that stand in it: they are apart, and every other
token of the text begins with the last at-sign of one of them.  A token reaches up to the very next
at-sign behind the one with which it begins. -/
theorem isChoice_iff (t : Text) :
    (∀ found, IsChoice t found ↔ found = findings t)
      ∧ ∀ f : Finding, f.here.StandsIn t → f.IsToken →
        f.here.text = '@' :: (t.drop (f.here.start + 1)).takeWhile (· != '@') ++ ['@'] := by
  refine ⟨fun found => ⟨fun h => h.unique (isChoice_findings t), ?_⟩, ?_⟩
  · rintro rfl
    exact isChoice_findings t
  · rintro f ⟨before, after, rfl, hstart⟩ hf
    obtain ⟨start, token, hm, rfl⟩ := hf.ofBody?
    simp only [Finding.here_ofToken] at hstart ⊢
    subst hstart
    have hbody : ∀ c ∈ token.body, (c != '@') = true := fun c hc => by
      have hne : c ≠ '@' := fun heq => at_not_mem_body hm (heq ▸ hc)
      simpa using hne
    have hrest : (before ++ token.text ++ after).drop (before.length + 1)
        = token.body ++ '@' :: after := by
      rw [List.append_assoc, ← List.drop_drop, List.drop_left]
      simp [Token.text]
    rw [hrest, List.takeWhile_append_of_pos hbody]
    simp [Token.text]

/-- The second word between at-signs shares one with the first, which is found. -/
example : findings "x@a@b@@Else@".toList
    = [.placeholder ⟨⟨1, "@a@".toList⟩, ["a".toList]⟩,
      .marker (.alternative ⟨6, "@Else@".toList⟩)] := by
  rw [findings_eq]
  decide +kernel

end FormLetter
