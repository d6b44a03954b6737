import FormLetter.Proofs.Balance
import FormLetter.Proofs.Sifting

/-!
# Sections inside a text

A text whose markers pair reads as a sequence of phrases: pieces that are no conditional markers,
and sections whose branches are sequences of phrases again.

* `Phrases` — such a reading.  `exists_phrases` — the grammar of sections (`Nested`) provides it,
  and `ofPieces?` computes it (`ofPieces?_pieces`).
* `Phrases.eval` — the meaning: of each section the branch that its condition selects, to any
  depth.  `Phrases.marks` says which characters that leaves (`siftText_marks`).
* `Phrases.pass` — one pass: the outermost sections give way to the branches they select, and
  sections in these are left for the next pass.  `Phrases.rulings` are the rulings of the pass,
  `uncovered_rulings` the characters that they leave, and `thin_marks` says that the passes after
  it keep what the meaning keeps.
-/

namespace FormLetter

/-- The conditional markers among pieces, the first of which stands at `start`. -/
def markersAmong (start : Nat) (ps : List Piece) : List Marker :=
  (tokensFrom start ps).filterMap fun (position, token) => token.marker? position

lemma markersAmong_append (start : Nat) (ps qs : List Piece) :
    markersAmong start (ps ++ qs)
      = markersAmong start ps ++ markersAmong (start + spelledLength ps) qs := by
  rw [markersAmong, tokensFrom_append, List.filterMap_append]
  rfl

lemma markersAmong_bare {piece : Piece} (h : piece.sign? = none) (start : Nat)
    (ps : List Piece) :
    markersAmong start (piece :: ps) = markersAmong (start + piece.text.length) ps := by
  cases piece with
  | char c => rfl
  | token token =>
      have hnone : token.marker? start = none := by
        rw [← meaning_marker? token start, Option.map_eq_none_iff] at h
        exact h
      rw [markersAmong, tokensFrom, List.filterMap_cons_none (by exact hnone)]
      rfl

/-- An opening marker with this body. -/
def openingToken (body : Text) (path : Path) : Token := ⟨body, .opening path⟩

/-- An alternative marker with this body. -/
def alternativeToken (body : Text) : Token := ⟨body, .alternative⟩

/-- A closing marker with this body. -/
def closingToken (body : Text) : Token := ⟨body, .closing⟩

lemma markersAmong_opening (start : Nat) (body : Text) (path : Path) (ps : List Piece) :
    markersAmong start (.token (openingToken body path) :: ps)
      = .opening ⟨start, (openingToken body path).text⟩ (.ofPath path)
        :: markersAmong (start + (openingToken body path).text.length) ps := rfl

lemma markersAmong_alternative (start : Nat) (ps : List Piece) (body : Text) (qs : List Piece) :
    markersAmong start (ps ++ .token (alternativeToken body) :: qs)
      = markersAmong start ps
        ++ .alternative ⟨start + spelledLength ps, (alternativeToken body).text⟩
          :: markersAmong (start + spelledLength ps + (alternativeToken body).text.length) qs :=
  markersAmong_append _ _ _

lemma markersAmong_closing (start : Nat) (ps : List Piece) (body : Text) (qs : List Piece) :
    markersAmong start (ps ++ .token (closingToken body) :: qs)
      = markersAmong start ps
        ++ .closing ⟨start + spelledLength ps, (closingToken body).text⟩
          :: markersAmong (start + spelledLength ps + (closingToken body).text.length) qs :=
  markersAmong_append _ _ _

/-- A list splits where one of the values stands that a function finds in it. -/
lemma exists_split {α β : Type} {f : α → Option β} {l : List α} {before after : List β} {b : β}
    (h : l.filterMap f = before ++ b :: after) :
    ∃ front a back, l = front ++ a :: back ∧ f a = some b ∧ front.filterMap f = before
      ∧ back.filterMap f = after := by
  obtain ⟨front, back, rfl, hfront, hback⟩ := List.filterMap_eq_append_iff.mp h
  obtain ⟨bare, a, last, rfl, hbare, ha, hlast⟩ := List.filterMap_eq_cons_iff.mp hback
  refine ⟨front ++ bare, a, last, by rw [List.append_assoc], ha, ?_, hlast⟩
  rw [List.filterMap_append, hfront, List.filterMap_eq_nil_iff.mpr hbare, List.append_nil]

/-- A reading of a text as plain pieces and sections; the markers are given by their bodies. -/
inductive Phrases
  | nil
  /-- A piece that is no conditional marker. -/
  | other (piece : Piece) (bare : piece.sign? = none) (rest : Phrases)
  /-- A section of one branch. -/
  | plain (opening : Text) (path : Path) (inner : Phrases) (closing : Text) (rest : Phrases)
  /-- A section of two branches. -/
  | divided (opening : Text) (path : Path) (first : Phrases) (middle : Text) (second : Phrases)
      (closing : Text) (rest : Phrases)

namespace Phrases

/-- The pieces of the text that is read. -/
def pieces : Phrases → List Piece
  | nil => []
  | other piece _ rest => piece :: rest.pieces
  | plain opening path inner closing rest =>
    .token (openingToken opening path)
      :: (inner.pieces ++ .token (closingToken closing) :: rest.pieces)
  | divided opening path first middle second closing rest =>
    .token (openingToken opening path) :: (first.pieces ++ .token (alternativeToken middle)
      :: (second.pieces ++ .token (closingToken closing) :: rest.pieces))

/-- The text that is read. -/
def text (phrases : Phrases) : Text := phrases.pieces.flatMap Piece.text

/-- The number of characters that are read. -/
def length (phrases : Phrases) : Nat := spelledLength phrases.pieces

/-- Whether there are no sections. -/
def isPlain : Phrases → Bool
  | nil => true
  | other _ _ rest => rest.isPlain
  | plain .. => false
  | divided .. => false

/-- One reading followed by another. -/
def append : Phrases → Phrases → Phrases
  | nil, others => others
  | other piece bare rest, others => other piece bare (rest.append others)
  | plain opening path inner closing rest, others =>
    plain opening path inner closing (rest.append others)
  | divided opening path first middle second closing rest, others =>
    divided opening path first middle second closing (rest.append others)

/-! ## Meaning -/

section

variable (holds : Path → Bool)

/-- **What a text with sections means:** each section is the meaning of the branch that its
condition selects, and everything else stays. -/
def eval : Phrases → Text
  | nil => []
  | other piece _ rest => piece.text ++ rest.eval
  | plain _ path inner _ rest => (if holds path then inner.eval else []) ++ rest.eval
  | divided _ path first _ second _ rest =>
    (if holds path then first.eval else second.eval) ++ rest.eval

/-- For each character of the text, whether the meaning keeps it. -/
def marks : Phrases → List Bool
  | nil => []
  | other piece _ rest => List.replicate piece.text.length true ++ rest.marks
  | plain opening path inner closing rest =>
    List.replicate (openingToken opening path).text.length false
      ++ ((if holds path then inner.marks else List.replicate inner.length false)
      ++ (List.replicate (closingToken closing).text.length false ++ rest.marks))
  | divided opening path first middle second closing rest =>
    List.replicate (openingToken opening path).text.length false
      ++ ((if holds path then first.marks else List.replicate first.length false)
      ++ (List.replicate (alternativeToken middle).text.length false
      ++ ((if !holds path then second.marks else List.replicate second.length false)
      ++ (List.replicate (closingToken closing).text.length false ++ rest.marks))))

/-- The conditions that the meaning depends on: those of sections that no discarded branch
holds. -/
def reached : Phrases → List Path
  | nil => []
  | other _ _ rest => rest.reached
  | plain _ path inner _ rest =>
    path :: ((if holds path then inner.reached else []) ++ rest.reached)
  | divided _ path first _ second _ rest =>
    path :: ((if holds path then first.reached else second.reached) ++ rest.reached)

/-- The reading of what one pass leaves: of each outermost section the branch that its condition
selects. -/
def pass : Phrases → Phrases
  | nil => nil
  | other piece bare rest => other piece bare rest.pass
  | plain _ path inner _ rest => (if holds path then inner else nil).append rest.pass
  | divided _ path first _ second _ rest =>
    (if holds path then first else second).append rest.pass

/-- For each character of the text, whether one pass keeps it. -/
def passMarks : Phrases → List Bool
  | nil => []
  | other piece _ rest => List.replicate piece.text.length true ++ rest.passMarks
  | plain opening path inner closing rest =>
    List.replicate (openingToken opening path).text.length false
      ++ (List.replicate inner.length (holds path)
      ++ (List.replicate (closingToken closing).text.length false ++ rest.passMarks))
  | divided opening path first middle second closing rest =>
    List.replicate (openingToken opening path).text.length false
      ++ (List.replicate first.length (holds path)
      ++ (List.replicate (alternativeToken middle).text.length false
      ++ (List.replicate second.length (!holds path)
      ++ (List.replicate (closingToken closing).text.length false ++ rest.passMarks))))

end

/-- The conditions of the outermost sections. -/
def front : Phrases → List Path
  | nil => []
  | other _ _ rest => rest.front
  | plain _ path _ _ rest => path :: rest.front
  | divided _ path _ _ _ _ rest => path :: rest.front

/-! ## Lengths and texts -/

@[simp] lemma length_nil : nil.length = 0 := rfl

@[simp] lemma length_other (piece : Piece) (bare : piece.sign? = none) (rest : Phrases) :
    (other piece bare rest).length = piece.text.length + rest.length := by
  simp [length, pieces]

@[simp] lemma length_plain (opening : Text) (path : Path) (inner : Phrases) (closing : Text)
    (rest : Phrases) :
    (plain opening path inner closing rest).length
      = (openingToken opening path).text.length
        + (inner.length + ((closingToken closing).text.length + rest.length)) := by
  simp [length, pieces, Piece.text]

@[simp] lemma length_divided (opening : Text) (path : Path) (first : Phrases) (middle : Text)
    (second : Phrases) (closing : Text) (rest : Phrases) :
    (divided opening path first middle second closing rest).length
      = (openingToken opening path).text.length + (first.length
        + ((alternativeToken middle).text.length
        + (second.length + ((closingToken closing).text.length + rest.length)))) := by
  simp [length, pieces, Piece.text]

@[simp] lemma length_text (phrases : Phrases) : phrases.text.length = phrases.length := rfl

lemma text_eq {phrases : Phrases} {t : Text} (h : phrases.pieces = FormLetter.pieces t) :
    phrases.text = t := by
  rw [text, h, spelled_pieces]

lemma length_eq {phrases : Phrases} {t : Text} (h : phrases.pieces = FormLetter.pieces t) :
    phrases.length = t.length := by
  rw [← length_text, text_eq h]

lemma text_plain (opening : Text) (path : Path) (inner : Phrases) (closing : Text)
    (rest : Phrases) :
    (plain opening path inner closing rest).text
      = (openingToken opening path).text
        ++ (inner.text ++ ((closingToken closing).text ++ rest.text)) := by
  simp [text, pieces, Piece.text]

lemma text_divided (opening : Text) (path : Path) (first : Phrases) (middle : Text)
    (second : Phrases) (closing : Text) (rest : Phrases) :
    (divided opening path first middle second closing rest).text
      = (openingToken opening path).text ++ (first.text ++ ((alternativeToken middle).text
        ++ (second.text ++ ((closingToken closing).text ++ rest.text)))) := by
  simp [text, pieces, Piece.text]

/-! ## Readings one behind the other -/

lemma pieces_append (phrases others : Phrases) :
    (phrases.append others).pieces = phrases.pieces ++ others.pieces := by
  induction phrases with
  | nil => rfl
  | other piece bare rest ih => simp [append, pieces, ih]
  | plain opening path inner closing rest _ ih => simp [append, pieces, ih]
  | divided opening path first middle second closing rest _ _ ih => simp [append, pieces, ih]

section

variable (holds : Path → Bool)

lemma marks_append (phrases others : Phrases) :
    (phrases.append others).marks holds = phrases.marks holds ++ others.marks holds := by
  induction phrases with
  | nil => rfl
  | other piece bare rest ih => simp [append, marks, ih]
  | plain opening path inner closing rest _ ih => simp [append, marks, ih]
  | divided opening path first middle second closing rest _ _ ih => simp [append, marks, ih]

lemma reached_append (phrases others : Phrases) :
    (phrases.append others).reached holds = phrases.reached holds ++ others.reached holds := by
  induction phrases with
  | nil => rfl
  | other piece bare rest ih => simp [append, reached, ih]
  | plain opening path inner closing rest _ ih => simp [append, reached, ih]
  | divided opening path first middle second closing rest _ _ ih => simp [append, reached, ih]

/-! ## Marks -/

@[simp] lemma length_marks (phrases : Phrases) : (phrases.marks holds).length = phrases.length := by
  induction phrases with
  | nil => rfl
  | other piece bare rest ih => simp [marks, ih]
  | plain opening path inner closing rest ihinner ih =>
      cases h : holds path <;> simp [marks, h, ihinner, ih]
  | divided opening path first middle second closing rest ihfirst ihsecond ih =>
      cases h : holds path <;> simp [marks, h, ihfirst, ihsecond, ih]

lemma siftText_token (token : Token) (marks : List Bool) (t : Text) :
    siftText (List.replicate token.text.length false ++ marks) (token.text ++ t)
      = siftText marks t := by
  rw [siftText_append_append (by simp), siftText_replicate_false, List.nil_append]

/-- A branch leaves its meaning or nothing. -/
lemma siftText_branch {branch : Phrases} (b : Bool)
    (h : siftText (branch.marks holds) branch.text = branch.eval holds) (marks : List Bool)
    (t : Text) :
    siftText ((if b then branch.marks holds else List.replicate branch.length false) ++ marks)
        (branch.text ++ t)
      = (if b then branch.eval holds else []) ++ siftText marks t := by
  cases b with
  | true =>
      rw [if_pos rfl, if_pos rfl, siftText_append_append (by simp), h]
  | false =>
      rw [if_neg (by simp), if_neg (by simp), siftText_append_append (by simp),
        siftText_replicate_false]

/-- **The meaning of a text is made of the characters that it keeps.** -/
theorem siftText_marks (phrases : Phrases) :
    siftText (phrases.marks holds) phrases.text = phrases.eval holds := by
  induction phrases with
  | nil => rfl
  | other piece bare rest ih =>
      rw [marks, text, pieces, List.flatMap_cons, siftText_append_append (by simp),
        siftText_replicate_true, ← text, ih, eval]
  | plain opening path inner closing rest ihinner ih =>
      rw [marks, text_plain, siftText_token, siftText_branch holds _ ihinner, siftText_token, ih,
        eval]
  | divided opening path first middle second closing rest ihfirst ihsecond ih =>
      rw [marks, text_divided, siftText_token, siftText_branch holds _ ihfirst, siftText_token,
        siftText_branch holds _ ihsecond, siftText_token, ih, eval]
      cases holds path <;> simp

/-- A branch that one pass takes is marked by its own meaning afterwards. -/
lemma thin_branch (b : Bool) (branch : Phrases) (marks others : List Bool) :
    thin (List.replicate branch.length b ++ marks)
        ((if b then branch.marks holds else []) ++ others)
      = (if b then branch.marks holds else List.replicate branch.length false)
        ++ thin marks others := by
  cases b with
  | true => simpa using thin_replicate_true marks (branch.marks holds) others
  | false => exact thin_replicate_false _ _ _

/-- **What the passes after one pass keep of what it leaves is what the meaning keeps.** -/
theorem thin_marks (phrases : Phrases) :
    thin (phrases.passMarks holds) ((phrases.pass holds).marks holds) = phrases.marks holds := by
  induction phrases with
  | nil => rfl
  | other piece bare rest ih =>
      have h := thin_replicate_true (rest.passMarks holds)
        (List.replicate piece.text.length true) ((rest.pass holds).marks holds)
      rw [List.length_replicate, ih] at h
      rw [passMarks, pass, marks, h, marks]
  | plain opening path inner closing rest _ ih =>
      have hpass : ((if holds path then inner else nil).append (rest.pass holds)).marks holds
          = (if holds path then inner.marks holds else []) ++ (rest.pass holds).marks holds := by
        rw [marks_append]
        cases holds path <;> rfl
      rw [passMarks, pass, hpass, thin_replicate_false, thin_branch, thin_replicate_false, ih,
        marks]
  | divided opening path first middle second closing rest _ _ ih =>
      have hpass : ((if holds path then first else second).append (rest.pass holds)).marks holds
          = (if holds path then first.marks holds else [])
            ++ ((if !holds path then second.marks holds else [])
            ++ (rest.pass holds).marks holds) := by
        rw [marks_append]
        cases holds path <;> rfl
      rw [passMarks, pass, hpass, thin_replicate_false, thin_branch, thin_replicate_false,
        thin_branch, thin_replicate_false, ih, marks]

lemma siftText_taken (b : Bool) (branch : Phrases) (marks : List Bool) (t : Text) :
    siftText (List.replicate branch.length b ++ marks) (branch.text ++ t)
      = (if b then branch.text else []) ++ siftText marks t := by
  rw [siftText_append_append (by simp)]
  cases b with
  | true => rw [← length_text, siftText_replicate_true, if_pos rfl]
  | false => rw [siftText_replicate_false, if_neg (by simp)]

lemma text_append (phrases others : Phrases) :
    (phrases.append others).text = phrases.text ++ others.text := by
  rw [text, pieces_append, List.flatMap_append]
  rfl

/-- The text that one pass leaves. -/
theorem siftText_passMarks (phrases : Phrases) :
    siftText (phrases.passMarks holds) phrases.text = (phrases.pass holds).text := by
  induction phrases with
  | nil => rfl
  | other piece bare rest ih =>
      rw [passMarks, text, pieces, List.flatMap_cons, siftText_append_append (by simp),
        siftText_replicate_true, ← text, ih]
      rfl
  | plain opening path inner closing rest _ ih =>
      rw [passMarks, text_plain, siftText_token, siftText_taken, siftText_token, ih, pass,
        text_append]
      cases holds path <;> rfl
  | divided opening path first middle second closing rest _ _ ih =>
      rw [passMarks, text_divided, siftText_token, siftText_taken, siftText_token, siftText_taken,
        siftText_token, ih, pass, text_append]
      cases holds path <;> rfl

/-! ## One pass -/

/-- A pass keeps pieces in their order. -/
lemma pieces_pass_sublist (phrases : Phrases) :
    (phrases.pass holds).pieces.Sublist phrases.pieces := by
  induction phrases with
  | nil => exact List.Sublist.refl _
  | other piece bare rest ih => exact ih.cons_cons piece
  | plain opening path inner closing rest _ ih =>
      have hrest := ih.cons (.token (closingToken closing))
      rw [pass, pieces_append, pieces]
      cases holds path with
      | true => exact ((List.Sublist.refl inner.pieces).append hrest).cons _
      | false => exact (hrest.trans (List.sublist_append_right _ _)).cons _
  | divided opening path first middle second closing rest _ _ ih =>
      have hrest := ih.cons (.token (closingToken closing))
      rw [pass, pieces_append, pieces]
      cases holds path with
      | true =>
          have hsecond := (hrest.trans (List.sublist_append_right second.pieces _)).cons
            (.token (alternativeToken middle))
          exact ((List.Sublist.refl first.pieces).append hsecond).cons _
      | false =>
          have hsecond := ((List.Sublist.refl second.pieces).append hrest).cons
            (.token (alternativeToken middle))
          exact (hsecond.trans (List.sublist_append_right first.pieces _)).cons _

/-- What the meaning depends on are the outermost conditions, and what it depends on after a
pass. -/
lemma mem_reached {phrases : Phrases} {path : Path} :
    path ∈ phrases.reached holds ↔
      path ∈ phrases.front ∨ path ∈ (phrases.pass holds).reached holds := by
  induction phrases with
  | nil => simp [reached, front, pass]
  | other piece bare rest ih => exact ih
  | plain opening condition inner closing rest _ ih =>
      have hbranch : (if holds condition then inner else nil).reached holds
          = if holds condition then inner.reached holds else [] := by split <;> rfl
      rw [reached, front, pass, reached_append, hbranch, List.mem_cons, List.mem_append,
        List.mem_cons, List.mem_append, ih, ← or_assoc, or_or_or_comm]
  | divided opening condition first middle second closing rest _ _ ih =>
      have hbranch : (if holds condition then first else second).reached holds
          = if holds condition then first.reached holds else second.reached holds := by
        split <;> rfl
      rw [reached, front, pass, reached_append, hbranch, List.mem_cons, List.mem_append,
        List.mem_cons, List.mem_append, ih, ← or_assoc, or_or_or_comm]

end

/-! ## Texts without sections -/

lemma isPlain_iff_front {phrases : Phrases} : phrases.isPlain = true ↔ phrases.front = [] := by
  induction phrases with
  | nil => simp [isPlain, front]
  | other piece bare rest ih => simpa [isPlain, front] using ih
  | plain opening path inner closing rest => simp [isPlain, front]
  | divided opening path first middle second closing rest => simp [isPlain, front]

/-- Without sections there are no conditional markers, and with one there are. -/
lemma isPlain_iff_signs {phrases : Phrases} :
    phrases.isPlain = true ↔ phrases.pieces.filterMap Piece.sign? = [] := by
  induction phrases with
  | nil => simp [isPlain, pieces]
  | other piece bare rest ih => simpa [isPlain, pieces, bare] using ih
  | plain opening path inner closing rest =>
      simp [isPlain, pieces, openingToken, Piece.sign?, Token.marker?]
  | divided opening path first middle second closing rest =>
      simp [isPlain, pieces, openingToken, Piece.sign?, Token.marker?]

lemma pass_of_isPlain (holds : Path → Bool) {phrases : Phrases} (h : phrases.isPlain = true) :
    phrases.pass holds = phrases := by
  induction phrases with
  | nil => rfl
  | other piece bare rest ih => rw [pass, ih h]
  | plain opening path inner closing rest => simp [isPlain] at h
  | divided opening path first middle second closing rest => simp [isPlain] at h

lemma reached_of_isPlain (holds : Path → Bool) {phrases : Phrases} (h : phrases.isPlain = true) :
    phrases.reached holds = [] := by
  induction phrases with
  | nil => rfl
  | other piece bare rest ih => exact ih h
  | plain opening path inner closing rest => simp [isPlain] at h
  | divided opening path first middle second closing rest => simp [isPlain] at h

lemma passMarks_of_isPlain (holds : Path → Bool) {phrases : Phrases}
    (h : phrases.isPlain = true) :
    phrases.passMarks holds = List.replicate phrases.length true := by
  induction phrases with
  | nil => rfl
  | other piece bare rest ih =>
      rw [passMarks, ih h, ← List.replicate_add, length_other]
  | plain opening path inner closing rest => simp [isPlain] at h
  | divided opening path first middle second closing rest => simp [isPlain] at h

lemma marks_of_isPlain (holds : Path → Bool) {phrases : Phrases} (h : phrases.isPlain = true) :
    phrases.marks holds = List.replicate phrases.length true := by
  induction phrases with
  | nil => rfl
  | other piece bare rest ih =>
      rw [marks, ih h, ← List.replicate_add, length_other]
  | plain opening path inner closing rest => simp [isPlain] at h
  | divided opening path first middle second closing rest => simp [isPlain] at h

/-! ## The rulings of a pass -/

/-- The rulings of a pass over the text, when its first character stands at `start`. -/
def rulings (holds : Path → Bool) (start : Nat) : Phrases → List Ruling
  | nil => []
  | other piece _ rest => rest.rulings holds (start + piece.text.length)
  | plain opening path inner closing rest =>
    let opened : Occurrence := ⟨start, (openingToken opening path).text⟩
    let closed : Occurrence := ⟨opened.stop + inner.length, (closingToken closing).text⟩
    ⟨⟨opened, .ofPath path, none, closed⟩, holds path⟩ :: rest.rulings holds closed.stop
  | divided opening path first middle second closing rest =>
    let opened : Occurrence := ⟨start, (openingToken opening path).text⟩
    let between : Occurrence := ⟨opened.stop + first.length, (alternativeToken middle).text⟩
    let closed : Occurrence := ⟨between.stop + second.length, (closingToken closing).text⟩
    ⟨⟨opened, .ofPath path, some between, closed⟩, holds path⟩ :: rest.rulings holds closed.stop

lemma deletedBy_cons (r : Ruling) (rs : List Ruling) :
    deletedBy (r :: rs) = r.deleted ++ deletedBy rs := rfl

lemma covered_plain_iff {opened closed : Occurrence} {condition : Condition} {b : Bool} {i : Nat} :
    covered (Ruling.deleted ⟨⟨opened, condition, none, closed⟩, b⟩) i = true ↔
      if b then (opened.start ≤ i ∧ i < opened.stop) ∨ (closed.start ≤ i ∧ i < closed.stop)
      else opened.start ≤ i ∧ i < closed.stop := by
  rw [Ruling.covered_deleted]
  cases b <;> simp [Ruling.stripped, Ruling.lost?]

lemma covered_divided_iff {opened between closed : Occurrence} {condition : Condition} {b : Bool}
    {i : Nat} :
    covered (Ruling.deleted ⟨⟨opened, condition, some between, closed⟩, b⟩) i = true ↔
      if b then (opened.start ≤ i ∧ i < opened.stop) ∨ (between.start ≤ i ∧ i < closed.stop)
      else (opened.start ≤ i ∧ i < between.stop) ∨ (closed.start ≤ i ∧ i < closed.stop) := by
  rw [Ruling.covered_deleted]
  cases b <;> simp [Ruling.stripped, Ruling.lost?, or_comm]

/-- Nothing in front of the text is deleted. -/
lemma le_of_covered_rulings {holds : Path → Bool} {phrases : Phrases} {start i : Nat}
    (h : covered (deletedBy (phrases.rulings holds start)) i = true) : start ≤ i := by
  induction phrases generalizing start with
  | nil => simp [rulings, deletedBy, covered] at h
  | other piece bare rest ih => exact Nat.le_trans (Nat.le_add_right _ _) (ih h)
  | plain opening path inner closing rest _ ih =>
      rw [rulings, deletedBy_cons, covered_append, Bool.or_eq_true, covered_plain_iff] at h
      simp only [Occurrence.stop] at h
      rcases h with h | h
      · split at h <;> omega
      · have := ih h
        omega
  | divided opening path first middle second closing rest _ _ ih =>
      rw [rulings, deletedBy_cons, covered_append, Bool.or_eq_true, covered_divided_iff] at h
      simp only [Occurrence.stop] at h
      rcases h with h | h
      · split at h <;> omega
      · have := ih h
        omega

/-- The marks of a stretch that is covered throughout or not at all, behind other marks. -/
lemma uncovered_stretch {ranges : List Range} {start count more : Nat} {b : Bool}
    (h : ∀ i, start ≤ i → i < start + count → (covered ranges i = true ↔ b = false)) :
    uncovered ranges start (count + more)
      = List.replicate count b ++ uncovered ranges (start + count) more := by
  rw [uncovered_add, uncovered_eq_replicate (b := !b), Bool.not_not]
  intro i hlow hhigh
  have := h i hlow hhigh
  cases b <;> simp_all

/-- **What one pass keeps of a text:** the characters that its rulings do not delete. -/
theorem uncovered_rulings (holds : Path → Bool) (phrases : Phrases) (start : Nat) :
    uncovered (deletedBy (phrases.rulings holds start)) start phrases.length
      = phrases.passMarks holds := by
  induction phrases generalizing start with
  | nil => rfl
  | other piece bare rest ih =>
      rw [rulings, length_other, uncovered_stretch (b := true), ih, passMarks]
      intro i hlow hhigh
      have hnot : ¬ covered (deletedBy (rest.rulings holds (start + piece.text.length))) i = true :=
        fun h => absurd (le_of_covered_rulings h) (by omega)
      simp [hnot]
  | plain opening path inner closing rest _ ih =>
      have hcovered : ∀ i, covered (deletedBy
          ((plain opening path inner closing rest).rulings holds start)) i = true ↔ _ := fun i => by
        rw [rulings, deletedBy_cons, covered_append, Bool.or_eq_true, covered_plain_iff]
      simp only [Occurrence.stop] at hcovered
      have hrest : ∀ i, covered (deletedBy (rest.rulings holds
            (start + (openingToken opening path).text.length + inner.length
              + (closingToken closing).text.length))) i = true → _ :=
        fun _ => le_of_covered_rulings
      rw [length_plain, passMarks, uncovered_stretch (b := false),
        uncovered_stretch (b := holds path), uncovered_stretch (b := false),
        ← ih (start + (openingToken opening path).text.length
          + inner.length + (closingToken closing).text.length)]
      · refine congrArg _ (congrArg _ (congrArg _ (uncovered_congr fun i hlow hhigh => ?_)))
        rw [Bool.eq_iff_iff, hcovered]
        split <;> simp only [or_iff_right_iff_imp] <;> omega
      all_goals
        intro i hlow hhigh
        have hnot := fun h => Nat.not_lt.mpr (hrest i h) (by omega)
        rw [hcovered, or_iff_left hnot]
        cases holds path <;> simp <;> omega
  | divided opening path first middle second closing rest _ _ ih =>
      have hcovered : ∀ i, covered (deletedBy
          ((divided opening path first middle second closing rest).rulings holds start)) i = true
            ↔ _ := fun i => by
        rw [rulings, deletedBy_cons, covered_append, Bool.or_eq_true, covered_divided_iff]
      have hrest : ∀ i, covered (deletedBy (rest.rulings holds
            (start + (openingToken opening path).text.length + first.length
              + (alternativeToken middle).text.length + second.length
              + (closingToken closing).text.length))) i = true → _ :=
        fun _ => le_of_covered_rulings
      simp only [Occurrence.stop] at hcovered
      rw [length_divided, passMarks, uncovered_stretch (b := false),
        uncovered_stretch (b := holds path), uncovered_stretch (b := false),
        uncovered_stretch (b := !holds path), uncovered_stretch (b := false),
        ← ih (start + (openingToken opening path).text.length + first.length
          + (alternativeToken middle).text.length + second.length
          + (closingToken closing).text.length)]
      · refine congrArg _ (congrArg _ (congrArg _ (congrArg _ (congrArg _
          (uncovered_congr fun i hlow hhigh => ?_)))))
        rw [Bool.eq_iff_iff, hcovered]
        split <;> simp only [or_iff_right_iff_imp] <;> omega
      all_goals
        intro i hlow hhigh
        have hnot := fun h => Nat.not_lt.mpr (hrest i h) (by omega)
        rw [hcovered, or_iff_left hnot]
        cases holds path <;> simp <;> omega

/-- **The rulings are on the outermost sections.** -/
theorem nested_rulings (holds : Path → Bool) (phrases : Phrases) (start : Nat) :
    Nested (markersAmong start phrases.pieces)
      ((phrases.rulings holds start).map Ruling.block) := by
  induction phrases generalizing start with
  | nil => exact .nil
  | other piece bare rest ih =>
      rw [pieces, markersAmong_bare bare]
      exact ih _
  | plain opening path inner closing rest ihinner ih =>
      rw [pieces, markersAmong_opening, markersAmong_closing]
      exact .plain (ihinner _) (ih _)
  | divided opening path first middle second closing rest ihfirst ihsecond ih =>
      rw [pieces, markersAmong_opening, markersAmong_alternative, markersAmong_closing]
      exact .divided (ihfirst _) (ihsecond _) (ih _)

lemma map_condition_rulings (holds : Path → Bool) (phrases : Phrases) (start : Nat) :
    (phrases.rulings holds start).map (·.block.condition) = phrases.front.map .ofPath := by
  induction phrases generalizing start with
  | nil => rfl
  | other piece bare rest ih => exact ih _
  | plain opening path inner closing rest _ ih => exact congrArg _ (ih _)
  | divided opening path first middle second closing rest _ _ ih => exact congrArg _ (ih _)

lemma holds_of_mem_rulings {holds : Path → Bool} {phrases : Phrases} {start : Nat} {r : Ruling}
    (h : r ∈ phrases.rulings holds start) : r.holds = holds r.block.condition.path := by
  induction phrases generalizing start with
  | nil => simp [rulings] at h
  | other piece bare rest ih => exact ih h
  | plain opening path inner closing rest _ ih =>
      rcases List.mem_cons.mp h with rfl | h
      · rfl
      · exact ih h
  | divided opening path first middle second closing rest _ _ ih =>
      rcases List.mem_cons.mp h with rfl | h
      · rfl
      · exact ih h

/-! ## Readings of texts -/

/-- Pieces that are no conditional markers, in front of a reading. -/
def prepend : (ps : List Piece) → (∀ p ∈ ps, p.sign? = none) → Phrases → Phrases
  | [], _, rest => rest
  | p :: ps, h, rest =>
    other p (h p List.mem_cons_self) (prepend ps (fun q hq => h q (List.mem_cons_of_mem p hq)) rest)

lemma pieces_prepend : ∀ (ps : List Piece) (h : ∀ p ∈ ps, p.sign? = none) (rest : Phrases),
    (prepend ps h rest).pieces = ps ++ rest.pieces
  | [], _, _ => rfl
  | p :: ps, h, rest => by
      rw [prepend, pieces, pieces_prepend ps _ rest, List.cons_append]

lemma isPlain_prepend : ∀ (ps : List Piece) (h : ∀ p ∈ ps, p.sign? = none) (rest : Phrases),
    (prepend ps h rest).isPlain = rest.isPlain
  | [], _, _ => rfl
  | p :: ps, h, rest => by rw [prepend, isPlain, isPlain_prepend ps _ rest]

lemma eq_token_of_sign? {piece : Piece} {meaning : Meaning} (h : piece.sign? = some meaning) :
    ∃ body, piece = .token ⟨body, meaning⟩ := by
  cases piece with
  | char c => simp [Piece.sign?] at h
  | token token =>
      obtain ⟨body, meant⟩ := token
      cases meant <;> simp_all [Piece.sign?, Token.marker?, Marker.meaning, Condition.ofPath]

/-- **Pieces whose markers nest have a reading.** -/
theorem exists_phrases {ms : List Marker} {blocks : List Block} (h : Nested ms blocks)
    {ps : List Piece} (hsigns : ps.filterMap Piece.sign? = ms.map Marker.meaning) :
    ∃ phrases : Phrases, phrases.pieces = ps := by
  induction h generalizing ps with
  | nil =>
      have hbare : ∀ p ∈ ps, p.sign? = none := List.filterMap_eq_nil_iff.mp hsigns
      exact ⟨prepend ps hbare nil, by rw [pieces_prepend, pieces, List.append_nil]⟩
  | @plain _ _ condition _ _ _ _ _ _ ihinner ihrest =>
      rw [List.map_cons, List.filterMap_eq_cons_iff] at hsigns
      obtain ⟨bare, p, tail, rfl, hbare, hp, htail⟩ := hsigns
      obtain ⟨opening, rfl⟩ := eq_token_of_sign? hp
      rw [List.map_append, List.map_cons] at htail
      obtain ⟨front, q, back, rfl, hq, hfront, hback⟩ := exists_split htail
      obtain ⟨closing, rfl⟩ := eq_token_of_sign? hq
      obtain ⟨inner, rfl⟩ := ihinner hfront
      obtain ⟨rest, rfl⟩ := ihrest hback
      exact ⟨prepend bare hbare (.plain opening condition.path inner closing rest),
        pieces_prepend _ _ _⟩
  | @divided _ _ _ condition _ _ _ _ _ _ _ _ _ ihfirst ihsecond ihrest =>
      rw [List.map_cons, List.filterMap_eq_cons_iff] at hsigns
      obtain ⟨bare, p, tail, rfl, hbare, hp, htail⟩ := hsigns
      obtain ⟨opening, rfl⟩ := eq_token_of_sign? hp
      rw [List.map_append, List.map_cons] at htail
      obtain ⟨front, q, behind, rfl, hq, hfront, hbehind⟩ := exists_split htail
      obtain ⟨middle, rfl⟩ := eq_token_of_sign? hq
      rw [List.map_append, List.map_cons] at hbehind
      obtain ⟨between, q, back, rfl, hq, hbetween, hback⟩ := exists_split hbehind
      obtain ⟨closing, rfl⟩ := eq_token_of_sign? hq
      obtain ⟨first, rfl⟩ := ihfirst hfront
      obtain ⟨second, rfl⟩ := ihsecond hbetween
      obtain ⟨rest, rfl⟩ := ihrest hback
      exact ⟨prepend bare hbare (.divided opening condition.path first middle second closing rest),
        pieces_prepend _ _ _⟩

/-! ## Reading a text -/

lemma append_nil (phrases : Phrases) : phrases.append nil = phrases := by
  induction phrases with
  | nil => rfl
  | other piece bare rest ih => rw [append, ih]
  | plain opening path inner closing rest _ ih => rw [append, ih]
  | divided opening path first middle second closing rest _ _ ih => rw [append, ih]

/-- A section of which the end has been read: its closing marker, its alternative marker with the
second branch if it has been met, and what follows the section. -/
structure Tail where
  closing : Text
  second : Option (Text × Phrases)
  rest : Phrases

/-- The section with its remaining branch and its opening marker, followed by what follows it. -/
def Tail.complete (tail : Tail) (opening : Text) (path : Path) (branch : Phrases) : Phrases :=
  match tail.second with
  | none => plain opening path branch tail.closing tail.rest
  | some (middle, second) => divided opening path branch middle second tail.closing tail.rest

/-- Reads pieces from the last one on: the phrases at the front, and the sections around these,
innermost first. -/
def readBack : List Piece → Option (Phrases × List Tail)
  | [] => some (nil, [])
  | piece :: rest =>
    match readBack rest with
    | none => none
    | some (phrases, tails) =>
      match piece, tails with
      | .char c, tails => some (other (.char c) rfl phrases, tails)
      | .token ⟨body, .placeholder path⟩, tails =>
        some (other (.token ⟨body, .placeholder path⟩) rfl phrases, tails)
      | .token ⟨body, .closing⟩, tails => some (nil, ⟨body, none, phrases⟩ :: tails)
      | .token ⟨body, .alternative⟩, ⟨closing, none, behind⟩ :: outer =>
        some (nil, ⟨closing, some (body, phrases), behind⟩ :: outer)
      | .token ⟨body, .opening path⟩, tail :: outer =>
        some (tail.complete body path phrases, outer)
      | _, _ => none

/-- The reading of pieces, if their markers pair. -/
def ofPieces? (ps : List Piece) : Option Phrases :=
  match readBack ps with
  | some (phrases, []) => some phrases
  | _ => none

lemma readBack_bare {piece : Piece} (bare : piece.sign? = none) {ps : List Piece}
    {phrases : Phrases} {tails : List Tail} (h : readBack ps = some (phrases, tails)) :
    readBack (piece :: ps) = some (other piece bare phrases, tails) := by
  cases piece with
  | char c => simp [readBack, h]
  | token token =>
      obtain ⟨body, meaning⟩ := token
      cases meaning with
      | placeholder path => simp [readBack, h]
      | opening path => simp [Piece.sign?, Token.marker?] at bare
      | alternative => simp [Piece.sign?, Token.marker?] at bare
      | closing => simp [Piece.sign?, Token.marker?] at bare

lemma readBack_pieces (phrases : Phrases) {ps : List Piece} {others : Phrases}
    {tails : List Tail} (h : readBack ps = some (others, tails)) :
    readBack (phrases.pieces ++ ps) = some (phrases.append others, tails) := by
  induction phrases generalizing ps others tails with
  | nil => exact h
  | other piece bare rest ih => exact readBack_bare bare (ih h)
  | plain opening path inner closing rest ihinner ih =>
      have hclosing : readBack (.token (closingToken closing) :: (rest.pieces ++ ps))
          = some (nil, ⟨closing, none, rest.append others⟩ :: tails) := by
        simp [readBack, ih h, closingToken]
      rw [pieces, List.cons_append, List.append_assoc, List.cons_append]
      simp [readBack, ihinner hclosing, openingToken, Tail.complete, append, append_nil]
  | divided opening path first middle second closing rest ihfirst ihsecond ih =>
      have hclosing : readBack (.token (closingToken closing) :: (rest.pieces ++ ps))
          = some (nil, ⟨closing, none, rest.append others⟩ :: tails) := by
        simp [readBack, ih h, closingToken]
      have hmiddle : readBack (.token (alternativeToken middle)
            :: (second.pieces ++ .token (closingToken closing) :: (rest.pieces ++ ps)))
          = some (nil, ⟨closing, some (middle, second), rest.append others⟩ :: tails) := by
        simp [readBack, ihsecond hclosing, alternativeToken, append_nil]
      rw [pieces, List.cons_append, List.append_assoc, List.cons_append, List.append_assoc,
        List.cons_append]
      simp [readBack, ihfirst hmiddle, openingToken, Tail.complete, append, append_nil]

/-- **Reading finds the phrases** that pieces consist of, and so there is one reading at most. -/
theorem ofPieces?_pieces (phrases : Phrases) : ofPieces? phrases.pieces = some phrases := by
  have h : readBack (phrases.pieces ++ []) = some (phrases.append nil, []) :=
    readBack_pieces phrases rfl
  rw [List.append_nil, append_nil] at h
  rw [ofPieces?, h]

end Phrases

end FormLetter
