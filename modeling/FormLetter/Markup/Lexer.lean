import FormLetter.Markup.Token

/-!
# Reading tokens out of text

One left-to-right pass cuts a text into pieces: tokens, and the characters outside them.

* **A body ends at the very next at-sign.** The reader is either outside (`none`) or inside a body
  that it has begun (`some`, the characters so far in reverse). At the closing at-sign the body
  either has a meaning, and the reader is outside again, or it has none; then the opening at-sign
  and the body are ordinary text, and the closing at-sign opens the next candidate.
* **Nothing is lost.** The pieces spell the text (`spelled_pieces`).
* **Unfinished tokens.** `isUnfinished` asks whether more text could still complete the candidate
  that is open at the end. The state of the reader says it all: no finished token takes part.
-/

namespace FormLetter

/-- A token, or one character outside all tokens. -/
inductive Piece
  | char (c : Char)
  | token (t : Token)
deriving DecidableEq, Repr

/-- The text that a piece stands for. -/
def Piece.text : Piece → Text
  | .char c => [c]
  | .token t => t.text

/-- Where a reader is: outside all candidates, or inside one whose body so far is given in
reverse. -/
abbrev ReaderState := Option Text

namespace ReaderState

/-- The text of a candidate that has not been closed. -/
def text : ReaderState → Text
  | none => []
  | some body => '@' :: body.reverse

end ReaderState

/-- Reads a text from a given state; the result is the pieces that were settled and the state at
the end. -/
def readPieces : ReaderState → Text → List Piece × ReaderState
  | state, [] => ([], state)
  | none, c :: rest =>
    if c = '@' then readPieces (some []) rest
    else
      let (pieces, last) := readPieces none rest
      (.char c :: pieces, last)
  | some body, c :: rest =>
    if c = '@' then
      match Meaning.ofBody? body.reverse with
      | some meaning =>
        let (pieces, last) := readPieces none rest
        (.token ⟨body.reverse, meaning⟩ :: pieces, last)
      | none =>
        let (pieces, last) := readPieces (some []) rest
        (.char '@' :: body.reverse.map .char ++ pieces, last)
    else readPieces (some (c :: body)) rest

/-- The pieces of a text. A candidate that is still open at the end is ordinary text. -/
def pieces (t : Text) : List Piece :=
  let (settled, last) := readPieces none t
  settled ++ last.text.map .char

theorem flatMap_text_map_char (t : Text) : (t.map Piece.char).flatMap Piece.text = t := by
  induction t with
  | nil => rfl
  | cons c rest ih => simpa [Piece.text] using ih

/-- What was open, followed by what is read, is what was settled, followed by what is open. -/
theorem spelled_readPieces (state : ReaderState) (t : Text) :
    (readPieces state t).1.flatMap Piece.text ++ (readPieces state t).2.text = state.text ++ t := by
  fun_induction readPieces state t with
  | case1 state => simp
  | case2 rest ih => simp_all [ReaderState.text]
  | case3 c rest h pieces last e ih => simp_all [ReaderState.text, Piece.text]
  | case4 body rest meaning hm pieces last e ih =>
    simp_all [ReaderState.text, Piece.text, Token.text]
  | case5 body rest hm pieces last e ih =>
    rw [e] at ih
    simp only [ReaderState.text, List.flatMap_append, List.cons_append, List.flatMap_cons,
      flatMap_text_map_char, Piece.text, List.append_assoc] at ih ⊢
    rw [ih]
    simp
  | case6 body c rest h ih => simp_all [ReaderState.text]

/-- The pieces of a text spell it. -/
theorem spelled_pieces (t : Text) : (pieces t).flatMap Piece.text = t := by
  have h := spelled_readPieces none t
  simp only [ReaderState.text, List.nil_append] at h
  simp only [pieces, List.flatMap_append, flatMap_text_map_char]
  exact h

/-! ## Tokens where they stand -/

/-- A stretch of text and the position of its first character. -/
structure Occurrence where
  start : Nat
  text : Text
deriving DecidableEq, Repr

/-- The position just after the stretch. -/
def Occurrence.stop (occurrence : Occurrence) : Nat := occurrence.start + occurrence.text.length

/-- A placeholder of a text. -/
structure Placeholder extends Occurrence where
  path : Path
deriving DecidableEq, Repr

/-- What a section depends on: the value at a path, and how reports spell the path. -/
structure Condition where
  spelling : Text
  path : Path
deriving DecidableEq, Repr

namespace Condition

/-- The condition on the value at a path, in the spelling of the path itself. -/
def ofPath (path : Path) : Condition := ⟨path.dotted, path⟩

/-- The opening marker with this condition as reports spell it, whatever the letter case in the
template. -/
def openingMarker (condition : Condition) : String :=
  "@if:" ++ String.ofList condition.spelling ++ "@"

end Condition

/-- A conditional marker of a text. -/
inductive Marker
  | opening (here : Occurrence) (condition : Condition)
  | alternative (here : Occurrence)
  | closing (here : Occurrence)
deriving DecidableEq, Repr

/-- Where a marker stands. -/
def Marker.here : Marker → Occurrence
  | .opening here _ => here
  | .alternative here => here
  | .closing here => here

/-- Each token among consecutive pieces, with its position when the first piece stands at
`start`. -/
def tokensFrom (start : Nat) : List Piece → List (Nat × Token)
  | [] => []
  | .char _ :: rest => tokensFrom (start + 1) rest
  | .token token :: rest => (start, token) :: tokensFrom (start + token.text.length) rest

/-- The tokens of a text with their positions, in order. -/
def tokens (t : Text) : List (Nat × Token) := tokensFrom 0 (pieces t)

/-- The token as a placeholder, if it is one. -/
def Token.placeholder? (start : Nat) (token : Token) : Option Placeholder :=
  match token.meaning with
  | .placeholder path => some ⟨⟨start, token.text⟩, path⟩
  | _ => none

/-- The token as a conditional marker, if it is one. -/
def Token.marker? (start : Nat) (token : Token) : Option Marker :=
  match token.meaning with
  | .placeholder _ => none
  | .opening path => some (.opening ⟨start, token.text⟩ (.ofPath path))
  | .alternative => some (.alternative ⟨start, token.text⟩)
  | .closing => some (.closing ⟨start, token.text⟩)

/-- The placeholders of a text, in order. -/
def placeholders (t : Text) : List Placeholder :=
  (tokens t).filterMap fun (start, token) => token.placeholder? start

/-- The conditional markers of a text, in order. -/
def markers (t : Text) : List Marker :=
  (tokens t).filterMap fun (start, token) => token.marker? start

/-- Consecutive pieces with each placeholder replaced by what `f` gives for it. -/
def mapPiecesFrom (f : Placeholder → Text) (start : Nat) : List Piece → Text
  | [] => []
  | .char c :: rest => c :: mapPiecesFrom f (start + 1) rest
  | .token token :: rest =>
    ((token.placeholder? start).map f).getD token.text
      ++ mapPiecesFrom f (start + token.text.length) rest

/-- The text with each placeholder replaced; conditional markers and all other text stay. -/
def mapPlaceholders (f : Placeholder → Text) (t : Text) : Text :=
  mapPiecesFrom f 0 (pieces t)

/-! ## Unfinished tokens -/

/-- A character that a path may hold. -/
def isPathChar (c : Char) : Bool := isNameChar c || c == '.'

/-- Whether more characters could turn this body into one that has a meaning. -/
def isBodyStart (body : Text) : Bool :=
  match afterIf? body with
  | some rest => rest.all isPathChar
  | none => body.all isPathChar

/-- Whether the text ends inside a token that following text could complete. -/
def isUnfinished (t : Text) : Bool :=
  match (readPieces none t).2 with
  | none => false
  | some body => isBodyStart body.reverse

end FormLetter
