import FormLetter.Proofs.Origins
import FormLetter.Proofs.Rewording

/-!
# Filling in, place by place

Placeholders are filled in piece by piece.  Seen from outside this is splicing: between two
placeholders the text is copied, and in the place of each stands new text.

* `splice` — the text with other text in the place of given stretches.
* `splice_replacements` — a text in which placeholders are replaced is the text spliced where its
  placeholders stand; `splice_placeholders` — the same, piece by piece, if new texts depend on paths
  only.
* `fillTree_complete` — filling in a tree fails exactly if some placeholder has no value, and then it
  reports all that have none; otherwise it splices each text and leaves everything else alone.
-/

namespace FormLetter

/-- The text from a position on, with new text in the place of each of the given stretches, which
stand behind the position in order. -/
def splice (t : Text) (cursor : Nat) : List (Occurrence × Text) → Text
  | [] => t.drop cursor
  | (here, new) :: rest => (t.take here.start).drop cursor ++ (new ++ splice t here.stop rest)

/-- What a piece becomes when placeholders give way to the texts of their paths. -/
def Piece.becomes (shown : Path → Text) : Piece → Text
  | .char c => [c]
  | .token t =>
    match t.meaning with
    | .placeholder path => shown path
    | _ => t.text

lemma becomes_escapeValue (shown : Path → Text) (p : Piece) :
    p.becomes (fun path => escapeValue (shown path)) = p.spliced shown := by
  rcases p with c | ⟨body, meaning⟩
  · rfl
  · cases meaning <;> rfl

/-- The stretches of placeholders with the texts that take their places. -/
def newTexts (shown : Path → Text) (ps : List Placeholder) : List (Occurrence × Text) :=
  ps.map fun p => (p.toOccurrence, shown p.path)

/-- Where placeholders stand, with what a function puts in their places. -/
def replacements (f : Placeholder → Text) (ps : List Placeholder) : List (Occurrence × Text) :=
  ps.map fun p => (p.toOccurrence, f p)

/-- The placeholders among consecutive pieces. -/
def placeholdersFrom (start : Nat) (ps : List Piece) : List Placeholder :=
  (tokensFrom start ps).filterMap fun (position, token) => token.placeholder? position

/-- What is spliced behind a text that has been read up to some position. -/
lemma splice_piecesFrom (f : Placeholder → Text) : ∀ (ps : List Piece) (front : Text)
    (cursor : Nat), cursor ≤ front.length →
      splice (front ++ ps.flatMap Piece.text) cursor
          (replacements f (placeholdersFrom front.length ps))
        = front.drop cursor ++ mapPiecesFrom f front.length ps
  | [], front, cursor, _ => by
      simp [placeholdersFrom, tokensFrom, replacements, splice, mapPiecesFrom]
  | .char c :: rest, front, cursor, hcursor => by
      have ih := splice_piecesFrom f rest (front ++ [c]) cursor
        (by rw [List.length_append]; omega)
      rw [List.length_append, List.drop_append_of_le_length hcursor] at ih
      simpa [placeholdersFrom, tokensFrom, Piece.text, mapPiecesFrom] using ih
  | .token ⟨body, meaning⟩ :: rest, front, cursor, hcursor => by
      let token : Token := ⟨body, meaning⟩
      have ih := splice_piecesFrom f rest (front ++ token.text)
      rw [List.length_append] at ih
      have hskipped : splice (front ++ (token.text ++ rest.flatMap Piece.text)) cursor
            (replacements f (placeholdersFrom (front.length + token.text.length) rest))
          = front.drop cursor
            ++ (token.text ++ mapPiecesFrom f (front.length + token.text.length) rest) := by
        have := ih cursor (by omega)
        rwa [List.drop_append_of_le_length hcursor, List.append_assoc, List.append_assoc] at this
      cases meaning with
      | placeholder path =>
          -- the text up to the placeholder is copied, and splicing goes on behind it
          have hrest := ih (front.length + token.text.length) (by omega)
          rw [List.drop_eq_nil_of_le (by simp), List.nil_append, List.append_assoc] at hrest
          have htake : (front ++ (token.text ++ rest.flatMap Piece.text)).take front.length = front :=
            List.take_left' rfl
          rw [placeholdersFrom, tokensFrom, List.filterMap_cons_some (by rfl), replacements,
            List.map_cons, splice, List.flatMap_cons, mapPiecesFrom]
          exact congrArg₂ (· ++ ·) (congrArg (List.drop cursor) htake) (congrArg (f _ ++ ·) hrest)
      | opening path => exact hskipped
      | alternative => exact hskipped
      | closing => exact hskipped

/-- **Replacing placeholders is splicing where they stand.** -/
theorem splice_replacements (f : Placeholder → Text) (t : Text) :
    splice t 0 (replacements f (placeholders t)) = mapPlaceholders f t := by
  have h := splice_piecesFrom f (pieces t) [] 0 (Nat.zero_le 0)
  rwa [List.nil_append, spelled_pieces] at h

lemma mapPiecesFrom_shown (shown : Path → Text) : ∀ (start : Nat) (ps : List Piece),
    mapPiecesFrom (fun p => shown p.path) start ps = ps.flatMap (Piece.becomes shown)
  | _, [] => rfl
  | start, .char c :: rest => by
      rw [mapPiecesFrom, mapPiecesFrom_shown shown (start + 1) rest]
      rfl
  | start, .token ⟨body, meaning⟩ :: rest => by
      rw [mapPiecesFrom, mapPiecesFrom_shown shown _ rest, List.flatMap_cons]
      cases meaning <;> rfl

/-- **Replacing the pieces that are placeholders is splicing where placeholders stand.** -/
theorem splice_placeholders (shown : Path → Text) (t : Text) :
    splice t 0 (newTexts shown (placeholders t)) = (pieces t).flatMap (Piece.becomes shown) :=
  (splice_replacements (fun p => shown p.path) t).trans (mapPiecesFrom_shown shown 0 (pieces t))

lemma spliced_eq_splice (shown : Path → Text) (t : Text) :
    spliced shown t
      = splice t 0 (newTexts (fun path => escapeValue (shown path)) (placeholders t)) := by
  rw [splice_placeholders, spliced]
  exact List.flatMap_congr fun p _ => (becomes_escapeValue shown p).symm

/-! ## Whole trees -/

/-- The failure of a placeholder, if it has no value that can be shown. -/
def Placeholder.failure? (data : Value) (p : Placeholder) : Option Failure :=
  match valueText data p.path with
  | .ok _ => none
  | .error reason => some ⟨p.text, p.path, reason, p.text⟩

/-- The failures of all placeholders of a tree, in order. -/
def valueFailures (tree : Node) (data : Value) : List Failure :=
  tree.texts.flatMap fun t => (placeholders t).filterMap (Placeholder.failure? data)

lemma valueFailures_eq_nil (tree : Node) (data : Value) :
    valueFailures tree data = [] ↔
      ∀ t ∈ tree.texts, ∀ p ∈ placeholders t, ∃ value, valueText data p.path = .ok value := by
  simp only [valueFailures, List.flatMap_eq_nil_iff, List.filterMap_eq_nil_iff]
  refine forall₂_congr fun t _ => forall₂_congr fun p _ => ?_
  rw [Placeholder.failure?]
  cases valueText data p.path <;> simp

lemma fillTree_eq_valueFailures (tree : Node) (data : Value) :
    fillTree tree data
      = if (valueFailures tree data).isEmpty then .ok (tree.mapText (fillText data))
        else .error (.placeholders (valueFailures tree data)) := by
  have h : tree.texts.flatMap (failuresIn data) = valueFailures tree data :=
    List.flatMap_congr fun t _ => failuresIn_eq_filterMap t
  rw [fillTree, h]

/-- **Filling in is all or nothing.**  It fails exactly if some placeholder of some text has no value
that can be shown.  Then it reports the placeholders that have none, each one where it occurs and all
of them in order, with their own tokens, paths and reasons.  Otherwise the result has the elements
and the text nodes of the tree, and each text is spliced: where a placeholder stood, the escaped text
of its value stands, and everything between placeholders is as before. -/
theorem fillTree_complete (tree : Node) (data : Value) :
    ((∃ cause, fillTree tree data = .error cause) ↔
        ∃ t ∈ tree.texts, ∃ p ∈ placeholders t, ∃ reason, valueText data p.path = .error reason)
      ∧ (∀ cause, fillTree tree data = .error cause →
          cause = .placeholders (valueFailures tree data))
      ∧ ∀ result, fillTree tree data = .ok result →
          result.skeleton = tree.skeleton
            ∧ ∃ shown : Path → Text,
                (∀ t ∈ tree.texts, ∀ p ∈ placeholders t,
                  valueText data p.path = .ok (shown p.path))
                ∧ result.texts = tree.texts.map fun t =>
                    splice t 0 (newTexts (fun path => escapeValue (shown path)) (placeholders t)) := by
  refine ⟨?_, fun cause h => ?_, fun result h => ?_⟩
  · have hnil := valueFailures_eq_nil tree data
    rw [fillTree_eq_valueFailures]
    constructor
    · rintro ⟨cause, h⟩
      by_contra hall
      rw [if_pos (List.isEmpty_iff.mpr (hnil.mpr fun t ht p hp => ?_))] at h
      · cases h
      · cases hvalue : valueText data p.path with
        | ok value => exact ⟨value, rfl⟩
        | error reason => exact absurd ⟨t, ht, p, hp, reason, hvalue⟩ hall
    · rintro ⟨t, ht, p, hp, reason, hreason⟩
      rw [if_neg fun hempty => ?_]
      · exact ⟨_, rfl⟩
      · obtain ⟨value, hvalue⟩ := hnil.mp (List.isEmpty_iff.mp hempty) t ht p hp
        rw [hvalue] at hreason
        cases hreason
  · rw [fillTree_eq_valueFailures] at h
    split at h
    · cases h
    · exact (Except.error.inj h).symm
  · obtain ⟨shown, hshown, rfl⟩ := fills_of_fillTree h
    refine ⟨skeleton_mapText _ _, shown, hshown, ?_⟩
    rw [texts_mapText]
    exact List.map_congr_left fun t _ => spliced_eq_splice shown t

end FormLetter
