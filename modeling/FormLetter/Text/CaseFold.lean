import FormLetter.Text.Basic
import FormLetter.Text.CaseFold.Table

/-!
# Comparing text without regard to letter case

Two texts that differ only in letter case have the same folding, under the full case folding of the
Unicode standard: a sharp s matches a double s, a ligature matches its letters. Folding works
character by character, whatever stands around it.
-/

namespace FormLetter

namespace CaseFold

/-- Whether a run covers this code. -/
def Run.covers (run : Run) (code : Nat) : Bool :=
  run.first ≤ code && code ≤ run.last && (code - run.first) % run.step == 0

/-- The folding of one character. -/
def char (c : Char) : Text :=
  match expansions.lookup c.toNat with
  | some codes => codes.map Char.ofNat
  | none =>
    match runs.find? (·.covers c.toNat) with
    | some run => [Char.ofNat (c.toNat + run.shift).toNat]
    | none => [c]

end CaseFold

namespace Text

/-- The text with every character folded. -/
def foldCase (t : Text) : Text := t.flatMap CaseFold.char

/-- Whether two texts agree up to letter case. -/
def sameFolded (s t : Text) : Bool := foldCase s == foldCase t

end Text

end FormLetter
