import FormLetter.Markup.Lexer

/-!
# Pairing conditional markers

A section runs from an opening marker to its closing marker, may hold one alternative marker of its
own, and may hold further sections. `pair` matches the markers of a text in one pass with a stack
of open sections.

* **Outermost sections only.** Sections inside another one are checked and then dropped from the
  result: whether they matter depends on the branch that encloses them.
* **The first problem decides.** A marker that closes or divides nothing, or divides a section a
  second time, stops the pass; sections that are still open at the end are reported through the
  outermost of them.
-/

namespace FormLetter

/-- A section with its markers. -/
structure Block where
  opening : Occurrence
  condition : Condition
  alternative : Option Occurrence
  closing : Occurrence
deriving DecidableEq, Repr

/-- A section whose closing marker has not been met yet. -/
structure OpenBlock where
  opening : Occurrence
  condition : Condition
  alternative : Option Occurrence
deriving DecidableEq, Repr

/-- The section that ends with this closing marker. -/
def OpenBlock.close (block : OpenBlock) (closing : Occurrence) : Block :=
  ⟨block.opening, block.condition, block.alternative, closing⟩

/-- Why markers do not pair, with the position that is reported. -/
inductive PairingError
  /-- A section is never closed; the position is that of its opening marker. -/
  | unmatchedIf (condition : Condition) (position : Nat)
  /-- An alternative marker stands outside all sections. -/
  | orphanElse (position : Nat)
  /-- A closing marker stands outside all sections. -/
  | orphanEndif (position : Nat)
  /-- A section is divided twice; the position is that of its opening marker. -/
  | multipleElse (condition : Condition) (position : Nat)
deriving DecidableEq, Repr

/-- The position that an error reports. -/
def PairingError.position : PairingError → Nat
  | .unmatchedIf _ position => position
  | .orphanElse position => position
  | .orphanEndif position => position
  | .multipleElse _ position => position

/-- The short name of the problem. -/
def PairingError.kind : PairingError → String
  | .unmatchedIf .. => "unmatched_if"
  | .orphanElse .. => "orphan_else"
  | .orphanEndif .. => "orphan_endif"
  | .multipleElse .. => "multiple_else"

/-- The problem in words. -/
def PairingError.message : PairingError → String
  | .unmatchedIf condition position =>
    "Unmatched " ++ condition.openingMarker ++ " at position " ++ toString position
  | .orphanElse position =>
    "Orphan @else@ at position " ++ toString position ++ " (no matching @if@)"
  | .orphanEndif position =>
    "Orphan @endif@ at position " ++ toString position ++ " (no matching @if@)"
  | .multipleElse condition position =>
    "Multiple @else@ in block " ++ condition.openingMarker ++ " at position " ++ toString position

/-- Pairs the markers that follow, given the sections that are open, innermost first. -/
def pairFrom : List OpenBlock → List Marker → Except PairingError (List Block)
  | stack, [] =>
    match stack.getLast? with
    | none => .ok []
    | some outermost => .error (.unmatchedIf outermost.condition outermost.opening.start)
  | stack, .opening here condition :: rest => pairFrom (⟨here, condition, none⟩ :: stack) rest
  | [], .alternative here :: _ => .error (.orphanElse here.start)
  | block :: stack, .alternative here :: rest =>
    match block.alternative with
    | some _ => .error (.multipleElse block.condition block.opening.start)
    | none => pairFrom (⟨block.opening, block.condition, some here⟩ :: stack) rest
  | [], .closing here :: _ => .error (.orphanEndif here.start)
  | [block], .closing here :: rest => (pairFrom [] rest).map (block.close here :: ·)
  | _ :: outer :: stack, .closing _ :: rest => pairFrom (outer :: stack) rest

/-- The outermost sections of a sequence of markers, in order. -/
def pair (markers : List Marker) : Except PairingError (List Block) := pairFrom [] markers

end FormLetter
