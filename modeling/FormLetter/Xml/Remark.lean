import FormLetter.Xml.Notice
import FormLetter.Xml.Chars

/-!
# Remarks

Comments and processing instructions say something to readers and tools. They are no content, but
they divide the text around them.
-/

namespace FormLetter

namespace Xml

/-- A remark. -/
inductive Remark
  | comment (content : Text)
  /-- An instruction for the named target. -/
  | instruction (target content : Text)
deriving DecidableEq, Repr

/-- A comment after its first four characters, and what follows it; two hyphens end it. -/
def comment? (t : Text) : Option (Remark × Text) := do
  let (content, rest) ← breakAt? ['-', '-'] t
  return (.comment (normalizeLineEnds content), ← after? ['>'] rest)

/-- The name of the language itself, which no instruction may bear in any letter case. -/
def languageName : Text := Text.ofString "xml"

/-- A processing instruction after its first two characters, and what follows it. -/
def instruction? (t : Text) : Option (Remark × Text) := do
  let (target, rest) ← label? t
  if Text.lower target = languageName then none
  else
    match after? ['?', '>'] rest with
    | some following => some (.instruction target [], following)
    | none => do
      let (content, following) ← breakAt? ['?', '>'] (← afterSpace? rest)
      return (.instruction target (normalizeLineEnds content), following)

namespace Remark

/-- The targets that may begin with the name of the language. -/
def standardTargets : List Text := ["xml-stylesheet", "xml-model"].map Text.ofString

/-- Notices about a remark: targets that begin with the name of the language are reserved, and no
target may hold a colon. -/
def judge : Remark → Judged Unit
  | .comment _ => pure ()
  | .instruction target _ => do
    let isReserved := Text.lower (target.take languageName.length) = languageName
    warnIf (isReserved && !standardTargets.contains target)
    blameIf (target.contains ':' && !standardTargets.contains target)

end Remark

end Xml

end FormLetter
