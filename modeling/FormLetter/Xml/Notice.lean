import FormLetter.Text.Basic

/-!
# Notices

A document can break some rules and still be read to its end. What is noticed on the way decides
whether the result counts.

* **Refusal.** Text that does not follow the grammar ends the reading at once.
* **Faults** are breaches after which reading goes on, such as a prefix that nobody declared.
* **Warnings** concern what is unusual and allowed.
* **The last word.** Only the last notice counts: a document is accepted unless that is a fault. A
  warning therefore makes up for all faults before it.
-/

namespace FormLetter

namespace Xml

/-- What can be noticed without giving up. -/
inductive Notice
  | warning
  | fault
deriving DecidableEq, Repr

/-- A step of reading: it may refuse, and it hands on the last notice. -/
abbrev Judged := StateT (Option Notice) Option

/-- Gives up. -/
def refuse {α : Type} : Judged α := fun _ => none

/-- Goes on with a value, or gives up if there is none. -/
def require {α : Type} (value : Option α) : Judged α := fun last => value.map (·, last)

/-- Notices something unusual. -/
def warn : Judged Unit := set (some Notice.warning)

/-- Notices a breach. -/
def blame : Judged Unit := set (some Notice.fault)

/-- Notices a breach if there is one. -/
def blameIf (breach : Bool) : Judged Unit := if breach then blame else pure ()

/-- Notices something unusual if there is any. -/
def warnIf (unusual : Bool) : Judged Unit := if unusual then warn else pure ()

/-- What has been read, if it counts. -/
def Judged.accepted? {α : Type} (reading : Judged α) : Option α :=
  match reading none with
  | some (_, some .fault) => none
  | some (value, _) => some value
  | none => none

end Xml

end FormLetter
