import Monorepo.Document
import Monorepo.Text.Decimal

/-!
# Counts in texts

A count is written with decimal digits, behind an optional plus sign, and fits 64 bits.
-/

namespace Monorepo.Text

/-- Why a text is no count. -/
inductive CountFault where
  | empty
  | noDigit
  | tooLarge
  deriving DecidableEq, Repr

/-- A fault as a sentence. -/
def CountFault.message : CountFault → String
  | .empty => "cannot parse integer from empty string"
  | .noDigit => "invalid digit found in string"
  | .tooLarge => "number too large to fit in target type"

/-- Puts a digit behind a count. -/
def pushDigit (count : Nat) (c : Char) : Except CountFault Nat :=
  match digitValue? 10 c with
  | none => .error .noDigit
  | some digit =>
    let next := count * 10 + digit
    if next ≤ Schema.countLimit then .ok next else .error .tooLarge

/-- The count that a text stands for. Of two faults the one further left is told. -/
def parseCount (text : String) : Except CountFault Nat :=
  match text.toList with
  | [] => .error .empty
  | ['+'] => .error .noDigit
  | '+' :: digits => digits.foldlM pushDigit 0
  | digits => digits.foldlM pushDigit 0

end Monorepo.Text
