/-!
# Decimal numbers in texts

Digits as numbers, and the one question that the formats ask of a decimal fraction: whether a
double-precision number is near enough to hold it. `Decimal.isFinite` answers it exactly, in whole
numbers.
-/

namespace Monorepo.Text

/-- The value of a digit in a radix of at most sixteen. -/
def digitValue? (radix : Nat) (c : Char) : Option Nat :=
  let value? :=
    if '0' ≤ c ∧ c ≤ '9' then some (c.toNat - 0x30)
    else if 'a' ≤ c ∧ c ≤ 'f' then some (c.toNat - 0x57)
    else if 'A' ≤ c ∧ c ≤ 'F' then some (c.toNat - 0x37)
    else none
  value?.bind fun n => if n < radix then some n else none

/-- The number that digits stand for; at least one is needed. -/
def natOfDigits? (radix : Nat) (digits : List Char) : Option Nat :=
  if digits.isEmpty then none
  else digits.foldlM (fun n c => (n * radix + ·) <$> digitValue? radix c) 0

/-- A number written with digits, a point and an exponent. -/
structure Decimal where
  /-- The digits without the point. -/
  digits : List Char
  /-- The power of ten of the last digit. -/
  scale : Int

namespace Decimal

/-- Reads digits with an optional point, of which at least one is a digit, and an optional
exponent. -/
def parse? (text : List Char) : Option Decimal :=
  let whole := text.takeWhile Char.isDigit
  let rest := text.drop whole.length
  let (fraction, rest) := match rest with
    | '.' :: more => (more.takeWhile Char.isDigit, more.dropWhile Char.isDigit)
    | _ => ([], rest)
  let digits := whole ++ fraction
  if digits.isEmpty then none
  else
    match rest with
    | [] => some ⟨digits, -(fraction.length : Int)⟩
    | mark :: power =>
      if mark = 'e' ∨ mark = 'E' then
        let (sign, power) : Int × List Char := match power with
          | '-' :: more => (-1, more)
          | '+' :: more => (1, more)
          | _ => (1, power)
        (natOfDigits? 10 power).map fun n => ⟨digits, sign * n - fraction.length⟩
      else none

/-- The least number that is rounded to infinity: half a unit above the greatest double. -/
def overflow : Nat :=
  Nat.pow 2 1024 - Nat.pow 2 970

/-- Whether the number is rounded to a finite double. Numbers of far too many or too few places
are decided by their size. -/
def isFinite (d : Decimal) : Bool :=
  let digits := d.digits.dropWhile (· = '0')
  let places := (digits.length : Int) + d.scale
  if digits.isEmpty || places < 300 then true
  else if 310 < places then false
  else
    let value := (natOfDigits? 10 digits).getD 0
    if 0 ≤ d.scale then value * Nat.pow 10 d.scale.toNat < overflow
    else value < overflow * Nat.pow 10 (-d.scale).toNat

end Decimal

end Monorepo.Text
