import Monorepo.Text.Decimal

/-!
# What plain words mean

A plain word of a YAML text can stand for null, a truth value or a number. Where the reader does
not expect a text, `Plain.ofWord` decides; the printer asks it too, to put words in quotes that
would not be read as texts.
-/

namespace Monorepo.Yaml

/-- The meaning of a plain word. -/
inductive Plain where
  | null
  | bool (value : Bool)
  | integer (value : Int)
  /-- A whole number of more than 64 bits. -/
  | wide
  /-- A finite number with a point or an exponent. -/
  | decimal
  /-- An infinite number, or none. -/
  | unbounded
  | text
  deriving DecidableEq, Repr

namespace Plain

def isNull (word : List Char) : Bool :=
  word = ['n', 'u', 'l', 'l'] || word = ['N', 'u', 'l', 'l'] || word = ['N', 'U', 'L', 'L']
    || word = ['~']

def bool? (word : List Char) : Option Bool :=
  if word = "true".toList || word = "True".toList || word = "TRUE".toList then some true
  else if word = "false".toList || word = "False".toList || word = "FALSE".toList then some false
  else none

/-- Whether a word is made of digits but is no number, since it starts with a zero. -/
def isPaddedDigits (word : List Char) : Bool :=
  let digits := match word with
    | '-' :: rest | '+' :: rest => rest
    | _ => word
  1 < digits.length && digits.head? = some '0' && digits.all Char.isDigit

/-- The number behind the mark of a radix, when it is at most `limit`. -/
def radixNumber? (limit : Nat) : List Char → Option Nat
  | '0' :: mark :: digits =>
    let radix? :=
      if mark = 'x' then some 16 else if mark = 'o' then some 8
      else if mark = 'b' then some 2 else none
    (radix?.bind (Text.natOfDigits? · digits)).filter (· ≤ limit)
  | _ => none

/-- The number of at most `limit` that a word stands for: after an optional plus, digits behind
the mark of a radix, or decimal digits without padding. -/
def natural? (limit : Nat) (word : List Char) : Option Nat :=
  let digits := match word with
    | '+' :: rest => rest
    | _ => word
  match radixNumber? limit digits with
  | some n => some n
  | none =>
    if isPaddedDigits word then none else (Text.natOfDigits? 10 digits).filter (· ≤ limit)

/-- The size of the negative number of at least `-limit` that a word stands for. -/
def negative? (limit : Nat) : List Char → Option Nat
  | '-' :: digits =>
    match radixNumber? limit digits with
    | some n => some n
    | none =>
      if isPaddedDigits digits then none else (Text.natOfDigits? 10 digits).filter (· ≤ limit)
  | _ => none

/-- The whole number that a word stands for. -/
def integer? (word : List Char) : Option Plain :=
  match natural? (Nat.pow 2 64 - 1) word with
  | some n => some (.integer n)
  | none =>
    match negative? (Nat.pow 2 63) word with
    | some n => some (.integer (-(n : Int)))
    | none =>
      let isWide := (natural? (Nat.pow 2 128 - 1) word).isSome
        || (negative? (Nat.pow 2 127) word).isSome
      if isWide then some .wide else none

/-- The number with a point or an exponent that a word stands for. -/
def decimal? (word : List Char) : Option Plain :=
  let unsigned := match word with
    | '+' :: rest => rest
    | _ => word
  if word.head? = some '+' && (unsigned.head? = some '+' || unsigned.head? = some '-') then none
  else if unsigned = ".inf".toList || unsigned = ".Inf".toList || unsigned = ".INF".toList
      || word = "-.inf".toList || word = "-.Inf".toList || word = "-.INF".toList
      || word = ".nan".toList || word = ".NaN".toList || word = ".NAN".toList then
    some .unbounded
  else
    let digits := match unsigned with
      | '-' :: rest => rest
      | _ => unsigned
    match Text.Decimal.parse? digits with
    | some d => if d.isFinite then some .decimal else none
    | none => none

/-- The meaning of a plain word. -/
def ofWord (word : List Char) : Plain :=
  if word.isEmpty || isNull word then .null
  else
    match bool? word with
    | some b => .bool b
    | none =>
      match integer? word with
      | some p => p
      | none =>
        if isPaddedDigits word then .text
        else (decimal? word).getD .text

end Plain

end Monorepo.Yaml
