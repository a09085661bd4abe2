import Monorepo.Toml.Text

/-!
# The plain values of TOML

Numbers, dates and times, as the grammar of TOML has them. A value that is read is the longest
that starts a text; what may follow it is for the reader of the line to say.
-/

namespace Monorepo.Toml

/-- A value of TOML. Of dates and of numbers with a point only the kind is kept. -/
inductive Value where
  | text (value : String)
  | integer (value : Int)
  | float
  | bool (value : Bool)
  | dateTime
  | list (items : List Value)
  | table (fields : List (String × Value))
  deriving Repr, Inhabited

/-- Digits of a class with single underscores between them, and what follows. -/
def digitRun? (isDigit : Char → Bool) (text : List Char) : Option (List Char × List Char) :=
  let rec go : List Char → List Char × List Char
    | '_' :: c :: rest =>
      if isDigit c then let (ds, after) := go rest; (c :: ds, after) else ([], '_' :: c :: rest)
    | c :: rest =>
      if isDigit c then let (ds, after) := go rest; (c :: ds, after) else ([], c :: rest)
    | [] => ([], [])
  match text with
  | c :: rest => if isDigit c then let (ds, after) := go rest; some (c :: ds, after) else none
  | [] => none

/-- A sign, if there is one, and what follows. -/
def readSign : List Char → Bool × List Char
  | '-' :: rest => (true, rest)
  | '+' :: rest => (false, rest)
  | text => (false, text)

/-- The decimal digits of a whole number, and what follows. A zero stands alone. -/
def decimalDigits? (text : List Char) : Option (List Char × List Char) :=
  match text with
  | '0' :: rest => some (['0'], rest)
  | _ => digitRun? Char.isDigit text

/-- The greatest whole number. -/
def integerLimit : Nat :=
  Nat.pow 2 63 - 1

/-- Reads a whole number, in decimal digits or behind the mark of a radix. -/
def readInteger (text : List Char) : Except Fault (Value × List Char) :=
  let ofRadix (radix : Nat) (rest : List Char) : Except Fault (Value × List Char) :=
    match digitRun? (fun c => (Text.digitValue? radix c).isSome) rest with
    | some (digits, after) =>
      match Text.natOfDigits? radix digits with
      | some n => if n ≤ integerLimit then .ok (.integer n, after) else .error .number
      | none => .error .number
    | none => .error .number
  match text with
  | '0' :: 'x' :: rest => ofRadix 16 rest
  | '0' :: 'o' :: rest => ofRadix 8 rest
  | '0' :: 'b' :: rest => ofRadix 2 rest
  | _ =>
    let (negative, unsigned) := readSign text
    match decimalDigits? unsigned with
    | none => .error .number
    | some (digits, after) =>
      let n := (Text.natOfDigits? 10 digits).getD 0
      if negative then
        if n ≤ integerLimit + 1 then .ok (.integer (-(n : Int)), after) else .error .number
      else if n ≤ integerLimit then .ok (.integer n, after)
      else .error .number

/-- The exponent of a number, if one starts here: none, or its sign and digits. -/
def readExponent : List Char → Except Fault (Option (List Char) × List Char)
  | mark :: rest =>
    if mark = 'e' ∨ mark = 'E' then
      let (negative, digits) := readSign rest
      match digitRun? Char.isDigit digits with
      | some (ds, after) => .ok (some (if negative then '-' :: ds else ds), after)
      | none => .error .number
    else .ok (none, mark :: rest)
  | [] => .ok (none, [])

/-- Reads a number with a point or an exponent; none when the text starts no such number. A
positive number has to be finite. -/
def readFloat? (text : List Char) : Except Fault (Option (Value × List Char)) := do
  let (negative, unsigned) := readSign text
  if unsigned.take 3 = "inf".toList || unsigned.take 3 = "nan".toList then
    return some (.float, unsigned.drop 3)
  match decimalDigits? unsigned with
  | none => return none
  | some (whole, rest) =>
    let (fraction, rest, pointed) ← match rest with
      | '.' :: more =>
        match digitRun? Char.isDigit more with
        | some (ds, after) => pure (ds, after, true)
        | none => throw .number
      | _ => pure ([], rest, false)
    let (exponent, rest) ← readExponent rest
    if !pointed && exponent.isNone then return none
    let (down, power) := match exponent with
      | some ('-' :: ds) => (true, ds)
      | some ds => (false, ds)
      | none => (false, ['0'])
    let n : Int := (Text.natOfDigits? 10 power).getD 0
    let number : Text.Decimal :=
      ⟨whole ++ fraction, (if down then -n else n) - fraction.length⟩
    if negative || number.isFinite then return some (.float, rest) else throw .number

/-- A number of exactly `width` digits, and what follows. -/
def fixedDigits? (width : Nat) (text : List Char) : Option (Nat × List Char) :=
  let digits := text.take width
  if digits.length = width && digits.all Char.isDigit then
    (Text.natOfDigits? 10 digits).map fun n => (n, text.drop width)
  else none

/-- A number of two digits within bounds, and what follows. -/
def boundedPair? (low high : Nat) (text : List Char) : Option (Nat × List Char) :=
  (fixedDigits? 2 text).filter fun (n, _) => low ≤ n && n ≤ high

/-- What follows a character, if the text starts with it. -/
def passChar? (c : Char) : List Char → Option (List Char)
  | x :: rest => if x = c then some rest else none
  | [] => none

/-- How many days a month has. -/
def daysIn (year month : Nat) : Nat :=
  if month = 2 then
    if year % 4 = 0 && (year % 100 ≠ 0 || year % 400 = 0) then 29 else 28
  else if month = 4 || month = 6 || month = 9 || month = 11 then 30
  else 31

/-- Reads a time of day. None when the text does not start with an hour and a colon. -/
def readTime? (text : List Char) : Except Fault (Option (List Char)) :=
  match (boundedPair? 0 23 text).bind (passChar? ':' ·.2) with
  | none => .ok none
  | some rest =>
    let seconds? := (boundedPair? 0 59 rest).bind (passChar? ':' ·.2) |>.bind (boundedPair? 0 60 ·)
    match seconds? with
    | none => .error .dateTime
    | some (_, rest) =>
      match rest with
      | '.' :: more =>
        let digits := more.takeWhile Char.isDigit
        if digits.isEmpty then .ok (some rest) else .ok (some (more.drop digits.length))
      | _ => .ok (some rest)

/-- Passes the offset of a time, if there is one. -/
def skipOffset (text : List Char) : Except Fault (List Char) :=
  match text with
  | c :: rest =>
    if c = 'Z' || c = 'z' then .ok rest
    else if c = '+' || c = '-' then
      match (boundedPair? 0 23 rest).bind (passChar? ':' ·.2) |>.bind (boundedPair? 0 59 ·) with
      | some (_, after) => .ok after
      | none => .error .dateTime
    else .ok text
  | [] => .ok text

/-- Reads a date, a time or both; none when the text starts with neither. -/
def readDateTime? (text : List Char) : Except Fault (Option (Value × List Char)) := do
  match (fixedDigits? 4 text).bind fun (y, rest) => (passChar? '-' rest).map (y, ·) with
  | some (year, rest) =>
    let day? := (boundedPair? 1 12 rest).bind fun (month, rest) =>
      (passChar? '-' rest).bind fun rest =>
        (boundedPair? 1 31 rest).filter fun (day, _) => day ≤ daysIn year month
    match day? with
    | none => throw .dateTime
    | some (_, rest) =>
      match rest with
      | mark :: more =>
        if mark = 'T' || mark = 't' || mark = ' ' then
          match ← readTime? more with
          | some after => return some (.dateTime, ← skipOffset after)
          | none => return some (.dateTime, rest)
        else return some (.dateTime, rest)
      | [] => return some (.dateTime, rest)
  | none => return (← readTime? text).map fun rest => (.dateTime, rest)

/-- Reads a number, a date or a time. -/
def readNumber (text : List Char) : Except Fault (Value × List Char) := do
  match ← readDateTime? text with
  | some result => return result
  | none =>
    match ← readFloat? text with
    | some result => return result
    | none => readInteger text

/-- Reads a value that is one word or number. -/
def readPlain (text : List Char) : Except Fault (Value × List Char) :=
  if text.take 4 = "true".toList then .ok (.bool true, text.drop 4)
  else if text.take 5 = "false".toList then .ok (.bool false, text.drop 5)
  else if text.take 3 = "inf".toList || text.take 3 = "nan".toList then .ok (.float, text.drop 3)
  else readNumber text

end Monorepo.Toml
