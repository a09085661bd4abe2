/-!
# UTF-8 text in files

A file holds bytes; a configuration is text. `Utf8.decode` reads the bytes as UTF-8 one byte at a
time and says where and how they stop being text, `Utf8.encode` writes text as bytes, and
`Utf8.decodeLossy` shows every byte sequence that is not text as one replacement character.
-/

namespace Monorepo.Utf8

/-- Why bytes are no text. -/
inductive Fault where
  /-- `length` bytes from byte `index` on start no character. -/
  | invalid (length index : Nat)
  /-- The bytes end inside the character that starts at byte `index`. -/
  | incomplete (index : Nat)
  deriving DecidableEq, Repr

/-- A fault as a sentence. -/
def Fault.message : Fault → String
  | .invalid length index =>
    "invalid utf-8 sequence of " ++ toString length ++ " bytes from index " ++ toString index
  | .incomplete index => "incomplete utf-8 byte sequence from index " ++ toString index

/-- A character whose first bytes were read. -/
structure Pending where
  /-- How many bytes are still owed. -/
  owed : Nat
  /-- The bits read so far. -/
  value : Nat
  /-- The least value of the next byte. -/
  low : Nat
  /-- The greatest value of the next byte. -/
  high : Nat
  /-- How many bytes of the character were read. -/
  seen : Nat

/-- What a first byte of more than one starts. The bounds of the second byte keep out overlong
forms, surrogates and values above the last code point. -/
def Pending.ofFirst (b : Nat) : Option Pending :=
  if 0xC2 ≤ b ∧ b ≤ 0xDF then some ⟨1, b - 0xC0, 0x80, 0xBF, 1⟩
  else if b = 0xE0 then some ⟨2, 0, 0xA0, 0xBF, 1⟩
  else if b = 0xED then some ⟨2, 0xD, 0x80, 0x9F, 1⟩
  else if 0xE1 ≤ b ∧ b ≤ 0xEF then some ⟨2, b - 0xE0, 0x80, 0xBF, 1⟩
  else if b = 0xF0 then some ⟨3, 0, 0x90, 0xBF, 1⟩
  else if 0xF1 ≤ b ∧ b ≤ 0xF3 then some ⟨3, b - 0xF0, 0x80, 0xBF, 1⟩
  else if b = 0xF4 then some ⟨3, 4, 0x80, 0x8F, 1⟩
  else none

/-- Takes one more byte into a character that owes some. -/
def Pending.push (p : Pending) (b : Nat) : Pending :=
  ⟨p.owed - 1, p.value * 64 + (b - 0x80), 0x80, 0xBF, p.seen + 1⟩

/-- Reads bytes as text from byte `index` on, where `pending` is the character begun there. -/
def decodeFrom (index : Nat) : Option Pending → List UInt8 → Except Fault (List Char)
  | none, [] => .ok []
  | some _, [] => .error (.incomplete index)
  | none, b :: rest =>
    if b.toNat ≤ 0x7F then
      (Char.ofNat b.toNat :: ·) <$> decodeFrom (index + 1) none rest
    else
      match Pending.ofFirst b.toNat with
      | some p => decodeFrom index (some p) rest
      | none => .error (.invalid 1 index)
  | some p, b :: rest =>
    if p.low ≤ b.toNat ∧ b.toNat ≤ p.high then
      if p.owed = 1 then
        (Char.ofNat (p.push b.toNat).value :: ·) <$> decodeFrom (index + p.seen + 1) none rest
      else decodeFrom index (some (p.push b.toNat)) rest
    else .error (.invalid p.seen index)

/-- The text that bytes hold, or the first fault. -/
def decode (bytes : List UInt8) : Except Fault String :=
  String.ofList <$> decodeFrom 0 none bytes

/-- The bytes of a text. -/
def encode (text : String) : List UInt8 :=
  text.toUTF8.toList

/-- Reads bytes as text and writes `U+FFFD` for each sequence that is none. -/
def decodeLossyFrom : Option Pending → List UInt8 → List Char
  | none, [] => []
  | some _, [] => ['\uFFFD']
  | none, b :: rest =>
    if b.toNat ≤ 0x7F then Char.ofNat b.toNat :: decodeLossyFrom none rest
    else
      match Pending.ofFirst b.toNat with
      | some p => decodeLossyFrom (some p) rest
      | none => '\uFFFD' :: decodeLossyFrom none rest
  | some p, b :: rest =>
    if p.low ≤ b.toNat ∧ b.toNat ≤ p.high then
      if p.owed = 1 then Char.ofNat (p.push b.toNat).value :: decodeLossyFrom none rest
      else decodeLossyFrom (some (p.push b.toNat)) rest
    else if b.toNat ≤ 0x7F then '\uFFFD' :: Char.ofNat b.toNat :: decodeLossyFrom none rest
    else
      match Pending.ofFirst b.toNat with
      | some q => '\uFFFD' :: decodeLossyFrom (some q) rest
      | none => '\uFFFD' :: '\uFFFD' :: decodeLossyFrom none rest

/-- The text of any bytes, for display. -/
def decodeLossy (bytes : List UInt8) : String :=
  String.ofList (decodeLossyFrom none bytes)

end Monorepo.Utf8
