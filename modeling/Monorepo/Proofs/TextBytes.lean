import Monorepo.Text.Utf8

/-!
# Text that is written and read

A text is written as the bytes of its characters, one character after the other, and bytes are read
one at a time:

* `Utf8.encode_eq_flatMap` — the bytes of a text are those of its characters;
* `Utf8.ofFirst_of_three`, `Utf8.ofFirst_of_four` — what the first byte of a longer character
  starts, and that its second byte is within the bounds this sets;
* `Utf8.decodeFrom_char` — the bytes of a character are read as that character, whatever follows.

The main statement is `Utf8.decode_encode`: reading what was written gives the text back.
-/

namespace Monorepo.Utf8

/-! ### The bytes of a text -/

theorem toList_loop_eq (bytes : ByteArray) (i : Nat) (reversed : List UInt8) :
    ByteArray.toList.loop bytes i reversed = reversed.reverse ++ bytes.data.toList.drop i := by
  fun_induction ByteArray.toList.loop bytes i reversed with
  | case1 i reversed h ih =>
    have hi : i < bytes.data.toList.length := by simpa using h
    rw [ih, List.drop_eq_getElem_cons hi]
    simp [ByteArray.get!, h]
  | case2 i reversed h =>
    rw [List.drop_eq_nil_of_le (by simpa using Nat.le_of_not_lt h)]
    simp

theorem encode_eq_flatMap (text : String) :
    encode text = text.toList.flatMap String.utf8EncodeChar := by
  have hbytes : text.toByteArray = text.toList.utf8Encode := by
    rw [← String.toByteArray_ofList, String.ofList_toList]
  rw [encode, String.toUTF8_eq_toByteArray, hbytes, ByteArray.toList, toList_loop_eq,
    List.utf8Encode, List.data_toByteArray]
  simp

/-! ### Bytes of one character -/

section Steps

variable {index b : Nat} {rest : List UInt8}

theorem toNat_ofNat (hb : b ≤ 0xFF) : (UInt8.ofNat b).toNat = b :=
  UInt8.toNat_ofNat_of_lt' (Nat.lt_succ_of_le hb)

theorem decodeFrom_ascii (hb : b ≤ 0x7F) :
    decodeFrom index none (UInt8.ofNat b :: rest) =
      (Char.ofNat b :: ·) <$> decodeFrom (index + 1) none rest := by
  rw [decodeFrom, toNat_ofNat (by omega), if_pos hb]

theorem decodeFrom_first {p : Pending} (hb : 0x7F < b ∧ b ≤ 0xFF)
    (hp : Pending.ofFirst b = some p) :
    decodeFrom index none (UInt8.ofNat b :: rest) = decodeFrom index (some p) rest := by
  rw [decodeFrom, toNat_ofNat hb.2, if_neg (by omega), hp]

theorem decodeFrom_next {p : Pending} (hb : p.low ≤ b ∧ b ≤ p.high) (hbyte : b ≤ 0xFF)
    (howed : p.owed ≠ 1) :
    decodeFrom index (some p) (UInt8.ofNat b :: rest) =
      decodeFrom index (some (p.push b)) rest := by
  rw [decodeFrom, toNat_ofNat hbyte, if_pos hb, if_neg howed]

theorem decodeFrom_last {p : Pending} (hb : p.low ≤ b ∧ b ≤ p.high) (hbyte : b ≤ 0xFF)
    (howed : p.owed = 1) :
    decodeFrom index (some p) (UInt8.ofNat b :: rest) =
      (Char.ofNat (p.push b).value :: ·) <$> decodeFrom (index + p.seen + 1) none rest := by
  rw [decodeFrom, toNat_ofNat hbyte, if_pos hb, if_pos howed]

end Steps

/-- A code point that is no surrogate is within the bounds of its second byte. -/
theorem ofFirst_of_three {v : Nat} (hlow : 0x800 ≤ v) (hhigh : v ≤ 0xFFFF)
    (hvalid : v < 0xD800 ∨ 0xDFFF < v) :
    ∃ low high, Pending.ofFirst (v / 4096 % 16 + 224) = some ⟨2, v / 4096, low, high, 1⟩ ∧
      low ≤ v / 64 % 64 + 128 ∧ v / 64 % 64 + 128 ≤ high := by
  rcases (by omega : v / 4096 = 0 ∨ v / 4096 = 13 ∨ (v / 4096 ≠ 0 ∧ v / 4096 ≠ 13))
    with h | h | h
  · refine ⟨0xA0, 0xBF, ?_, by omega, by omega⟩
    rw [h]
    rfl
  · refine ⟨0x80, 0x9F, ?_, by omega, by omega⟩
    rw [h]
    rfl
  · refine ⟨0x80, 0xBF, ?_, by omega, by omega⟩
    rw [Pending.ofFirst, if_neg (by omega), if_neg (by omega), if_neg (by omega),
      if_pos (by omega), show v / 4096 % 16 + 224 - 224 = v / 4096 by omega]

theorem ofFirst_of_four {v : Nat} (hlow : 0x10000 ≤ v) (hhigh : v < 0x110000) :
    ∃ low high, Pending.ofFirst (v / 262144 % 8 + 240) = some ⟨3, v / 262144, low, high, 1⟩ ∧
      low ≤ v / 4096 % 64 + 128 ∧ v / 4096 % 64 + 128 ≤ high := by
  rcases (by omega : v / 262144 = 0 ∨ v / 262144 = 4 ∨ (v / 262144 ≠ 0 ∧ v / 262144 < 4))
    with h | h | h
  · refine ⟨0x90, 0xBF, ?_, by omega, by omega⟩
    rw [h]
    rfl
  · refine ⟨0x80, 0x8F, ?_, by omega, by omega⟩
    rw [h]
    rfl
  · refine ⟨0x80, 0xBF, ?_, by omega, by omega⟩
    rw [Pending.ofFirst, if_neg (by omega), if_neg (by omega), if_neg (by omega),
      if_neg (by omega), if_neg (by omega), if_pos (by omega),
      show v / 262144 % 8 + 240 - 240 = v / 262144 by omega]

/-- A byte behind the second is only bound to be no first byte. -/
theorem tail_bounds (n : Nat) : 0x80 ≤ n % 64 + 128 ∧ n % 64 + 128 ≤ 0xBF := by
  omega

/-- **The bytes of a character are read as that character.**  The cases are those of its length. -/
theorem decodeFrom_char (index : Nat) (c : Char) (rest : List UInt8) :
    ∃ next, decodeFrom index none (String.utf8EncodeChar c ++ rest) =
      (c :: ·) <$> decodeFrom next none rest := by
  have hchar : Char.ofNat c.val.toNat = c := Char.ofNat_toNat c
  have hvalid : c.val.toNat < 0xD800 ∨ 0xDFFF < c.val.toNat ∧ c.val.toNat < 0x110000 := c.valid
  rw [String.utf8EncodeChar]
  generalize c.val.toNat = v at hchar hvalid
  by_cases hone : v ≤ 127
  · refine ⟨index + 1, ?_⟩
    rw [if_pos hone, List.singleton_append, decodeFrom_ascii hone, hchar]
  by_cases htwo : v ≤ 2047
  · have hfirst : Pending.ofFirst (v / 64 % 32 + 192) = some ⟨1, v / 64, 0x80, 0xBF, 1⟩ := by
      rw [Pending.ofFirst, if_pos (by omega), show v / 64 % 32 + 192 - 192 = v / 64 by omega]
    have hvalue : v / 64 * 64 + (v % 64 + 128 - 128) = v := by omega
    refine ⟨index + 1 + 1, ?_⟩
    rw [if_neg hone, if_pos htwo, List.cons_append, List.singleton_append,
      decodeFrom_first (by omega) hfirst, decodeFrom_last (tail_bounds v) (by omega) rfl,
      Pending.push, hvalue, hchar]
  by_cases hthree : v ≤ 65535
  · obtain ⟨low, high, hfirst, hbounds⟩ :=
      ofFirst_of_three (by omega) hthree (hvalid.imp_right And.left)
    have hvalue : (v / 4096 * 64 + (v / 64 % 64 + 128 - 128)) * 64 + (v % 64 + 128 - 128) = v := by
      omega
    refine ⟨index + 2 + 1, ?_⟩
    rw [if_neg hone, if_neg htwo, if_pos hthree, List.cons_append, List.cons_append,
      List.singleton_append, decodeFrom_first (by omega) hfirst,
      decodeFrom_next hbounds (by omega) (by decide : 2 ≠ 1),
      decodeFrom_last (tail_bounds v) (by omega) rfl]
    simp only [Pending.push, hvalue, hchar]
  · obtain ⟨low, high, hfirst, hbounds⟩ := ofFirst_of_four (v := v) (by omega) (by omega)
    have hvalue : ((v / 262144 * 64 + (v / 4096 % 64 + 128 - 128)) * 64 +
        (v / 64 % 64 + 128 - 128)) * 64 + (v % 64 + 128 - 128) = v := by
      omega
    refine ⟨index + 3 + 1, ?_⟩
    rw [if_neg hone, if_neg htwo, if_neg hthree, List.cons_append, List.cons_append,
      List.cons_append, List.singleton_append, decodeFrom_first (by omega) hfirst,
      decodeFrom_next hbounds (by omega) (by decide : 3 ≠ 1),
      decodeFrom_next (tail_bounds (v / 64)) (by omega) (by decide : 3 - 1 ≠ 1),
      decodeFrom_last (tail_bounds v) (by omega) rfl]
    simp only [Pending.push, hvalue, hchar]

theorem decodeFrom_flatMap (index : Nat) (text : List Char) :
    decodeFrom index none (text.flatMap String.utf8EncodeChar) = .ok text := by
  induction text generalizing index with
  | nil => rfl
  | cons c rest ih =>
    obtain ⟨next, hchar⟩ := decodeFrom_char index c (rest.flatMap String.utf8EncodeChar)
    rw [List.flatMap_cons, hchar, ih next]
    rfl

/-- **Reading what was written gives the text back.** -/
theorem decode_encode (text : String) : decode (encode text) = .ok text := by
  rw [decode, encode_eq_flatMap, decodeFrom_flatMap]
  exact congrArg Except.ok String.ofList_toList

end Monorepo.Utf8
