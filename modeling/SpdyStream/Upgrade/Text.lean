/-
  Upgrade/Text.lean --- the string functions that `server.rs` calls.

  A `str` is the list of its characters: a `Char` is a Unicode scalar value, as
  in the source.  Byte offsets into a `str` become character offsets; the source
  only cuts at a colon, which is one byte long.

  The lemmas say what reaches the bytes of a text: `fromUtf8` reads back
  `asBytes`, an ASCII text has one byte for each character, and a byte below 128
  is there only for its own character.
-/
import SpdyStream.Foundation.Splitting
import SpdyStream.Framing.Reference

set_option autoImplicit false

namespace SpdyStream.Upgrade

open SpdyStream.Foundation SpdyStream.Framing

/-- A `str`. -/
abbrev Str : Type := List Char

/-! ## Bytes of a text -/

/-- `str::as_bytes`. -/
def asBytes (s : Str) : Bytes := s.flatMap String.utf8EncodeChar

/-- `std::str::from_utf8`. -/
def fromUtf8 (bs : Bytes) : Option Str := (ByteArray.utf8Decode? ⟨bs.toArray⟩).map Array.toList

theorem fromUtf8_asBytes (s : Str) : fromUtf8 (asBytes s) = some s := by
  have hbytes : (⟨(asBytes s).toArray⟩ : ByteArray) = s.utf8Encode := by
    apply ByteArray.ext
    rw [List.utf8Encode, List.data_toByteArray]
    rfl
  rw [fromUtf8, hbytes, List.utf8Decode?_utf8Encode]
  rfl

@[simp] theorem asBytes_append (s t : Str) : asBytes (s ++ t) = asBytes s ++ asBytes t :=
  List.flatMap_append

theorem utf8EncodeChar_ascii {c : Char} (h : c.toNat < 128) :
    String.utf8EncodeChar c = [c.toUInt8] := by
  have hle : c.val.toNat ≤ 127 := Nat.le_of_lt_succ h
  rw [String.utf8EncodeChar]
  simp only [if_pos hle]
  rfl

theorem asBytes_ascii {s : Str} (h : ∀ c ∈ s, c.toNat < 128) : asBytes s = s.map Char.toUInt8 := by
  induction s with
  | nil => rfl
  | cons c s ih =>
      have htail := ih fun d hd => h d (List.mem_cons_of_mem _ hd)
      rw [asBytes] at htail
      rw [asBytes, List.flatMap_cons, utf8EncodeChar_ascii (h c List.mem_cons_self), htail]
      rfl

theorem toNat_toUInt8 {c : Char} (h : c.toNat < 128) : c.toUInt8.toNat = c.toNat := by
  show c.val.toUInt8.toNat = c.val.toNat
  rw [UInt32.toNat_toUInt8]
  exact Nat.mod_eq_of_lt (Nat.lt_trans h (by decide))

/-- Every byte of a character outside ASCII is at least 128. -/
theorem utf8EncodeChar_high {c : Char} (h : 128 ≤ c.toNat) {b : UInt8}
    (hb : b ∈ String.utf8EncodeChar c) : 128 ≤ b.toNat := by
  have hgt : ¬ c.val.toNat ≤ 127 := Nat.not_le.mpr h
  have hbyte : ∀ n, 128 ≤ n → n < 256 → 128 ≤ (UInt8.ofNat n).toNat := by
    intro n hn hlt
    rwa [UInt8.toNat_ofNat', Nat.mod_eq_of_lt hlt]
  rw [String.utf8EncodeChar] at hb
  simp only [if_neg hgt] at hb
  split at hb
  · simp only [List.mem_cons, List.not_mem_nil, or_false] at hb
    rcases hb with rfl | rfl <;> exact hbyte _ (by omega) (by omega)
  · split at hb
    · simp only [List.mem_cons, List.not_mem_nil, or_false] at hb
      rcases hb with rfl | rfl | rfl <;> exact hbyte _ (by omega) (by omega)
    · simp only [List.mem_cons, List.not_mem_nil, or_false] at hb
      rcases hb with rfl | rfl | rfl | rfl <;> exact hbyte _ (by omega) (by omega)

/-- A byte below 128 stands for its own character. -/
theorem mem_of_mem_asBytes {s : Str} {b : UInt8} (hlow : b.toNat < 128) (h : b ∈ asBytes s) :
    ∃ c ∈ s, c.toNat = b.toNat := by
  obtain ⟨c, hc, hb⟩ := List.mem_flatMap.mp h
  refine ⟨c, hc, ?_⟩
  by_cases hascii : c.toNat < 128
  · rw [utf8EncodeChar_ascii hascii, List.mem_singleton] at hb
    rw [hb, toNat_toUInt8 hascii]
  · exact absurd (utf8EncodeChar_high (Nat.not_lt.mp hascii) hb) (Nat.not_le.mpr hlow)

/-! ## Functions on a text -/

/-- `char::is_whitespace`: the property `White_Space` of Unicode. -/
def isWhitespace (c : Char) : Bool :=
  (9 ≤ c.toNat && c.toNat ≤ 13) || (0x2000 ≤ c.toNat && c.toNat ≤ 0x200a) ||
    c.toNat ∈ [0x20, 0x85, 0xa0, 0x1680, 0x2028, 0x2029, 0x202f, 0x205f, 0x3000]

/-- `str::trim`. -/
def trim (s : Str) : Str := strip isWhitespace s

/-- `str::eq_ignore_ascii_case`. -/
def eqIgnoreAsciiCase (s t : Str) : Bool := s.map Char.toLower = t.map Char.toLower

/-- `str::split("\r\n")`. -/
def splitCrlf (s : Str) : List Str := splitPair '\r' '\n' s

/-- `str::splitn(n, ' ')`. -/
def splitnSpace (n : Nat) (s : Str) : List Str := splitN ' ' n s

/-- `str::find(':')`. -/
def findColon (s : Str) : Option Nat := findElem ':' s

end SpdyStream.Upgrade
