import Mathlib.Data.List.Basic

/-!
UTF-8 between strings and byte strings. Decoding is the lossy one of `Buffer.toString`:
each maximal ill-formed part reads as one replacement character. Encoding is well formed,
so decoding takes it back.
-/

namespace Regenic.Lib

abbrev Bytes := List UInt8

namespace Utf8

/-- The continuation byte of the low six bits. -/
def tailByte (n : Nat) : UInt8 := UInt8.ofNat (0x80 + n % 64)

def encodeChar (c : Char) : Bytes :=
  let n := c.toNat
  if n < 0x80 then [UInt8.ofNat n]
  else if n < 0x800 then [UInt8.ofNat (0xC0 + n / 64), tailByte n]
  else if n < 0x10000 then
    [UInt8.ofNat (0xE0 + n / 4096), tailByte (n / 64), tailByte n]
  else
    [UInt8.ofNat (0xF0 + n / 262144), tailByte (n / 4096), tailByte (n / 64), tailByte n]

def replacement : Char := Char.ofNat 0xFFFD

/-- Read `need` continuation bytes, the first of them between `low` and `high`. A byte
out of place ends the character and is read again. -/
def decodeTail : Nat → Nat → Nat → Nat → Bytes → Char × Bytes
  | 0, acc, _, _, bytes => (Char.ofNat acc, bytes)
  | _ + 1, _, _, _, [] => (replacement, [])
  | need + 1, acc, low, high, b :: rest =>
    if low ≤ b.toNat ∧ b.toNat ≤ high then
      decodeTail need (acc * 64 + (b.toNat - 0x80)) 0x80 0xBF rest
    else (replacement, b :: rest)

def decodeLead (b : UInt8) (rest : Bytes) : Char × Bytes :=
  let n := b.toNat
  if n < 0x80 then (Char.ofNat n, rest)
  else if n < 0xC2 then (replacement, rest)
  else if n < 0xE0 then decodeTail 1 (n - 0xC0) 0x80 0xBF rest
  else if n < 0xF0 then
    decodeTail 2 (n - 0xE0) (if n = 0xE0 then 0xA0 else 0x80) (if n = 0xED then 0x9F else 0xBF)
      rest
  else if n < 0xF5 then
    decodeTail 3 (n - 0xF0) (if n = 0xF0 then 0x90 else 0x80) (if n = 0xF4 then 0x8F else 0xBF)
      rest
  else (replacement, rest)

/-- One character for each step; every step takes a byte, so the length is fuel enough. -/
def decodeChars : Nat → Bytes → List Char
  | _, [] => []
  | 0, _ :: _ => []
  | fuel + 1, b :: rest =>
    let (c, rest) := decodeLead b rest
    c :: decodeChars fuel rest

end Utf8

def utf8Encode (s : String) : Bytes := s.toList.flatMap Utf8.encodeChar

def utf8Decode (bytes : Bytes) : String :=
  String.ofList (Utf8.decodeChars bytes.length bytes)

namespace Utf8

theorem toNat_tailByte (n : Nat) : (tailByte n).toNat = 0x80 + n % 64 := by
  have hlow : n % 64 < 64 := Nat.mod_lt n (by omega)
  simp only [tailByte, UInt8.toNat_ofNat']
  omega

theorem decodeTail_tailByte {need acc low high n : Nat} (rest : Bytes)
    (hlow : low ≤ 0x80 + n % 64) (hhigh : 0x80 + n % 64 ≤ high) :
    decodeTail (need + 1) acc low high (tailByte n :: rest) =
      decodeTail need (acc * 64 + n % 64) 0x80 0xBF rest := by
  have hbyte := toNat_tailByte n
  have htail : 0x80 + n % 64 - 0x80 = n % 64 := by omega
  simp only [decodeTail, hbyte, hlow, hhigh, and_self, if_true, htail]

theorem char_range (c : Char) : c.toNat < 0xD800 ∨ 0xDFFF < c.toNat ∧ c.toNat < 0x110000 :=
  c.valid

/-- Decoding reads an encoded character back and leaves the rest. -/
theorem decodeChars_encodeChar (c : Char) (fuel : Nat) (rest : Bytes) :
    decodeChars (fuel + 1) (encodeChar c ++ rest) = c :: decodeChars fuel rest := by
  have hrange := char_range c
  have hc : Char.ofNat c.toNat = c := Char.ofNat_toNat c
  simp only [encodeChar]
  split
  · next h1 =>
    have hb : (UInt8.ofNat c.toNat).toNat = c.toNat := by
      simp only [UInt8.toNat_ofNat']
      omega
    simp only [List.singleton_append, decodeChars, decodeLead, hb, h1, if_true, hc]
  split
  · next h1 h2 =>
    have hb : (UInt8.ofNat (0xC0 + c.toNat / 64)).toNat = 0xC0 + c.toNat / 64 := by
      simp only [UInt8.toNat_ofNat']
      omega
    have hsum : (0xC0 + c.toNat / 64 - 0xC0) * 64 + c.toNat % 64 = c.toNat := by omega
    have hlead : decodeLead (UInt8.ofNat (0xC0 + c.toNat / 64)) (tailByte c.toNat :: rest) =
        (c, rest) := by
      simp only [decodeLead, hb]
      rw [if_neg (by omega), if_neg (by omega), if_pos (by omega),
        decodeTail_tailByte rest (by omega) (by omega), hsum]
      simp only [decodeTail, hc]
    simp only [List.cons_append, List.nil_append, decodeChars, hlead]
  split
  · next h1 h2 h3 =>
    have hb : (UInt8.ofNat (0xE0 + c.toNat / 4096)).toNat = 0xE0 + c.toNat / 4096 := by
      simp only [UInt8.toNat_ofNat']
      omega
    have hsum : ((0xE0 + c.toNat / 4096 - 0xE0) * 64 + c.toNat / 64 % 64) * 64 +
        c.toNat % 64 = c.toNat := by omega
    have hlead : decodeLead (UInt8.ofNat (0xE0 + c.toNat / 4096))
        (tailByte (c.toNat / 64) :: tailByte c.toNat :: rest) = (c, rest) := by
      simp only [decodeLead, hb]
      rw [if_neg (by omega), if_neg (by omega), if_neg (by omega), if_pos (by omega),
        decodeTail_tailByte _ (by split <;> omega) (by split <;> omega),
        decodeTail_tailByte rest (by omega) (by omega), hsum]
      simp only [decodeTail, hc]
    simp only [List.cons_append, List.nil_append, decodeChars, hlead]
  · next h1 h2 h3 =>
    have hb : (UInt8.ofNat (0xF0 + c.toNat / 262144)).toNat = 0xF0 + c.toNat / 262144 := by
      simp only [UInt8.toNat_ofNat']
      omega
    have hsum : (((0xF0 + c.toNat / 262144 - 0xF0) * 64 + c.toNat / 4096 % 64) * 64 +
        c.toNat / 64 % 64) * 64 + c.toNat % 64 = c.toNat := by omega
    have hlead : decodeLead (UInt8.ofNat (0xF0 + c.toNat / 262144))
        (tailByte (c.toNat / 4096) :: tailByte (c.toNat / 64) :: tailByte c.toNat :: rest) =
        (c, rest) := by
      simp only [decodeLead, hb]
      rw [if_neg (by omega), if_neg (by omega), if_neg (by omega), if_neg (by omega),
        if_pos (by omega),
        decodeTail_tailByte _ (by split <;> omega) (by split <;> omega),
        decodeTail_tailByte _ (by omega) (by omega),
        decodeTail_tailByte rest (by omega) (by omega), hsum]
      simp only [decodeTail, hc]
    simp only [List.cons_append, List.nil_append, decodeChars, hlead]

theorem decodeChars_flatMap (cs : List Char) (fuel : Nat) (h : cs.length ≤ fuel) :
    decodeChars fuel (cs.flatMap encodeChar) = cs := by
  induction cs generalizing fuel with
  | nil => cases fuel <;> rfl
  | cons c rest ih =>
    cases fuel with
    | zero => simp at h
    | succ fuel =>
      rw [List.flatMap_cons, decodeChars_encodeChar, ih fuel (by simpa using h)]

theorem length_le_flatMap (cs : List Char) : cs.length ≤ (cs.flatMap encodeChar).length := by
  induction cs with
  | nil => exact Nat.le_refl _
  | cons c rest ih =>
    have hone : 1 ≤ (encodeChar c).length := by
      simp only [encodeChar]
      split
      · simp
      split
      · simp
      split <;> simp
    simp only [List.flatMap_cons, List.length_append, List.length_cons]
    omega

end Utf8

/-- Every string is read back from its UTF-8 bytes. -/
@[simp] theorem utf8Decode_utf8Encode (s : String) : utf8Decode (utf8Encode s) = s := by
  unfold utf8Decode utf8Encode
  rw [Utf8.decodeChars_flatMap _ _ (Utf8.length_le_flatMap s.toList), String.ofList_toList]

end Regenic.Lib
