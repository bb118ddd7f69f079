import Mathlib.Data.List.Basic
import Mathlib.Tactic.Common

/-!
# Shorty.Lib.Base64

Base64 with the standard alphabet and without padding, as RFC 4648 has it.  Three bytes
are four digits of six bits; what is left over at the end, one byte or two, is two digits
or three whose last bits are zero.

Decoding undoes encoding, and a text is made of letters and digits only if no byte of it
reaches the two digits of the alphabet that are neither.
-/

namespace Base64

/-! ## digits -/

/-- The standard alphabet. -/
def alphabet : List Char := "ABCDEFGHIJKLMNOPQRSTUVWXYZabcdefghijklmnopqrstuvwxyz0123456789+/".toList

/-- The digit of a number below 64. -/
def digit (n : Nat) : Char := alphabet.getD n '/'

/-- The number of a digit. -/
def value (c : Char) : Option Nat := alphabet.idxOf? c

theorem value_digit {n : Nat} (h : n < 64) : value (digit n) = some n := by
  have hall : ∀ n : Fin 64, value (digit n) = some n.val := by decide +kernel
  exact hall ⟨n, h⟩

/-- All digits but the last two are letters or decimal digits. -/
theorem isAlphanum_digit {n : Nat} (h : n < 62) : (digit n).isAlphanum = true := by
  have hall : ∀ n : Fin 62, (digit n).isAlphanum = true := by decide +kernel
  exact hall ⟨n, h⟩

/-! ## encoding and decoding -/

def encodeBytes : List UInt8 → List Char
  | a :: b :: c :: bytes =>
      digit (a.toNat / 4) :: digit (a.toNat % 4 * 16 + b.toNat / 16) ::
        digit (b.toNat % 16 * 4 + c.toNat / 64) :: digit (c.toNat % 64) :: encodeBytes bytes
  | [a, b] =>
      [digit (a.toNat / 4), digit (a.toNat % 4 * 16 + b.toNat / 16), digit (b.toNat % 16 * 4)]
  | [a] => [digit (a.toNat / 4), digit (a.toNat % 4 * 16)]
  | [] => []

/-- A single digit at the end is refused, and so are bits that are not zero where the
encoder leaves zeros. -/
def decodeChars : List Char → Option (List UInt8)
  | p :: q :: r :: s :: chars => do
      let p ← value p
      let q ← value q
      let r ← value r
      let s ← value s
      let bytes ← decodeChars chars
      return UInt8.ofNat (p * 4 + q / 16) :: UInt8.ofNat (q % 16 * 16 + r / 4) ::
        UInt8.ofNat (r % 4 * 64 + s) :: bytes
  | [p, q, r] => do
      let p ← value p
      let q ← value q
      let r ← value r
      if r % 4 = 0 then some [UInt8.ofNat (p * 4 + q / 16), UInt8.ofNat (q % 16 * 16 + r / 4)]
      else none
  | [p, q] => do
      let p ← value p
      let q ← value q
      if q % 16 = 0 then some [UInt8.ofNat (p * 4 + q / 16)] else none
  | [_] => none
  | [] => some []

def encode (bytes : ByteArray) : String := String.ofList (encodeBytes bytes.data.toList)

def decode (text : String) : Option ByteArray :=
  (decodeChars text.toList).map (fun bytes => ⟨bytes.toArray⟩)

/-! ## decoding undoes encoding -/

/-- A byte from a number that is the byte's. -/
theorem ofNat_eq {n : Nat} {b : UInt8} (h : n = b.toNat) : UInt8.ofNat n = b := by
  rw [h]
  exact UInt8.ofNat_toNat

theorem decodeChars_encodeBytes (bytes : List UInt8) :
    decodeChars (encodeBytes bytes) = some bytes := by
  induction bytes using encodeBytes.induct with
  | case1 a b c bytes ih =>
      have ha := a.toNat_lt
      have hb := b.toNat_lt
      have hc := c.toNat_lt
      simp only [encodeBytes, decodeChars, ih, value_digit (show a.toNat / 4 < 64 by omega),
        value_digit (show a.toNat % 4 * 16 + b.toNat / 16 < 64 by omega),
        value_digit (show b.toNat % 16 * 4 + c.toNat / 64 < 64 by omega),
        value_digit (show c.toNat % 64 < 64 by omega), Option.bind_eq_bind, Option.bind_some]
      rw [ofNat_eq (b := a) (by omega), ofNat_eq (b := b) (by omega), ofNat_eq (b := c) (by omega)]
      rfl
  | case2 a b =>
      have ha := a.toNat_lt
      have hb := b.toNat_lt
      have hlow : b.toNat % 16 * 4 % 4 = 0 := by omega
      simp only [encodeBytes, decodeChars, value_digit (show a.toNat / 4 < 64 by omega),
        value_digit (show a.toNat % 4 * 16 + b.toNat / 16 < 64 by omega),
        value_digit (show b.toNat % 16 * 4 < 64 by omega), Option.bind_eq_bind, Option.bind_some,
        if_pos hlow]
      rw [ofNat_eq (b := a) (by omega), ofNat_eq (b := b) (by omega)]
  | case3 a =>
      have ha := a.toNat_lt
      have hlow : a.toNat % 4 * 16 % 16 = 0 := by omega
      simp only [encodeBytes, decodeChars, value_digit (show a.toNat / 4 < 64 by omega),
        value_digit (show a.toNat % 4 * 16 < 64 by omega), Option.bind_eq_bind, Option.bind_some,
        if_pos hlow]
      rw [ofNat_eq (b := a) (by omega)]
  | case4 => rfl

-- the bytes of `ManMa`
example : encodeBytes [77, 97, 110, 77, 97] = "TWFuTWE".toList := by decide +kernel

theorem decode_encode (bytes : ByteArray) : decode (encode bytes) = some bytes := by
  rw [decode, encode, String.toList_ofList, decodeChars_encodeBytes]
  rfl

/-! ## the characters of a text -/

/-- A byte that uses neither of the last two digits, wherever it stands. -/
def Plain (b : UInt8) : Prop := b.toNat < 128 ∧ b.toNat % 64 < 62

theorem isAlphanum_of_mem_encodeBytes {bytes : List UInt8} (h : ∀ b ∈ bytes, Plain b) :
    ∀ c ∈ encodeBytes bytes, c.isAlphanum = true := by
  induction bytes using encodeBytes.induct with
  | case1 a b c bytes ih =>
      simp only [List.forall_mem_cons] at h
      obtain ⟨⟨ha, _⟩, ⟨hb, _⟩, ⟨hc, hlow⟩, hbytes⟩ := h
      simp only [encodeBytes, List.forall_mem_cons]
      exact ⟨isAlphanum_digit (by omega), isAlphanum_digit (by omega), isAlphanum_digit (by omega),
        isAlphanum_digit hlow, ih hbytes⟩
  | case2 a b =>
      simp only [List.forall_mem_cons] at h
      obtain ⟨⟨ha, _⟩, ⟨hb, _⟩, _⟩ := h
      simp only [encodeBytes, List.forall_mem_cons]
      exact ⟨isAlphanum_digit (by omega), isAlphanum_digit (by omega), isAlphanum_digit (by omega),
        by simp⟩
  | case3 a =>
      simp only [List.forall_mem_cons] at h
      obtain ⟨⟨ha, _⟩, _⟩ := h
      simp only [encodeBytes, List.forall_mem_cons]
      exact ⟨isAlphanum_digit (by omega), isAlphanum_digit (by omega), by simp⟩
  | case4 => simp [encodeBytes]

/-- A text of plain bytes is encoded in letters and digits. -/
theorem isAlphanum_of_mem_encode {bytes : ByteArray} (h : ∀ b ∈ bytes.data.toList, Plain b) :
    ∀ c ∈ (encode bytes).toList, c.isAlphanum = true := by
  rw [encode, String.toList_ofList]
  exact isAlphanum_of_mem_encodeBytes h

end Base64
