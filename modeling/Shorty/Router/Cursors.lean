import Shorty.Lib.Base64
import Shorty.InMemory.Listing
import Shorty.Api.Spec
import Shorty.Router

/-!
# Shorty.Router.Cursors

The cursor of a listing on its way through a URL.  `list_links` prints it as a JSON pair
in base64, whose alphabet has two characters that mean something else in a query; but
the texts of a cursor have no byte that is encoded to either of them, at any place of a
group of three.  So a client can paste a cursor as it is, and gets the page after it.
-/

namespace Shorty

/-! ## texts as bytes -/

/-- The bytes of an ASCII text are the numbers of its characters. -/
theorem exists_mem_of_mem_toUTF8 {s : String} (h : ∀ c ∈ s.toList, c.toNat < 0x80) {b : UInt8}
    (hb : b ∈ s.toUTF8.data.toList) : ∃ c ∈ s.toList, b.toNat = c.toNat := by
  rw [String.toUTF8_eq_toByteArray, ← String.utf8Encode_toList, List.utf8Encode,
    List.toList_data_toByteArray, List.mem_flatMap] at hb
  obtain ⟨c, hc, hmem⟩ := hb
  rw [String.utf8EncodeChar_eq_singleton (utf8Size_eq_one (h c hc)), List.mem_singleton] at hmem
  have hsmall : c.toNat < 2 ^ 8 := (h c hc).trans (by decide)
  exact ⟨c, hc, by rw [hmem]; exact Nat.mod_eq_of_lt hsmall⟩

theorem fromUTF8?_data_toUTF8 (s : String) :
    String.fromUTF8? ⟨s.toUTF8.data.toList.toArray⟩ = some s := by
  rw [String.toUTF8_eq_toByteArray, Array.toArray_toList, String.fromUTF8?, dif_pos s.isValidUTF8]
  rfl

namespace Router

/-- The value of a parameter of a query, form-urlencoded: a plus sign is a space, and a
percent sign with two digits the byte they are; `none` where it is not UTF-8. -/
def formDecode (s : String) : Option String :=
  String.fromUTF8?
    ⟨(percentBytes (s.toUTF8.data.toList.map (fun b => if b = 43 then 32 else b))).toArray⟩

theorem percentBytes_of_not_mem {bytes : List UInt8} (h : 37 ∉ bytes) :
    percentBytes bytes = bytes := by
  induction bytes with
  | nil => rfl
  | cons b bytes ih =>
      rw [List.mem_cons, not_or] at h
      obtain ⟨hb, hbytes⟩ := h
      rw [percentBytes, ih hbytes]
      rintro _ _ _ rfl
      exact absurd rfl hb

/-- Letters and digits mean themselves in a query. -/
theorem formDecode_of_isAlphanum {s : String} (h : ∀ c ∈ s.toList, c.isAlphanum = true) :
    formDecode s = some s := by
  have hascii : ∀ c ∈ s.toList, c.toNat < 0x80 := fun c hc => by
    have hnum := toNat_of_isAlphanum (h c hc)
    omega
  have hbyte : ∀ b ∈ s.toUTF8.data.toList, b ≠ 43 ∧ b ≠ 37 := by
    intro b hb
    obtain ⟨c, hc, heq⟩ := exists_mem_of_mem_toUTF8 hascii hb
    have hnum := toNat_of_isAlphanum (h c hc)
    constructor
    · rintro rfl
      change 43 = c.toNat at heq
      omega
    · rintro rfl
      change 37 = c.toNat at heq
      omega
  have hplus : s.toUTF8.data.toList.map (fun b => if b = 43 then 32 else b) =
      s.toUTF8.data.toList := by
    rw [List.map_congr_left (fun b hb => if_neg (hbyte b hb).1), List.map_id']
  rw [formDecode, hplus, percentBytes_of_not_mem (fun hmem => (hbyte 37 hmem).2 rfl)]
  exact fromUTF8?_data_toUTF8 s

/-! ## the texts of a cursor -/

/-- The characters of RFC 3339 timestamps. -/
def isRfc3339Char (c : Char) : Bool :=
  c.isDigit || c = '-' || c = 'T' || c = ':' || c = '.' || c = '+' || c = 'Z'

/-- chrono prints RFC 3339 timestamps in their own characters. -/
def PrintsRfc3339Chars (chrono : Chrono) : Prop :=
  ∀ t, ∀ c ∈ (chrono.toRfc3339 t).toList, isRfc3339Char c = true

/-- A timestamp in a cursor of one of the two stores. -/
def IsTimestamp (chrono : Chrono) (ts : String) : Prop :=
  (∃ link : ShortLink, ts = link.cursorTs) ∨ ∃ t, ts = chrono.toRfc3339 t

/-- A code that was chosen and accepted, or generated. -/
def IsCode (code : String) : Prop :=
  validateCustomCode code = .ok () ∨ ∀ c ∈ code.toList, c ∈ nanoidAlphabet

/-- One-byte characters that JSON does not escape and whose last six bits are not the
number of a digit other than a letter or a decimal digit. -/
def IsCursorChar (c : Char) : Prop :=
  (0x20 ≤ c.toNat ∧ c ≠ '"' ∧ c ≠ '\\') ∧ c.toNat < 128 ∧ c.toNat % 64 < 62

theorem isCursorChar_of_isAlphanum {c : Char} (h : c.isAlphanum = true) : IsCursorChar c := by
  have hnum := toNat_of_isAlphanum h
  refine ⟨⟨by omega, ?_, ?_⟩, by omega, by omega⟩
  · rintro rfl
    exact absurd h (by decide)
  · rintro rfl
    exact absurd h (by decide)

theorem isCursorChar_of_isCodeChar {c : Char} (h : isCodeChar c = true) : IsCursorChar c := by
  rcases isCodeChar_cases h with halnum | rfl | rfl
  · exact isCursorChar_of_isAlphanum halnum
  · exact ⟨by decide, by decide, by decide⟩
  · exact ⟨by decide, by decide, by decide⟩

theorem isCursorChar_of_isRfc3339Char {c : Char} (h : isRfc3339Char c = true) : IsCursorChar c := by
  simp only [isRfc3339Char, Bool.or_eq_true, decide_eq_true_eq] at h
  rcases h with (((((hdigit | rfl) | rfl) | rfl) | rfl) | rfl) | rfl
  · exact isCursorChar_of_isAlphanum (by simp [Char.isAlphanum, hdigit])
  all_goals exact ⟨by decide, by decide, by decide⟩

theorem isCursorChar_of_isTimestamp {chrono : Chrono} (hchrono : PrintsRfc3339Chars chrono)
    {ts : String} (h : IsTimestamp chrono ts) : ∀ c ∈ ts.toList, IsCursorChar c := by
  intro c hc
  rcases h with ⟨link, rfl⟩ | ⟨t, rfl⟩
  · have hdigit := InMemoryRepo.isDigit_of_mem_cursorTs hc
    exact isCursorChar_of_isAlphanum (by simp [Char.isAlphanum, hdigit])
  · exact isCursorChar_of_isRfc3339Char (hchrono t c hc)

theorem isCursorChar_of_isCode {code : String} (h : IsCode code) :
    ∀ c ∈ code.toList, IsCursorChar c := by
  intro c hc
  rcases h with hvalid | halphabet
  · exact isCursorChar_of_isCodeChar (isCodeChar_of_validateCustomCode hvalid c hc)
  · have hall : nanoidAlphabet.all isCodeChar = true := by decide
    exact isCursorChar_of_isCodeChar (List.all_eq_true.mp hall c (halphabet c hc))

/-! ## base64 and JSON -/

/-- A text in which JSON escapes nothing. -/
def NeedsNoEscape (s : String) : Prop :=
  ∀ c ∈ s.toList, 0x20 ≤ c.toNat ∧ c ≠ '"' ∧ c ≠ '\\'

/-- A pair of such texts in compact form. -/
def compactPair (a b : String) : String := "[\"" ++ a ++ "\",\"" ++ b ++ "\"]"

/-- base64 is that of RFC 4648 without padding, and JSON is printed in compact form and
read back. -/
structure Standard (crates : Crates) : Prop where
  base64Encode : ∀ bytes, crates.base64Encode bytes = Base64.encode bytes
  base64Decode : ∀ text, crates.base64Decode text = Base64.decode text
  jsonToString : ∀ a b, NeedsNoEscape a → NeedsNoEscape b →
    crates.jsonToString (a, b) = compactPair a b
  jsonFromStr : ∀ a b, NeedsNoEscape a → NeedsNoEscape b →
    crates.jsonFromStr (compactPair a b) = some (a, b)

/-- The punctuation of a pair is plain as well. -/
theorem plain_of_mem_compactPair {a b : String} (ha : ∀ c ∈ a.toList, IsCursorChar c)
    (hb : ∀ c ∈ b.toList, IsCursorChar c) :
    ∀ c ∈ (compactPair a b).toList, c.toNat < 128 ∧ c.toNat % 64 < 62 := by
  have hpunct : ∀ s : String, s.toList.all (fun c => c.toNat < 128 ∧ c.toNat % 64 < 62) = true →
      ∀ c ∈ s.toList, c.toNat < 128 ∧ c.toNat % 64 < 62 :=
    fun s h c hc => of_decide_eq_true (List.all_eq_true.mp h c hc)
  intro c hc
  simp only [compactPair, String.toList_append, List.mem_append] at hc
  rcases hc with (((hc | hc) | hc) | hc) | hc
  · exact hpunct "[\"" (by decide) c hc
  · exact (ha c hc).2
  · exact hpunct "\",\"" (by decide) c hc
  · exact (hb c hc).2
  · exact hpunct "\"]" (by decide) c hc

theorem isAlphanum_of_mem_encode_toUTF8 {text : String}
    (h : ∀ c ∈ text.toList, c.toNat < 128 ∧ c.toNat % 64 < 62) :
    ∀ c ∈ (Base64.encode text.toUTF8).toList, c.isAlphanum = true := by
  apply Base64.isAlphanum_of_mem_encode
  intro b hb
  obtain ⟨c, hc, heq⟩ := exists_mem_of_mem_toUTF8 (fun c hc => (h c hc).1) hb
  rw [Base64.Plain, heq]
  exact h c hc

/-- **Cursors in a URL**: the cursor that a listing hands out is made of letters and
digits, so it means itself in a query, and it is read as what it was made of. -/
theorem encodeCursor_pasteable (crates : Crates) (chrono : Chrono) (hcrates : Standard crates)
    (hchrono : PrintsRfc3339Chars chrono) (ts code : String) (hts : IsTimestamp chrono ts)
    (hcode : IsCode code) :
    (∀ c ∈ (Api.encodeCursor crates (ts, code)).toList, c.isAlphanum = true) ∧
      formDecode (Api.encodeCursor crates (ts, code)) = some (Api.encodeCursor crates (ts, code)) ∧
      Api.decodeCursor crates (Api.encodeCursor crates (ts, code)) = some (ts, code) := by
  have htsChars := isCursorChar_of_isTimestamp hchrono hts
  have hcodeChars := isCursorChar_of_isCode hcode
  have hts' : NeedsNoEscape ts := fun c hc => (htsChars c hc).1
  have hcode' : NeedsNoEscape code := fun c hc => (hcodeChars c hc).1
  have hjson := hcrates.jsonToString ts code hts' hcode'
  have halnum : ∀ c ∈ (Api.encodeCursor crates (ts, code)).toList, c.isAlphanum = true := by
    rw [Api.encodeCursor, hcrates.base64Encode, hjson]
    exact isAlphanum_of_mem_encode_toUTF8 (plain_of_mem_compactPair htsChars hcodeChars)
  refine ⟨halnum, formDecode_of_isAlphanum halnum, Api.decodeCursor_encodeCursor ?_ ?_⟩
  · intro bytes
    rw [hcrates.base64Encode, hcrates.base64Decode, Base64.decode_encode]
  · rw [hjson, hcrates.jsonFromStr ts code hts' hcode']

/-! ## crates to try it on -/

theorem standard_cursorCrates : Standard Api.cursorCrates where
  base64Encode _ := rfl
  base64Decode _ := rfl
  jsonToString _ _ := Json.printPair_of_plain
  jsonFromStr a b ha hb := by
    have hread : Api.cursorCrates.jsonFromStr = Json.readPair := rfl
    rw [hread, compactPair, ← Json.printPair_of_plain ha hb, Json.readPair_printPair]

/-- A chrono that knows the epoch. -/
def epochChrono : Chrono where
  toRfc3339 _ := "1970-01-01T00:00:00+00:00"
  parseFromRfc3339 text :=
    if text = "1970-01-01T00:00:00+00:00" then some .UNIX_EPOCH else none

theorem printsRfc3339Chars_epochChrono : PrintsRfc3339Chars epochChrono := by
  have hall : "1970-01-01T00:00:00+00:00".toList.all isRfc3339Char = true := by decide
  exact fun _ => List.all_eq_true.mp hall

theorem encodeCursor_pasteable_epoch :
    (∀ c ∈ (Api.encodeCursor Api.cursorCrates ("1970-01-01T00:00:00+00:00", "promo2026")).toList,
        c.isAlphanum = true) ∧
      formDecode (Api.encodeCursor Api.cursorCrates ("1970-01-01T00:00:00+00:00", "promo2026")) =
        some (Api.encodeCursor Api.cursorCrates ("1970-01-01T00:00:00+00:00", "promo2026")) ∧
      Api.decodeCursor Api.cursorCrates
          (Api.encodeCursor Api.cursorCrates ("1970-01-01T00:00:00+00:00", "promo2026")) =
        some ("1970-01-01T00:00:00+00:00", "promo2026") :=
  encodeCursor_pasteable Api.cursorCrates epochChrono standard_cursorCrates
    printsRfc3339Chars_epochChrono _ _ (Or.inr ⟨.UNIX_EPOCH, rfl⟩) (Or.inl rfl)

end Router

end Shorty
