import Mathlib.Data.String.Basic
import Shorty.Postgres
import Shorty.Api.Error

/-!
# Shorty.Api.Dto

The wire format of the HTTP API (`api/dto.rs`): requests, the responses links
turn into, and the checks on what a client sends.

URL parsing belongs to the `url` crate, so the parser is a parameter; what the
crate documents of its results is carried by the type `Url`.
-/

namespace Shorty

/-- A parsed URL: its scheme and its serialization, which is not empty and has
no characters but visible ASCII. -/
structure Url where
  scheme : String
  asStr : String
  nonempty : 0 < asStr.length
  visible : ∀ c ∈ asStr.toList, 0x20 < c.toNat ∧ c.toNat < 0x7f

/-- The `url` crate: a text parses to a URL or to an error message. -/
structure UrlCrate where
  parse : String → Except String Url

structure CreateLinkRequest where
  targetUrl : String
  customCode : Option String
  ttlSeconds : Option Nat

structure UpdateLinkRequest where
  targetUrl : String
  version : Int64

/-- A link as the API shows it. -/
structure LinkResponse where
  code : String
  targetUrl : String
  createdAtUnix : Nat
  expiresAtUnix : Option Nat
  hits : Nat
  version : Int64
deriving DecidableEq

structure ListLinksResponse where
  links : List LinkResponse
  nextCursor : Option String
deriving DecidableEq

def unixSecs (t : SystemTime) : Nat := t.secsSinceEpoch

namespace LinkResponse

def ofLinkStats (stats : LinkStats) : LinkResponse where
  code := stats.link.code
  targetUrl := stats.link.targetUrl
  createdAtUnix := unixSecs stats.link.createdAt
  expiresAtUnix := stats.link.expiresAt.map unixSecs
  hits := stats.hits
  version := stats.link.version

/-- A bare link is shown without hits. -/
def ofShortLink (link : ShortLink) : LinkResponse := ofLinkStats ⟨link, 0⟩

end LinkResponse

def parseTargetUrl (urls : UrlCrate) (raw : String) : Except AppError Url :=
  match urls.parse raw with
  | .error e => .error (.validation ("invalid target_url: " ++ e)
      [{ field := "target_url", issue := "invalid url: " ++ e }])
  | .ok url =>
      if url.scheme = "http" ∨ url.scheme = "https" then .ok url
      else .error (.validation
        ("target_url must use http or https, got '" ++ url.scheme ++ "'")
        [{ field := "target_url"
           issue := "scheme must be http or https, got '" ++ url.scheme ++ "'" }])

theorem status_of_parseTargetUrl {urls : UrlCrate} {raw : String} {e : AppError}
    (h : parseTargetUrl urls raw = .error e) : e.status = 422 := by
  unfold parseTargetUrl at h
  split at h
  · cases h
    rfl
  · split at h
    · cases h
    · cases h
      rfl

/-- The characters of a custom code: `[a-zA-Z0-9_-]`. -/
def isCodeChar (c : Char) : Bool := c.isAlphanum || c = '_' || c = '-'

/-- The rules of a custom code.  The length is counted in bytes of UTF-8. -/
def validateCustomCode (code : String) : Except AppError Unit :=
  if ¬ (4 ≤ code.utf8ByteSize ∧ code.utf8ByteSize ≤ 32) then
    .error (.validation "custom_code must be 4..=32 characters long"
      [{ field := "custom_code"
         issue := "length is " ++ toString code.utf8ByteSize ++ " characters, expected 4..=32" }])
  else if ¬ code.toList.all isCodeChar then
    .error (.validation "custom_code may contain only [a-zA-Z0-9_-]"
      [{ field := "custom_code", issue := "contains invalid characters" }])
  else .ok ()

/-- A time to live as an instant; `none` where adding it to the clock panics. -/
def expiresAtFromTtl (now : SystemTime) :
    Option Nat → Option (Except AppError (Option SystemTime))
  | none => some (.ok none)
  | some secs =>
      if secs = 0 then
        some (.error (.validation "ttl_seconds must be greater than zero"
          [{ field := "ttl_seconds", issue := "must be greater than zero" }]))
      else if secs < 60 then
        some (.error (.validation "ttl_seconds must be at least 60 seconds"
          [{ field := "ttl_seconds"
             issue := "value is " ++ toString secs ++ " seconds, minimum is 60" }]))
      else (now.addSecs secs).map (fun t => .ok (some t))

/-! ## what the checks guarantee -/

/-- An accepted code is a list of code characters of a bounded length. -/
theorem validateCustomCode_eq_ok_iff {code : String} : validateCustomCode code = .ok () ↔
    (4 ≤ code.utf8ByteSize ∧ code.utf8ByteSize ≤ 32) ∧ ∀ c ∈ code.toList, isCodeChar c = true := by
  unfold validateCustomCode
  split
  · rename_i h
    simp [h]
  · rename_i h
    split
    · rename_i hchars
      constructor
      · intro heq
        cases heq
      · rintro ⟨_, hall⟩
        exact absurd (List.all_eq_true.mpr hall) hchars
    · rename_i hchars
      rw [Classical.not_not] at h hchars
      exact ⟨fun _ => ⟨h, List.all_eq_true.mp hchars⟩, fun _ => rfl⟩

theorem isCodeChar_of_validateCustomCode {code : String} (h : validateCustomCode code = .ok ()) :
    ∀ c ∈ code.toList, isCodeChar c = true := (validateCustomCode_eq_ok_iff.mp h).2

/-- A time to live below a minute is a validation error. -/
theorem expiresAtFromTtl_short {ttl : Nat} (now : SystemTime) (h : ttl < 60) :
    ∃ message details, expiresAtFromTtl now (some ttl) = some (.error (.validation message details)) := by
  unfold expiresAtFromTtl
  by_cases hz : ttl = 0
  · exact ⟨_, _, if_pos hz⟩
  · simp [hz, h]

theorem expiresAtFromTtl_long {now : SystemTime} {ttl : Nat} (h : ¬ ttl < 60) :
    expiresAtFromTtl now (some ttl) = (now.addSecs ttl).map (fun t => .ok (some t)) := by
  have hz : ttl ≠ 0 := by omega
  simp [expiresAtFromTtl, hz, h]

/-- A link expires exactly when a time to live was asked for. -/
theorem isSome_of_expiresAtFromTtl {now : SystemTime} {ttl : Option Nat}
    {expiresAt : Option SystemTime} (h : expiresAtFromTtl now ttl = some (.ok expiresAt)) :
    expiresAt.isSome = ttl.isSome := by
  cases ttl with
  | none =>
      simp only [expiresAtFromTtl, Option.some.injEq, Except.ok.injEq] at h
      simp [← h]
  | some secs =>
      by_cases hshort : secs < 60
      · obtain ⟨message, details, herr⟩ := expiresAtFromTtl_short now hshort
        rw [herr] at h
        simp at h
      · rw [expiresAtFromTtl_long hshort] at h
        obtain ⟨t, _, ht⟩ := Option.map_eq_some_iff.mp h
        simp only [Except.ok.injEq] at ht
        simp [← ht]

/-- Letters and decimal digits, by number. -/
theorem toNat_of_isAlphanum {c : Char} (h : c.isAlphanum = true) :
    65 ≤ c.toNat ∧ c.toNat ≤ 90 ∨ 97 ≤ c.toNat ∧ c.toNat ≤ 122 ∨ 48 ≤ c.toNat ∧ c.toNat ≤ 57 := by
  delta Char.isAlphanum Char.isAlpha Char.isUpper Char.isLower Char.isDigit at h
  simp only [Bool.or_eq_true, Bool.and_eq_true, decide_eq_true_eq, ge_iff_le,
    UInt32.le_iff_toNat_le] at h
  rcases h with (hupper | hlower) | hdigit
  · exact Or.inl hupper
  · exact Or.inr (Or.inl hlower)
  · exact Or.inr (Or.inr hdigit)

theorem isCodeChar_cases {c : Char} (h : isCodeChar c = true) :
    c.isAlphanum = true ∨ c = '_' ∨ c = '-' := by
  simpa [isCodeChar, or_assoc] using h

/-- Code characters are visible ASCII. -/
theorem toNat_of_isCodeChar {c : Char} (h : isCodeChar c = true) :
    0x20 < c.toNat ∧ c.toNat < 0x7f := by
  rcases isCodeChar_cases h with halnum | rfl | rfl
  · have hnum := toNat_of_isAlphanum halnum
    omega
  · decide
  · decide

/-- ASCII characters take one byte. -/
theorem utf8Size_eq_one {c : Char} (h : c.toNat < 0x80) : c.utf8Size = 1 := by
  have hle : c.val ≤ 0x7f := by
    rw [UInt32.le_iff_toNat_le]
    exact Nat.le_of_lt_succ h
  simp [Char.utf8Size, hle]

/-- A text of one-byte characters is as long in bytes as in characters. -/
theorem utf8ByteSize_eq_length {s : String} (h : ∀ c ∈ s.toList, c.toNat < 0x7f) :
    s.utf8ByteSize = s.length := by
  have hlist : ∀ l : List Char, (∀ c ∈ l, c.toNat < 0x7f) →
      (String.ofList l).utf8ByteSize = l.length := by
    intro l hl
    induction l with
    | nil => rfl
    | cons c l ih =>
        have hsplit : String.ofList (c :: l) = String.singleton c ++ String.ofList l := by
          rw [← String.toList_inj]
          simp
        have hsize : c.utf8Size = 1 :=
          utf8Size_eq_one (Nat.lt_succ_of_lt (hl c List.mem_cons_self))
        rw [hsplit, String.utf8ByteSize_append, String.utf8ByteSize_singleton, hsize,
          ih (fun c' hc' => hl c' (List.mem_cons_of_mem c hc')), List.length_cons]
        omega
  have hs := hlist s.toList h
  rwa [String.ofList_toList, String.length_toList] at hs

/-- An accepted code has four to thirty-two characters. -/
theorem length_of_validateCustomCode {code : String} (h : validateCustomCode code = .ok ()) :
    4 ≤ code.length ∧ code.length ≤ 32 := by
  obtain ⟨hsize, hchars⟩ := validateCustomCode_eq_ok_iff.mp h
  rwa [utf8ByteSize_eq_length (fun c hc => (toNat_of_isCodeChar (hchars c hc)).2)] at hsize

/-- A code with an empty text is too short. -/
theorem ne_empty_of_validateCustomCode {code : String} (h : validateCustomCode code = .ok ()) :
    code ≠ "" := by
  rintro rfl
  exact absurd (validateCustomCode_eq_ok_iff.mp h).1.1 (by decide)

theorem isText_asStr (url : Url) : isText url.asStr = true := by
  refine decide_eq_true (fun hmem => ?_)
  have hvisible := (url.visible _ hmem).1
  exact absurd hvisible (by decide)

end Shorty
