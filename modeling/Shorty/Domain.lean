import Shorty.Time

/-!
# Shorty.Domain

The domain layer: the short link, its statistics, the errors a store reports
and the contract every link store implements (`crates/domain/src/lib.rs`).

A link can be stored with any version, so `version` is the `i64` of the source.
Hits start at 0 and move by one per call, so they are an unbounded number here:
no run of fewer than 2^63 calls tells the difference.
-/

namespace Shorty

/-- A row identifier. -/
abbrev Uuid := Nat

/-! ## counting versions -/

/-- A version is counted on as a number but for the last one. -/
theorem toInt_succ {v : Int64} (h : v ≠ Int64.maxValue) : (v + 1).toInt = v.toInt + 1 := by
  have hne : v.toInt ≠ Int64.maxValue.toInt := fun heq => h (Int64.toInt_inj.mp heq)
  have hmax : Int64.maxValue.toInt = 2 ^ 63 - 1 := Int64.toInt_maxValue
  have hlt := v.toInt_lt
  have hge := v.le_toInt
  rw [Int64.toInt_add, Int64.toInt_one, Int.bmod_eq_of_le] <;> omega

theorem add_ofNat_succ (v : Int64) (n : Nat) : v + Int64.ofNat n + 1 = v + Int64.ofNat (n + 1) := by
  rw [Int64.ofNat_add, Int64.add_assoc]
  rfl

/-- Counting on is exact as long as the sum is an `i64`. -/
theorem toInt_add_ofNat {v : Int64} {n : Nat} (h : v.toInt + n < 2 ^ 63) :
    (v + Int64.ofNat n).toInt = v.toInt + n := by
  have hge := v.le_toInt
  rw [Int64.toInt_add, Int64.toInt_ofNat', Int64.size, Int.add_bmod_bmod, Int.bmod_eq_of_le] <;> omega

/-- Two counts that are less than a round apart show different versions. -/
theorem ofNat_eq_ofNat_iff {m n : Nat} (hle : m ≤ n) (hlt : n < m + 2 ^ 64) :
    Int64.ofNat m = Int64.ofNat n ↔ m = n := by
  constructor
  · intro h
    have hbmod := congrArg Int64.toInt h
    rw [Int64.toInt_ofNat', Int64.toInt_ofNat'] at hbmod
    have hmod := congrArg (· % ((Int64.size : Nat) : Int)) hbmod
    simp only [Int.bmod_emod] at hmod
    have hsize : Int64.size = 2 ^ 64 := rfl
    rw [hsize] at hmod
    omega
  · rintro rfl
    rfl

/-- The second version is the first, counted on at least once and at most `n` times. -/
def CountedOn (n : Nat) (v v' : Int64) : Prop := ∃ k, 0 < k ∧ k ≤ n ∧ v' = v + Int64.ofNat k

/-- Short of a whole round it is another version. -/
theorem CountedOn.ne {n : Nat} {v v' : Int64} (h : CountedOn n v v') (hn : n < 2 ^ 64) : v ≠ v' := by
  obtain ⟨k, hpos, hle, rfl⟩ := h
  intro heq
  have hzero : Int64.ofNat 0 = Int64.ofNat k := by
    rw [← Int64.add_right_inj v, ← heq]
    exact Int64.add_zero v
  have hk := (ofNat_eq_ofNat_iff (Nat.zero_le k) (by omega)).mp hzero
  omega

/-! ## links -/

/-- A short link, the main entity of the service. -/
structure ShortLink where
  id : Option Uuid
  code : String
  targetUrl : String
  createdAt : SystemTime
  updatedAt : SystemTime
  expiresAt : Option SystemTime
  version : Int64
deriving DecidableEq

namespace ShortLink

/-- A link created at `now`: no expiry, version 1. -/
def new (now : SystemTime) (code targetUrl : String) : ShortLink where
  id := none
  code := code
  targetUrl := targetUrl
  createdAt := now
  updatedAt := now
  expiresAt := none
  version := 1

def withExpiresAt (link : ShortLink) (expiresAt : SystemTime) : ShortLink :=
  { link with expiresAt := some expiresAt }

def isExpired (link : ShortLink) (now : SystemTime) : Bool :=
  link.expiresAt.any (fun exp => decide (exp ≤ now))

end ShortLink

/-- A link with the number of redirects it served. -/
structure LinkStats where
  link : ShortLink
  hits : Nat
deriving DecidableEq

/-- What can go wrong in a link store. -/
inductive RepoError where
  | codeTaken (code : String)
  | notFound (code : String)
  | versionConflict
  | unavailable
  | internal (message : String)
deriving DecidableEq

/-- The text of an error. -/
def RepoError.message : RepoError → String
  | .codeTaken code => "code '" ++ code ++ "' is already taken"
  | .notFound code => "link '" ++ code ++ "' not found"
  | .versionConflict => "version conflict"
  | .unavailable => "storage unavailable"
  | .internal _ => "internal error"

/-- A page of links and the cursor of the next one. -/
abbrev ListPage := List ShortLink × Option (String × String)

/-- The contract of a link store.  A method that reads the clock is given the
instant it reads; `list` answers `none` where it panics. -/
class LinkRepository (R : Type) where
  insert : SystemTime → ShortLink → R → Except RepoError Unit × R
  get : String → R → Except RepoError ShortLink × R
  update : SystemTime → String → String → Int64 → R → Except RepoError ShortLink × R
  remove : String → R → Except RepoError Unit × R
  recordHit : SystemTime → String → R → Except RepoError Nat × R
  stats : String → R → Except RepoError LinkStats × R
  list : SystemTime → Nat → Option (String × String) → R → Option (Except RepoError ListPage) × R
  purgeExpired : SystemTime → R → Nat × R

end Shorty
