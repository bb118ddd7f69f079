import Mathlib.Algebra.Ring.Int.Defs
import Mathlib.Algebra.Ring.Nat
import Mathlib.Data.Int.Order.Basic
import Mathlib.Order.Lattice

/-!
# Shorty.Time

`std::time::SystemTime` as the service uses it: a signed 64-bit number of
seconds since the Unix epoch plus nanoseconds, kept here as one number of
nanoseconds together with the range it can take.  Adding a duration is the one
operation that can leave the range; the source's `+` panics there, which
`addSecs` answers with `none`.
-/

namespace Shorty

/-- An instant of the system clock, in nanoseconds since the Unix epoch. -/
structure SystemTime where
  ns : Int
  inRange : -(2 ^ 63 * 10 ^ 9) ≤ ns ∧ ns < 2 ^ 63 * 10 ^ 9

namespace SystemTime

theorem ns_injective : Function.Injective ns := by
  rintro ⟨a, _⟩ ⟨b, _⟩ h
  cases h
  rfl

instance : LinearOrder SystemTime := LinearOrder.lift' ns ns_injective

theorem le_iff {t u : SystemTime} : t ≤ u ↔ t.ns ≤ u.ns := Iff.rfl

instance neZeroSecs : NeZero (2 ^ 63 : Nat) := ⟨by decide⟩

/-- `UNIX_EPOCH` plus a number of whole seconds. -/
def ofSecs (s : Fin (2 ^ 63)) : SystemTime where
  ns := s * 10 ^ 9
  inRange := by omega

def UNIX_EPOCH : SystemTime := ofSecs 0

/-- `t.duration_since(UNIX_EPOCH).unwrap_or_default().as_secs()`: whole seconds
since the epoch, and zero before it. -/
def secsSinceEpoch (t : SystemTime) : Nat := (t.ns / 10 ^ 9).toNat

/-- `t + Duration::from_secs(secs)`, `none` where the addition panics. -/
def addSecs (t : SystemTime) (secs : Nat) : Option SystemTime :=
  if h : t.ns + secs * 10 ^ 9 < 2 ^ 63 * 10 ^ 9 then
    some ⟨t.ns + secs * 10 ^ 9, by have := t.inRange; omega⟩
  else none

/-- The instant at microsecond precision, as a `TIMESTAMPTZ` column keeps it. -/
def truncMicros (t : SystemTime) : SystemTime where
  ns := t.ns - t.ns % 1000
  inRange := by have := t.inRange; omega

/-- `chrono::DateTime::from_timestamp(secs, 0)`: `none` past chrono's last year,
262142. -/
def fromTimestamp (secs : Nat) : Option SystemTime :=
  if h : secs ≤ 8210266876799 then some ⟨secs * 10 ^ 9, by omega⟩ else none

/-- An instant of whole microseconds is unchanged by the column's precision. -/
theorem le_truncMicros_iff {t u : SystemTime} (h : t.ns % 1000 = 0) :
    t ≤ u.truncMicros ↔ t ≤ u := by
  simp only [le_iff, truncMicros]
  omega

theorem truncMicros_ns_mod (t : SystemTime) : t.truncMicros.ns % 1000 = 0 := by
  simp only [truncMicros]
  omega

end SystemTime

end Shorty
