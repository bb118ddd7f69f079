import Shorty.Stats.Window

/-!
# Shorty.Stats.Overflow

The arithmetic of a hit on 64-bit words.  `recordHitChecked` fails where a build with
overflow checks panics, and where one without them goes on with a wrong number.  What
rules that out is the sum: between one emptied cell and the next it is that of the cells,
so it can give up any of them, and it is never more than the number of hits.  A hit then
does what `recordHit` says, whatever the clock does.
-/

namespace Shorty

theorem addU64_of_lt {a b : Nat} (h : a + b < 2 ^ 64) : addU64 a b = some (a + b) := if_pos h

theorem subU64_of_le {a b : Nat} (h : b ≤ a) : subU64 a b = some (a - b) := if_pos h

/-- The clock as the source reads it is a word, with room to spare. -/
theorem SystemTime.secsSinceEpoch_lt (t : SystemTime) : t.secsSinceEpoch < 2 ^ 63 := by
  have := t.inRange
  unfold SystemTime.secsSinceEpoch
  omega

namespace SlidingWindowStats

/-- A new window after some hits. -/
def recordAllChecked (times : List SystemTime) : Option SlidingWindowStats :=
  Run.reach? recordHitChecked new times

variable {s : SlidingWindowStats}

/-! ## one hit -/

/-- A cell is part of the sum ... -/
theorem SumsUp.hitsAt_le (h : SumsUp s) (sec : Nat) : s.hitsAt sec ≤ s.cachedSum := by
  rw [h.cachedSum_eq]
  exact Ring.le_total s.buffer (cell sec)

/-- ... so the sum can give it up. -/
theorem SumsUp.evictChecked (h : SumsUp s) (sec : Nat) : s.evictChecked sec = some (s.evict sec) := by
  rw [SlidingWindowStats.evictChecked, subU64_of_le (h.hitsAt_le sec)]
  rfl

/-- The loop breaks the sum and restores it cell by cell. -/
theorem SumsUp.foldlM_evictChecked (h : SumsUp s) (secs : List Nat) :
    secs.foldlM SlidingWindowStats.evictChecked s = some (secs.foldl SlidingWindowStats.evict s) :=
  Run.reach?_eq_some (fun _ s => SumsUp s) (fun sec _ _ h => ⟨h.evictChecked sec, h.evict sec⟩) h

theorem SumsUp.advanceChecked (h : SumsUp s) (hlast : s.lastUpdateSec < 2 ^ 63) (nowSec : Nat) :
    s.advanceChecked nowSec = some (s.advance nowSec) := by
  unfold SlidingWindowStats.advanceChecked SlidingWindowStats.advance
  rw [addU64_of_lt (by omega), addU64_of_lt (by omega)]
  simp only [Option.bind_eq_bind, Option.bind_some]
  split
  · rfl
  · split
    · rw [h.foldlM_evictChecked, show nowSec + 1 - (s.lastUpdateSec + 1) = nowSec - s.lastUpdateSec by omega]
    · rfl

/-- While the hits can be counted, so can everything else. -/
theorem SumsUp.recordHitChecked (h : SumsUp s) (hlast : s.lastUpdateSec < 2 ^ 63)
    (htotal : s.totalHits + 1 < 2 ^ 64) (now : SystemTime) :
    s.recordHitChecked now = some (s.recordHit now) := by
  have hadvance := h.advance now.secsSinceEpoch
  have hsame := totalHits_advance s now.secsSinceEpoch
  have hsum := hadvance.cachedSum_le
  have hcell : (s.advance now.secsSinceEpoch).buffer[cell now.secsSinceEpoch] ≤
      (s.advance now.secsSinceEpoch).cachedSum := hadvance.hitsAt_le now.secsSinceEpoch
  simp only [SlidingWindowStats.recordHitChecked, h.advanceChecked hlast, Option.bind_eq_bind,
    Option.bind_some]
  rw [addU64_of_lt (by omega), addU64_of_lt (by omega), addU64_of_lt (by omega)]
  rfl

/-- The hit that no longer fits the total overflows it. -/
theorem SumsUp.recordHitChecked_eq_none (h : SumsUp s) (hlast : s.lastUpdateSec < 2 ^ 63)
    (htotal : ¬ s.totalHits + 1 < 2 ^ 64) (now : SystemTime) : s.recordHitChecked now = none := by
  have hfull : addU64 s.totalHits 1 = none := if_neg htotal
  simp [SlidingWindowStats.recordHitChecked, h.advanceChecked hlast, hfull]

/-! ## all hits -/

/-- A window that has room for some more hits. -/
structure Roomy (times : List SystemTime) (s : SlidingWindowStats) : Prop where
  sumsUp : SumsUp s
  lastUpdateSec_lt : s.lastUpdateSec < 2 ^ 63
  totalHits_lt : s.totalHits + times.length < 2 ^ 64

theorem Roomy.recordHit {now : SystemTime} {times : List SystemTime} (h : Roomy (now :: times) s) :
    s.recordHitChecked now = some (s.recordHit now) ∧ Roomy times (s.recordHit now) := by
  have hroom := h.totalHits_lt
  rw [List.length_cons] at hroom
  constructor
  · exact h.sumsUp.recordHitChecked h.lastUpdateSec_lt (by omega) now
  · constructor
    · exact h.sumsUp.recordHit now
    · exact now.secsSinceEpoch_lt
    · rw [totalHits_recordHit]
      omega

theorem roomy_new {times : List SystemTime} (h : times.length < 2 ^ 64) : Roomy times new where
  sumsUp := sumsUp_new
  lastUpdateSec_lt := by decide
  totalHits_lt := by simpa using h

theorem recordAllChecked_eq_some {times : List SystemTime} (h : times.length < 2 ^ 64) :
    recordAllChecked times = some (recordAll times) :=
  Run.reach?_eq_some Roomy (fun _ _ _ hroomy => hroomy.recordHit) (roomy_new h)

theorem lastUpdateSec_recordAll_lt (times : List SystemTime) :
    (recordAll times).lastUpdateSec < 2 ^ 63 := by
  induction times using List.reverseRecOn with
  | nil => decide
  | append_singleton times now _ =>
      rw [recordAll_append, lastUpdateSec_recordHit]
      exact now.secsSinceEpoch_lt

/-- It is the number of hits alone that the arithmetic cannot bear. -/
theorem isSome_recordAllChecked_iff (times : List SystemTime) :
    (recordAllChecked times).isSome = true ↔ times.length < 2 ^ 64 := by
  constructor
  · intro hsome
    by_contra hlong
    obtain ⟨front, rest, rfl, hfront⟩ : ∃ front rest, times = front ++ rest ∧ front.length = 2 ^ 64 - 1 :=
      ⟨times.take (2 ^ 64 - 1), times.drop (2 ^ 64 - 1), (List.take_append_drop _ _).symm, by
        rw [List.length_take]
        omega⟩
    cases rest with
    | nil =>
        rw [List.append_nil] at hlong
        omega
    | cons now rest =>
        have hnone : (recordAll front).recordHitChecked now = none := by
          apply (sumsUp_recordAll front).recordHitChecked_eq_none (lastUpdateSec_recordAll_lt front)
          rw [totalHits_recordAll]
          omega
        have hfirst : recordAllChecked front = some (recordAll front) :=
          recordAllChecked_eq_some (by omega)
        rw [recordAllChecked, Run.reach?_append, ← recordAllChecked, hfirst, Option.bind_some,
          Run.reach?_cons, hnone] at hsome
        cases hsome
  · intro h
    rw [recordAllChecked_eq_some h]
    rfl

/-- **Arithmetic of the ring**: in a run of fewer than 2^64 hits, whatever their times,
no operation of any hit overflows, and after each hit the cached sum is the sum of the
cells and at most the total. -/
theorem recordAllChecked_safe (times : List SystemTime) (h : times.length < 2 ^ 64) :
    ∀ done, done <+: times → ∃ s, recordAllChecked done = some s ∧
      s.cachedSum = Ring.total s.buffer ∧ s.cachedSum ≤ s.totalHits := by
  intro done hdone
  have hlength := hdone.length_le
  have hsum := sumsUp_recordAll done
  exact ⟨recordAll done, recordAllChecked_eq_some (by omega), hsum.cachedSum_eq, hsum.cachedSum_le⟩

/-- The last instant before the epoch. -/
def beforeEpoch : SystemTime where
  ns := -1
  inRange := by omega

/-- A clock that jumps to its last second and then before the epoch. -/
theorem recordAllChecked_safe_jumps :
    ∃ s, recordAllChecked [.ofSecs 30, .ofSecs 9223372036854775807, beforeEpoch] = some s ∧
      s.cachedSum = Ring.total s.buffer ∧ s.cachedSum ≤ s.totalHits :=
  recordAllChecked_safe [.ofSecs 30, .ofSecs 9223372036854775807, beforeEpoch] (by decide) _
    (List.prefix_refl _)

end SlidingWindowStats

end Shorty
