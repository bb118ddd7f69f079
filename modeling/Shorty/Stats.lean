import Mathlib.Data.List.Sort
import Shorty.Lib.Keyed
import Shorty.Time

/-!
# Shorty.Stats

Redirect statistics with a sliding window (`crates/domain/src/stats.rs`): a
ring buffer of sixty one-second cells per link, and the storage that keeps one
window per code.

The storage hands out shared handles (`Arc<RwLock<_>>`) to its windows, so
writing through a handle changes the stored window; `StatsStorage.write` is
that write.
-/

namespace Shorty

/-- `a + b` on `u64`. -/
def addU64 (a b : Nat) : Option Nat := if a + b < 2 ^ 64 then some (a + b) else none

/-- `a - b` on `u64`. -/
def subU64 (a b : Nat) : Option Nat := if b ≤ a then some (a - b) else none

/-- The sliding window of one link. -/
structure SlidingWindowStats where
  /-- Hits per second of the window; a second `s` lives in cell `s % 60`. -/
  buffer : Vector Nat 60
  lastUpdateSec : Nat
  cachedSum : Nat
  totalHits : Nat
deriving DecidableEq

namespace SlidingWindowStats

def new : SlidingWindowStats where
  buffer := Vector.replicate 60 0
  lastUpdateSec := 0
  cachedSum := 0
  totalHits := 0

/-- The cell of a second. -/
def cell (sec : Nat) : Fin 60 := ⟨sec % 60, Nat.mod_lt _ (by decide)⟩

/-- Empty the cell of one second that has passed. -/
def evict (s : SlidingWindowStats) (sec : Nat) : SlidingWindowStats :=
  { s with
    cachedSum := s.cachedSum - s.buffer[cell sec]
    buffer := s.buffer.set (cell sec) 0 }

/-- The hits in the cell of a second. -/
abbrev hitsAt (s : SlidingWindowStats) (sec : Nat) : Nat := s.buffer[cell sec]

/-- The window moved on to `nowSec`: dropped whole after more than sixty
seconds, else emptied second by second.  A clock that stepped back changes
nothing here. -/
def advance (s : SlidingWindowStats) (nowSec : Nat) : SlidingWindowStats :=
  if s.lastUpdateSec + 60 < nowSec then
    { s with buffer := Vector.replicate 60 0, cachedSum := 0 }
  else if s.lastUpdateSec < nowSec then
    (List.range' (s.lastUpdateSec + 1) (nowSec - s.lastUpdateSec)).foldl evict s
  else s

/-- Record a hit at `now`. -/
def recordHit (s : SlidingWindowStats) (now : SystemTime) : SlidingWindowStats :=
  let nowSec := now.secsSinceEpoch
  let s := s.advance nowSec
  { buffer := s.buffer.set (cell nowSec) (s.buffer[cell nowSec] + 1)
    cachedSum := s.cachedSum + 1
    totalHits := s.totalHits + 1
    lastUpdateSec := nowSec }

/-! ## with overflow checks

The same on 64-bit words; `none` where an operation leaves them and panics. -/

/-- Empty the cell of one second that has passed: first the sum, then the cell. -/
def evictChecked (s : SlidingWindowStats) (sec : Nat) : Option SlidingWindowStats := do
  let cachedSum ← subU64 s.cachedSum s.buffer[cell sec]
  return { s with
    cachedSum := cachedSum
    buffer := s.buffer.set (cell sec) 0 }

/-- The window moved on to `nowSec`. -/
def advanceChecked (s : SlidingWindowStats) (nowSec : Nat) : Option SlidingWindowStats := do
  let horizon ← addU64 s.lastUpdateSec 60
  if horizon < nowSec then
    return { s with buffer := Vector.replicate 60 0, cachedSum := 0 }
  else if s.lastUpdateSec < nowSec then
    let first ← addU64 s.lastUpdateSec 1
    (List.range' first (nowSec + 1 - first)).foldlM evictChecked s
  else
    return s

/-- Record a hit at `now`; `none` where an operation overflows. -/
def recordHitChecked (s : SlidingWindowStats) (now : SystemTime) : Option SlidingWindowStats := do
  let nowSec := now.secsSinceEpoch
  let s ← s.advanceChecked nowSec
  let hits ← addU64 s.buffer[cell nowSec] 1
  let cachedSum ← addU64 s.cachedSum 1
  let totalHits ← addU64 s.totalHits 1
  return { buffer := s.buffer.set (cell nowSec) hits
           cachedSum := cachedSum
           totalHits := totalHits
           lastUpdateSec := nowSec }

/-! ## reading -/

/-- The hits of the last sixty seconds, read at `now`. -/
def getLast60s (s : SlidingWindowStats) (now : SystemTime) : Nat :=
  let nowSec := now.secsSinceEpoch
  if s.lastUpdateSec < nowSec then
    if 60 ≤ nowSec - s.lastUpdateSec then 0 else s.cachedSum
  else s.cachedSum

/-- All hits ever recorded. -/
def getTotal (s : SlidingWindowStats) : Nat := s.totalHits

@[simp] theorem totalHits_new : new.totalHits = 0 := rfl

theorem totalHits_foldl_evict (secs : List Nat) (s : SlidingWindowStats) :
    (secs.foldl evict s).totalHits = s.totalHits := by
  induction secs generalizing s with
  | nil => rfl
  | cons sec secs ih => rw [List.foldl_cons, ih, evict]

/-- Moving the window does not touch the total. -/
@[simp] theorem totalHits_advance (s : SlidingWindowStats) (nowSec : Nat) :
    (s.advance nowSec).totalHits = s.totalHits := by
  unfold advance
  split
  · rfl
  · split
    · exact totalHits_foldl_evict _ s
    · rfl

@[simp] theorem totalHits_recordHit (s : SlidingWindowStats) (now : SystemTime) :
    (s.recordHit now).totalHits = s.totalHits + 1 := by
  simp [recordHit]

end SlidingWindowStats

/-- The windows of all links, by code. -/
structure StatsStorage where
  inner : Table String SlidingWindowStats

namespace StatsStorage

def new : StatsStorage := ⟨Keyed.empty⟩

/-- The window of a code, if there is one. -/
def get (s : StatsStorage) (code : String) : Option SlidingWindowStats := s.inner.get? code

/-- Make sure a code has a window. -/
def getOrCreate (s : StatsStorage) (code : String) : StatsStorage :=
  match s.get code with
  | some _ => s
  | none => ⟨s.inner.set code .new⟩

/-- Write through the handle of a code's window. -/
def write (s : StatsStorage) (code : String) (f : SlidingWindowStats → SlidingWindowStats) :
    StatsStorage :=
  ⟨s.inner.alter code f⟩

/-- Drop the window of a code. -/
def remove (s : StatsStorage) (code : String) : StatsStorage := ⟨s.inner.erase code⟩

/-- The `limit` codes with the most hits, most first. -/
def getTop (s : StatsStorage) (limit : Nat) : List (String × Nat) :=
  let entries := s.inner.items.map (fun p => (p.1, p.2.getTotal))
  (entries.insertionSort (fun a b => b.2 ≤ a.2)).take limit

@[simp] theorem get_new (code : String) : new.get code = none := rfl

theorem get_getOrCreate (s : StatsStorage) (code code' : String) :
    (s.getOrCreate code).get code' =
      if code' = code then some ((s.get code).getD .new) else s.get code' := by
  unfold getOrCreate
  cases h : s.get code with
  | some w =>
      by_cases hc : code' = code
      · simp [hc, h]
      · simp [hc]
  | none => simp [get, Table.get?_set]

theorem get_write (s : StatsStorage) (code code' : String)
    (f : SlidingWindowStats → SlidingWindowStats) :
    (s.write code f).get code' = if code' = code then (s.get code').map f else s.get code' := by
  simp [get, write, Table.get?_alter]

theorem get_remove (s : StatsStorage) (code code' : String) :
    (s.remove code).get code' = if code' = code then none else s.get code' := by
  simp [get, remove, Table.get?_erase]

/-- An empty storage has no top. -/
@[simp] theorem getTop_new (limit : Nat) : new.getTop limit = [] := by
  simp [getTop, new, Keyed.empty]

end StatsStorage

end Shorty
