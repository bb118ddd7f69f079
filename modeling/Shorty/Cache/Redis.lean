import Mathlib.Order.Lattice
import Shorty.Cache

/-!
# Shorty.Cache.Redis

The cache client with what `Shorty.Cache` leaves to chance
(`crates/storage/src/cache.rs`): a value is stored as JSON for a time to live with
jitter, the server drops it when that time is over, and the client counts its hits and
misses.

Time is that of the server, in milliseconds.  A command is executed at the moment of the
call or it has failed and is not executed at all; that Redis executes a `SET` later, when
the client has given it up, is left out.
-/

namespace Shorty

/-! ## the time to live -/

/-- `as i64`. -/
def asI64 (n : UInt64) : Int := if n.toNat < 2 ^ 63 then n.toNat else n.toNat - 2 ^ 64

/-- The result of `i64` arithmetic; `none` where it overflows. -/
def checkedI64 (n : Int) : Option Int := if -2 ^ 63 ≤ n ∧ n < 2 ^ 63 then some n else none

/-- `rng.random_range(low..=high)` for the number the generator is at; `none` where the
range is empty, which panics. -/
def randomRange (draw : Nat) (low high : Int) : Option Int :=
  if low ≤ high then some (low + draw % (high - low + 1)) else none

structure CacheConfig where
  ttlSecs : UInt64
  jitterSecs : UInt64
  opTimeoutMs : UInt64

namespace CacheConfig

/-- `CacheConfig::default()`. -/
def default : CacheConfig := ⟨60, 10, 300⟩

/-- `jittered_ttl`, in seconds; `none` where it panics. -/
def jitteredTtl (config : CacheConfig) (draw : Nat) : Option Nat := do
  let base := asI64 config.ttlSecs
  let jitter := asI64 config.jitterSecs
  let low ← checkedI64 (-jitter)
  let offset ← randomRange draw low jitter
  let secs ← checkedI64 (base + offset)
  some (max secs 1).toNat

/-- The jitter is an `i64`, and so is the time to live with any jitter. -/
def Fits (config : CacheConfig) : Prop :=
  config.jitterSecs.toNat < 2 ^ 63 ∧
    (config.ttlSecs.toNat + config.jitterSecs.toNat < 2 ^ 63 ∨
      2 ^ 63 + config.jitterSecs.toNat ≤ config.ttlSecs.toNat)

instance (config : CacheConfig) : Decidable config.Fits := inferInstanceAs (Decidable (_ ∧ _))

/-- The longest time to live. -/
def maxTtlSecs (config : CacheConfig) : Nat :=
  (max (asI64 config.ttlSecs + asI64 config.jitterSecs) 1).toNat

end CacheConfig

/-- A range gives the numbers in it. -/
theorem exists_randomRange_iff {low high n : Int} :
    (∃ draw, randomRange draw low high = some n) ↔ low ≤ n ∧ n ≤ high := by
  unfold randomRange
  constructor
  · rintro ⟨draw, h⟩
    split at h
    · have hmod := Int.emod_nonneg draw (b := high - low + 1) (by omega)
      have hlt := Int.emod_lt_of_pos draw (b := high - low + 1) (by omega)
      rw [Option.some.injEq] at h
      omega
    · cases h
  · rintro ⟨hlow, hhigh⟩
    refine ⟨(n - low).toNat, ?_⟩
    have hself : ((n - low).toNat : Int) % (high - low + 1) = n - low := by
      rw [Int.toNat_of_nonneg (by omega)]
      exact Int.emod_eq_of_lt (by omega) (by omega)
    rw [if_pos (by omega), hself, Option.some.injEq]
    omega

theorem randomRange_eq_none_iff {draw : Nat} {low high : Int} :
    randomRange draw low high = none ↔ high < low := by
  simp [randomRange]

theorem checkedI64_eq_some_iff {n m : Int} :
    checkedI64 n = some m ↔ (-2 ^ 63 ≤ n ∧ n < 2 ^ 63) ∧ n = m := by
  simp [checkedI64]

namespace CacheConfig

variable {config : CacheConfig} {draw secs : Nat}

/-- A time to live is drawn as an offset. -/
theorem jitteredTtl_eq_some_iff : config.jitteredTtl draw = some secs ↔
    asI64 config.jitterSecs ≠ -2 ^ 63 ∧ ∃ offset,
      randomRange draw (-asI64 config.jitterSecs) (asI64 config.jitterSecs) = some offset ∧
      (-2 ^ 63 ≤ asI64 config.ttlSecs + offset ∧ asI64 config.ttlSecs + offset < 2 ^ 63) ∧
      secs = (max (asI64 config.ttlSecs + offset) 1).toNat := by
  have hneg : (-2 ^ 63 ≤ -asI64 config.jitterSecs ∧ -asI64 config.jitterSecs < 2 ^ 63) ↔
      asI64 config.jitterSecs ≠ -2 ^ 63 := by
    have hbound := config.jitterSecs.toNat_lt
    unfold asI64
    split <;> omega
  simp only [jitteredTtl, Option.bind_eq_bind, Option.bind_eq_some_iff, checkedI64_eq_some_iff, hneg]
  constructor
  · rintro ⟨_, ⟨hj, rfl⟩, offset, hoffset, _, ⟨hsum, rfl⟩, hsecs⟩
    exact ⟨hj, offset, hoffset, hsum, (Option.some.inj hsecs).symm⟩
  · rintro ⟨hj, offset, hoffset, hsum, rfl⟩
    exact ⟨_, ⟨hj, rfl⟩, offset, hoffset, _, ⟨hsum, rfl⟩, rfl⟩

/-- A configuration fits exactly when no sum of the time to live and an offset of the
jitter leaves the range. -/
theorem fits_iff : config.Fits ↔ 0 ≤ asI64 config.jitterSecs ∧
    asI64 config.ttlSecs + asI64 config.jitterSecs < 2 ^ 63 ∧
    -2 ^ 63 ≤ asI64 config.ttlSecs - asI64 config.jitterSecs := by
  have httl := config.ttlSecs.toNat_lt
  have hjitter := config.jitterSecs.toNat_lt
  unfold Fits asI64
  split <;> split <;> omega

/-- The times to live a configuration can draw. -/
theorem exists_jitteredTtl_iff (h : config.Fits) : (∃ draw, config.jitteredTtl draw = some secs) ↔
    max (asI64 config.ttlSecs - asI64 config.jitterSecs) 1 ≤ secs ∧
      secs ≤ max (asI64 config.ttlSecs + asI64 config.jitterSecs) 1 := by
  obtain ⟨hjitter, hhigh, hlow⟩ := fits_iff.mp h
  simp only [jitteredTtl_eq_some_iff]
  constructor
  · rintro ⟨draw, _, offset, hdraw, _, rfl⟩
    obtain ⟨hmin, hmax⟩ := exists_randomRange_iff.mp ⟨draw, hdraw⟩
    omega
  · rintro ⟨hmin, hmax⟩
    -- the offset that gives these seconds; where the sum is below one, the largest does
    obtain ⟨draw, hdraw⟩ := exists_randomRange_iff.mpr
      (⟨by omega, by omega⟩ : -asI64 config.jitterSecs ≤
          min (secs - asI64 config.ttlSecs) (asI64 config.jitterSecs) ∧
        min (secs - asI64 config.ttlSecs) (asI64 config.jitterSecs) ≤ asI64 config.jitterSecs)
    exact ⟨draw, by omega, _, hdraw, by omega, by omega⟩

/-- `jittered_ttl` never panics exactly where the configuration fits. -/
theorem jitteredTtl_ne_none_iff (config : CacheConfig) :
    (∀ draw, config.jitteredTtl draw ≠ none) ↔ config.Fits := by
  constructor
  · intro h
    have hall : ∀ draw, ∃ offset,
        randomRange draw (-asI64 config.jitterSecs) (asI64 config.jitterSecs) = some offset ∧
        (-2 ^ 63 ≤ asI64 config.ttlSecs + offset ∧ asI64 config.ttlSecs + offset < 2 ^ 63) := by
      intro draw
      obtain ⟨secs, hsecs⟩ := Option.ne_none_iff_exists'.mp (h draw)
      obtain ⟨_, offset, hoffset, hsum, _⟩ := jitteredTtl_eq_some_iff.mp hsecs
      exact ⟨offset, hoffset, hsum⟩
    have hjitter : 0 ≤ asI64 config.jitterSecs := by
      obtain ⟨offset, hoffset, _⟩ := hall 0
      have hmem := exists_randomRange_iff.mp ⟨0, hoffset⟩
      omega
    -- the two ends of the range are drawn
    obtain ⟨high, hhigh⟩ := exists_randomRange_iff.mpr
      (⟨by omega, Int.le_refl _⟩ : -asI64 config.jitterSecs ≤ asI64 config.jitterSecs ∧
        asI64 config.jitterSecs ≤ asI64 config.jitterSecs)
    obtain ⟨low, hlow⟩ := exists_randomRange_iff.mpr
      (⟨Int.le_refl _, by omega⟩ : -asI64 config.jitterSecs ≤ -asI64 config.jitterSecs ∧
        -asI64 config.jitterSecs ≤ asI64 config.jitterSecs)
    obtain ⟨_, hhigh', hsumHigh⟩ := hall high
    obtain ⟨_, hlow', hsumLow⟩ := hall low
    rw [hhigh, Option.some.injEq] at hhigh'
    rw [hlow, Option.some.injEq] at hlow'
    exact fits_iff.mpr ⟨hjitter, by omega, by omega⟩
  · intro h draw
    obtain ⟨hjitter, hhigh, hlow⟩ := fits_iff.mp h
    obtain ⟨offset, hoffset⟩ : ∃ offset,
        randomRange draw (-asI64 config.jitterSecs) (asI64 config.jitterSecs) = some offset := by
      apply Option.ne_none_iff_exists'.mp
      rw [Ne, randomRange_eq_none_iff]
      omega
    obtain ⟨hmin, hmax⟩ := exists_randomRange_iff.mp ⟨draw, hoffset⟩
    rw [jitteredTtl_eq_some_iff.mpr ⟨by omega, offset, hoffset, by omega, rfl⟩]
    simp

theorem le_maxTtlSecs (hfits : config.Fits) (h : config.jitteredTtl draw = some secs) :
    secs ≤ config.maxTtlSecs := by
  obtain ⟨_, hmax⟩ := (exists_jitteredTtl_iff hfits).mp ⟨draw, h⟩
  unfold maxTtlSecs
  omega

end CacheConfig

/-! ## the server -/

/-- `serde_json`, at a response. -/
structure SerdeJson where
  toString : LinkResponse → Option String
  fromStr : String → Option LinkResponse

/-- A response is read back from its text. -/
def SerdeJson.Lawful (json : SerdeJson) : Prop :=
  ∀ value raw, json.toString value = some raw → json.fromStr raw = some value

/-- A text, and the last millisecond it is there. -/
structure RedisValue where
  raw : String
  lastMs : Nat

structure RedisServer where
  values : Table String RedisValue
  commands : Nat
  faults : Faults

namespace RedisServer

/-- `GET`, where it succeeds. -/
def lookup (r : RedisServer) (nowMs : Nat) (key : String) : Option String :=
  ((r.values.get? key).filter (fun v => decide (nowMs ≤ v.lastMs))).map RedisValue.raw

/-- The server after a command that may have changed the values. -/
def answered (r : RedisServer) (values : Table String RedisValue) : RedisServer :=
  { r with values := values, commands := r.commands + 1 }

/-- `SET EX`, whose time to live runs from now. -/
def setEx (r : RedisServer) (nowMs : Nat) (key raw : String) (ttlSecs : Nat) : RedisServer :=
  r.answered (if r.faults.dropSet r.commands then r.values
    else r.values.set key ⟨raw, nowMs + ttlSecs * 1000⟩)

def del (r : RedisServer) (key : String) : RedisServer :=
  r.answered (if r.faults.failDel r.commands then r.values else r.values.erase key)

/-- A value is evicted. -/
def evict (r : RedisServer) (key : String) : RedisServer := { r with values := r.values.erase key }

end RedisServer

/-! ## the client -/

structure CacheStats where
  hits : Nat
  misses : Nat

namespace CacheStats

def recordHit (stats : CacheStats) : CacheStats := { stats with hits := stats.hits + 1 }

def recordMiss (stats : CacheStats) : CacheStats := { stats with misses := stats.misses + 1 }

end CacheStats

/-- The cache client.  `draws` is the random number generator, at each command. -/
structure RedisCache where
  conn : Option RedisServer
  config : CacheConfig
  fits : config.Fits
  stats : CacheStats
  draws : Nat → Nat

namespace RedisCache

def disabled : RedisCache := ⟨none, .default, by decide, ⟨0, 0⟩, fun _ => 0⟩

/-- A connection to a server that holds nothing. -/
def fromManager (faults : Faults) (draws : Nat → Nat) (config : CacheConfig) (fits : config.Fits) :
    RedisCache := ⟨some ⟨Keyed.empty, 0, faults⟩, config, fits, ⟨0, 0⟩, draws⟩

/-- The time to live of the value of the next command. -/
def nextTtl (c : RedisCache) (r : RedisServer) : Nat :=
  (c.config.jitteredTtl (c.draws r.commands)).get
    (Option.isSome_iff_ne_none.mpr ((CacheConfig.jitteredTtl_ne_none_iff c.config).mpr c.fits _))

theorem jitteredTtl_nextTtl (c : RedisCache) (r : RedisServer) :
    c.config.jitteredTtl (c.draws r.commands) = some (c.nextTtl r) := (Option.some_get _).symm

theorem nextTtl_le (c : RedisCache) (r : RedisServer) : c.nextTtl r ≤ c.config.maxTtlSecs :=
  CacheConfig.le_maxTtlSecs c.fits (c.jitteredTtl_nextTtl r)

def get (json : SerdeJson) (nowMs : Nat) (c : RedisCache) (key : String) :
    Option LinkResponse × RedisCache :=
  match c.conn with
  | none => (none, { c with stats := c.stats.recordMiss })
  | some r =>
      let raw := if r.faults.missGet r.commands then none else r.lookup nowMs key
      let conn := some (r.answered r.values)
      match raw.bind json.fromStr with
      | some value => (some value, { c with conn := conn, stats := c.stats.recordHit })
      | none => (none, { c with conn := conn, stats := c.stats.recordMiss })

def set (json : SerdeJson) (nowMs : Nat) (c : RedisCache) (key : String) (value : LinkResponse) :
    RedisCache :=
  match c.conn with
  | none => c
  | some r =>
      match json.toString value with
      | none => c
      | some raw => { c with conn := some (r.setEx nowMs key raw (c.nextTtl r)) }

def invalidate (c : RedisCache) (key : String) : RedisCache :=
  { c with conn := c.conn.map (fun r => r.del key) }

def evict (c : RedisCache) (key : String) : RedisCache :=
  { c with conn := c.conn.map (fun r => r.evict key) }

end RedisCache

end Shorty
