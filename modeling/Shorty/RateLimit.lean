import Mathlib.Algebra.Order.Floor.Semiring
import Mathlib.Algebra.Order.Field.Rat
import Mathlib.Data.Rat.Floor
import Mathlib.Tactic.FieldSimp
import Shorty.Lib.Keyed
import Shorty.Lib.TokenBucket
import Shorty.Time

/-!
# Shorty.RateLimit

The rate limiter: the token bucket of one client (`crates/domain/src/rate_limit.rs`)
and the storage that keeps one bucket a client and drops the idle ones
(`crates/storage/src/rate_limit_storage.rs`).

The `f64`s of the source are exact rational numbers here.  A division by a refill
rate of zero, which is infinite there, is spelled out; a period of zero seconds
would need more than that and is excluded by the configuration.

The clean-up asks for the time that lies the time to live ago, and the clock need not
have one: `now - self.ttl` panics below its range, before a bucket is looked at.  A call
that panics so is answered with `none`, and leaves the storage as it was.
-/

namespace Shorty

/-! ## the monotonic clock -/

/-- A span of time, in nanoseconds. -/
structure Duration where
  ns : Nat
deriving DecidableEq

namespace Duration

def fromSecs (secs : Nat) : Duration := ⟨secs * 10 ^ 9⟩

/-- `as_secs_f64`. -/
def asSecs (d : Duration) : ℚ := d.ns / 10 ^ 9

@[simp] theorem asSecs_fromSecs (secs : Nat) : (fromSecs secs).asSecs = secs := by
  simp only [asSecs, fromSecs, Nat.cast_mul, Nat.cast_pow, Nat.cast_ofNat]
  ring

end Duration

/-- A point of the monotonic clock, in nanoseconds from some origin.  The range is that of
Linux: a signed 64-bit number of seconds, plus nanoseconds. -/
structure Instant where
  ns : Int
  inRange : -(2 ^ 63 * 10 ^ 9) ≤ ns ∧ ns < 2 ^ 63 * 10 ^ 9
deriving DecidableEq

namespace Instant

theorem ns_injective : Function.Injective ns := by
  rintro ⟨a, _⟩ ⟨b, _⟩ h
  cases h
  rfl

instance : LinearOrder Instant := LinearOrder.lift' ns ns_injective

theorem le_iff {t u : Instant} : t ≤ u ↔ t.ns ≤ u.ns := Iff.rfl

theorem inRange_secs (s : Fin (2 ^ 63)) :
    -(2 ^ 63 * 10 ^ 9) ≤ (s : Int) * 10 ^ 9 ∧ (s : Int) * 10 ^ 9 < 2 ^ 63 * 10 ^ 9 := by omega

/-- The origin plus a number of whole seconds. -/
def ofSecs (s : Fin (2 ^ 63)) : Instant where
  ns := s * 10 ^ 9
  inRange := inRange_secs s

/-- `t.duration_since(earlier)`, and nothing for an instant that is not earlier. -/
def durationSince (t earlier : Instant) : Duration := ⟨(t.ns - earlier.ns).toNat⟩

/-- `t - d`, `none` where the subtraction panics. -/
def sub (t : Instant) (d : Duration) : Option Instant :=
  if h : -(2 ^ 63 * 10 ^ 9) ≤ t.ns - d.ns then
    some ⟨t.ns - d.ns, by have := t.inRange; omega⟩
  else none

/-- `t + d`, `none` where the addition panics. -/
def add (t : Instant) (d : Duration) : Option Instant :=
  if h : t.ns + d.ns < 2 ^ 63 * 10 ^ 9 then
    some ⟨t.ns + d.ns, by have := t.inRange; omega⟩
  else none

/-- A time that is no longer ago than a duration. -/
def Recent (now : Instant) (d : Duration) (t : Instant) : Prop := now.ns - d.ns ≤ t.ns

instance (now : Instant) (d : Duration) : DecidablePred (Recent now d) :=
  fun _ => inferInstanceAs (Decidable (_ ≤ _))

theorem recent_self (t : Instant) (d : Duration) : Recent t d t := by
  unfold Recent
  omega

/-- What is recent later on is recent now. -/
theorem Recent.mono {now later t : Instant} {d : Duration} (h : Recent later d t) (hle : now ≤ later) :
    Recent now d t := by
  unfold Recent at *
  rw [le_iff] at hle
  omega

theorem ns_of_sub {t u : Instant} {d : Duration} (h : t.sub d = some u) : u.ns = t.ns - d.ns := by
  unfold sub at h
  split at h
  · cases h
    rfl
  · cases h

theorem ns_of_add {t u : Instant} {d : Duration} (h : t.add d = some u) : u.ns = t.ns + d.ns := by
  unfold add at h
  split at h
  · cases h
    rfl
  · cases h

theorem isSome_sub_iff {t : Instant} {d : Duration} :
    (t.sub d).isSome = true ↔ -(2 ^ 63 * 10 ^ 9) ≤ t.ns - d.ns := by
  unfold sub
  split
  · exact iff_of_true rfl ‹_›
  · exact iff_of_false Bool.false_ne_true ‹_›

/-- A clock that has a time that long ago has one later on. -/
theorem isSome_sub_of_le {t u : Instant} {d : Duration} (h : (t.sub d).isSome = true) (hle : t ≤ u) :
    (u.sub d).isSome = true := by
  rw [isSome_sub_iff] at h ⊢
  rw [le_iff] at hle
  omega

/-- Where the clock has a time that long ago, what is recent is no earlier. -/
theorem recent_iff_le {now threshold : Instant} {d : Duration} (h : now.sub d = some threshold)
    (t : Instant) : Recent now d t ↔ threshold ≤ t := by
  rw [Recent, le_iff, ns_of_sub h]

/-- Seconds from the origin of the clock. -/
def secs (t : Instant) : ℚ := t.ns / 10 ^ 9

theorem asSecs_durationSince (t u : Instant) :
    (t.durationSince u).asSecs = max 0 (t.secs - u.secs) := by
  have hns : ((t.durationSince u).ns : ℚ) = max 0 ((t.ns : ℚ) - u.ns) := by
    have hint : ((t.durationSince u).ns : Int) = max 0 (t.ns - u.ns) := by
      simp only [durationSince]
      omega
    exact_mod_cast congrArg (Int.cast (R := ℚ)) hint
  have hdiv := max_div_div_right (show (0 : ℚ) ≤ 10 ^ 9 by norm_num) 0 ((t.ns : ℚ) - u.ns)
  rw [zero_div, sub_div] at hdiv
  rw [Duration.asSecs, hns, secs, secs, hdiv]

theorem secs_of_add {t u : Instant} {d : Duration} (h : t.add d = some u) :
    u.secs = t.secs + d.asSecs := by
  rw [secs, ns_of_add h]
  simp [secs, Duration.asSecs, add_div]

/-- Time that has passed, in seconds. -/
theorem asSecs_le_sub {t u : Instant} {d : Duration} (h : t.ns + d.ns ≤ u.ns) :
    d.asSecs ≤ u.secs - t.secs := by
  have hns : (t.ns : ℚ) + d.ns ≤ u.ns := by exact_mod_cast h
  simp only [Duration.asSecs, secs]
  linarith

@[simp] theorem secs_le_secs_iff {t u : Instant} : t.secs ≤ u.secs ↔ t ≤ u := by
  unfold secs
  rw [div_le_div_iff_of_pos_right (by norm_num), le_iff]
  exact Int.cast_le

theorem secs_le_secs {t u : Instant} (h : t ≤ u) : t.secs ≤ u.secs := secs_le_secs_iff.mpr h

end Instant

/-! ## one client -/

structure RateLimitConfig where
  /-- The most requests of a period. -/
  capacity : Nat
  /-- The time a bucket takes to fill, in seconds. -/
  periodSecs : Nat
  capacity_lt : capacity < 2 ^ 64
  periodSecs_lt : periodSecs < 2 ^ 64
  one_le_periodSecs : 1 ≤ periodSecs

namespace RateLimitConfig

variable (config : RateLimitConfig)

/-- Tokens a second. -/
def refillRate : ℚ := config.capacity / config.periodSecs

/-- The whole seconds until a bucket with some tokens has one. -/
def retryAfter (newTokens : ℚ) : Nat :=
  let shortage := 1 - newTokens
  -- a quotient by a rate of zero is infinite, and `as u64` saturates
  let secs := if config.refillRate = 0 then 2 ^ 64 - 1
    else min ⌈shortage / config.refillRate⌉₊ (2 ^ 64 - 1)
  if secs = 0 ∧ 0 < shortage then 1 else secs

theorem refillRate_nonneg : 0 ≤ config.refillRate := by
  unfold refillRate
  positivity

theorem periodSecs_pos : (0 : ℚ) < config.periodSecs := by
  have h := config.one_le_periodSecs
  exact_mod_cast h

/-- A bucket fills in a period. -/
theorem periodSecs_mul_refillRate : config.periodSecs * config.refillRate = config.capacity := by
  have h := config.periodSecs_pos
  unfold refillRate
  field_simp

theorem retryAfter_pos {newTokens : ℚ} (h : newTokens < 1) : 0 < config.retryAfter newTokens := by
  have hshort : 0 < 1 - newTokens := by linarith
  simp only [retryAfter, hshort, and_true]
  generalize (if config.refillRate = 0 then 2 ^ 64 - 1
    else min ⌈(1 - newTokens) / config.refillRate⌉₊ (2 ^ 64 - 1)) = secs
  split <;> omega

end RateLimitConfig

/-- The bucket of one client. -/
structure RateLimitState where
  tokens : ℚ
  lastUpdate : Instant
deriving DecidableEq

namespace RateLimitState

/-- A full bucket, made at the time of the clock. -/
def newFull (clock : Instant) (capacity : Nat) : RateLimitState := ⟨capacity, clock⟩

/-- A request of the client: whether it is allowed, the bucket after it, and the
seconds until the next try. -/
def tryConsume (state : RateLimitState) (config : RateLimitConfig) (now : Instant) :
    Bool × RateLimitState × Nat :=
  let elapsed := (now.durationSince state.lastUpdate).asSecs
  let refill := elapsed * config.refillRate
  let newTokens := min (state.tokens + refill) config.capacity
  if 1 ≤ newTokens then (true, ⟨newTokens - 1, now⟩, 0)
  else (false, ⟨newTokens, now⟩, config.retryAfter newTokens)

/-- The bucket of a client as a token bucket. -/
def bucket (state : RateLimitState) : TokenBucket.Bucket ℚ := ⟨state.tokens, state.lastUpdate.secs⟩

variable (state : RateLimitState) (config : RateLimitConfig) (now : Instant)

/-- The tokens there are at a time. -/
def newTokens : ℚ := TokenBucket.available config.refillRate config.capacity state.bucket now.secs

/-- A request looks at nothing but the tokens there are. -/
theorem tryConsume_eq : state.tryConsume config now =
    if 1 ≤ state.newTokens config now then (true, ⟨state.newTokens config now - 1, now⟩, 0)
    else (false, ⟨state.newTokens config now, now⟩, config.retryAfter (state.newTokens config now)) := by
  simp only [tryConsume, newTokens, TokenBucket.available, bucket, Instant.asSecs_durationSince]
  rfl

/-- **Refinement**: a request is a call of the token bucket. -/
theorem tryConsume_bucket :
    ((state.tryConsume config now).1, (state.tryConsume config now).2.1.bucket) =
      TokenBucket.take config.refillRate config.capacity state.bucket now.secs := by
  rw [tryConsume_eq, TokenBucket.take, newTokens]
  split <;> rfl

@[simp] theorem lastUpdate_tryConsume : (state.tryConsume config now).2.1.lastUpdate = now := by
  rw [tryConsume_eq]
  split <;> rfl

/-- A request is allowed or told to wait. -/
theorem allowed_or_retryAfter :
    ((state.tryConsume config now).1 || decide (0 < (state.tryConsume config now).2.2)) = true := by
  rw [tryConsume_eq]
  split
  · rfl
  · rename_i h
    have hpos := config.retryAfter_pos (not_le.mp h)
    simp [hpos]

/-- What a request takes and what it leaves is what there was. -/
theorem taken_add_tokens :
    (if (state.tryConsume config now).1 then 1 else 0) + (state.tryConsume config now).2.1.tokens =
      state.newTokens config now := by
  rw [tryConsume_eq]
  split <;> simp

theorem newTokens_le_capacity : state.newTokens config now ≤ config.capacity :=
  TokenBucket.available_le_cap _ _ _ _

variable {state now}

theorem tokens_tryConsume_nonneg (h : 0 ≤ state.tokens) :
    0 ≤ (state.tryConsume config now).2.1.tokens := by
  have hbucket := congrArg Prod.snd (state.tryConsume_bucket config now)
  have hlevel : 0 ≤ (TokenBucket.after config.refillRate config.capacity state.bucket now.secs).level :=
    TokenBucket.level_after_nonneg config.refillRate_nonneg (Nat.cast_nonneg config.capacity) h
  rw [TokenBucket.after, ← hbucket] at hlevel
  exact hlevel

theorem tokens_tryConsume_le : (state.tryConsume config now).2.1.tokens ≤ config.capacity := by
  have htaken := state.taken_add_tokens config now
  have hle := state.newTokens_le_capacity config now
  split at htaken <;> linarith

/-- A full bucket stays full. -/
@[simp] theorem newTokens_newFull (clock : Instant) :
    (newFull clock config.capacity).newTokens config now = config.capacity := by
  have hflow : 0 ≤ max 0 (now.secs - clock.secs) * config.refillRate :=
    mul_nonneg (le_max_left _ _) config.refillRate_nonneg
  apply min_eq_right
  show (config.capacity : ℚ) ≤ config.capacity + max 0 (now.secs - clock.secs) * config.refillRate
  linarith

/-- After a period without requests a bucket is full. -/
theorem newTokens_of_idle (h : 0 ≤ state.tokens)
    (hidle : state.lastUpdate.ns + (Duration.fromSecs config.periodSecs).ns ≤ now.ns) :
    state.newTokens config now = config.capacity := by
  have hsecs := Instant.asSecs_le_sub hidle
  rw [Duration.asSecs_fromSecs] at hsecs
  have hfull : config.periodSecs * config.refillRate ≤
      (now.secs - state.lastUpdate.secs) * config.refillRate :=
    mul_le_mul_of_nonneg_right (by linarith) config.refillRate_nonneg
  rw [config.periodSecs_mul_refillRate] at hfull
  exact TokenBucket.available_eq_cap h hfull config.refillRate_nonneg

end RateLimitState

/-! ## all clients -/

/-- The buckets of the clients, by their identifiers. -/
structure RateLimitStorage where
  inner : Table String RateLimitState
  config : RateLimitConfig
  /-- How long the bucket of an idle client is kept. -/
  ttl : Duration

/-- A call of `check_and_consume`: the client, the time it is given, and the time the
clock shows when a bucket is made. -/
structure RateLimitCall where
  clientId : String
  now : Instant
  clock : Instant

namespace RateLimitStorage

def new (config : RateLimitConfig) (ttl : Duration) : RateLimitStorage := ⟨Keyed.empty, config, ttl⟩

variable (s : RateLimitStorage)

/-- Drop the buckets that were not used for longer than the time to live. -/
def cleanupStale (now : Instant) : Option RateLimitStorage :=
  match now.sub s.ttl with
  | none => none
  | some threshold =>
      some { s with inner := s.inner.filter (fun p => decide (threshold ≤ p.2.lastUpdate)) }

/-- A request of a client, on its own bucket. -/
def consume (call : RateLimitCall) : (Bool × Nat) × RateLimitStorage :=
  let entry := (s.inner.get? call.clientId).getD (.newFull call.clock s.config.capacity)
  let result := entry.tryConsume s.config call.now
  let allowed := result.1
  let retryAfter := result.2.2
  let entry := if allowed || decide (0 < retryAfter) then result.2.1 else entry
  ((allowed, retryAfter), { s with inner := s.inner.set call.clientId entry })

/-- A request of a client: whether it is allowed, and after how many seconds to try
again.  There is no answer where the clean-up panics. -/
def checkAndConsume (call : RateLimitCall) : Option (Bool × Nat) × RateLimitStorage :=
  match s.cleanupStale call.now with
  | none => (none, s)
  | some s =>
      let out := s.consume call
      (some out.1, out.2)

/-! ## what a call does to the buckets -/

/-- The bucket a call finds. -/
def entryFor (call : RateLimitCall) : RateLimitState :=
  (s.inner.get? call.clientId).getD (.newFull call.clock s.config.capacity)

/-- The clock has a time that is the time to live ago, so that the clean-up has a
threshold. -/
def HasThreshold (now : Instant) : Prop := (now.sub s.ttl).isSome = true

instance (now : Instant) : Decidable (s.HasThreshold now) := inferInstanceAs (Decidable (_ = _))

/-- The storage without the buckets that are older than the time to live. -/
def recent (now : Instant) : RateLimitStorage :=
  { s with inner := s.inner.filter (fun p => decide (now.Recent s.ttl p.2.lastUpdate)) }

variable {s}

theorem cleanupStale_eq (now : Instant) :
    s.cleanupStale now = if s.HasThreshold now then some (s.recent now) else none := by
  by_cases h : s.HasThreshold now
  · obtain ⟨threshold, hsub⟩ := Option.isSome_iff_exists.mp h
    rw [if_pos h, cleanupStale, hsub]
    simp only [recent, Instant.recent_iff_le hsub]
  · have hsub : now.sub s.ttl = none := by simpa [HasThreshold] using h
    rw [if_neg h, cleanupStale, hsub]

theorem checkAndConsume_of_hasThreshold {call : RateLimitCall} (h : s.HasThreshold call.now) :
    s.checkAndConsume call =
      (some ((s.recent call.now).consume call).1, ((s.recent call.now).consume call).2) := by
  rw [checkAndConsume, cleanupStale_eq, if_pos h]

/-- A call whose clean-up panics is not answered, and changes nothing. -/
theorem checkAndConsume_of_panic {call : RateLimitCall} (h : ¬ s.HasThreshold call.now) :
    s.checkAndConsume call = (none, s) := by
  rw [checkAndConsume, cleanupStale_eq, if_neg h]

theorem get?_recent (now : Instant) (clientId : String) :
    (s.recent now).inner.get? clientId =
      (s.inner.get? clientId).filter (fun state => decide (now.Recent s.ttl state.lastUpdate)) := by
  simp only [recent, Table.get?, Keyed.find?_filter]
  cases s.inner.find? clientId with
  | none => rfl
  | some p =>
      simp only [Option.filter_some, Option.map_some]
      split <;> simp

theorem fst_consume (call : RateLimitCall) : (s.consume call).1 =
    (((s.entryFor call).tryConsume s.config call.now).1,
      ((s.entryFor call).tryConsume s.config call.now).2.2) := rfl

/-- A call writes the new bucket of its client, and no other. -/
theorem get?_consume (call : RateLimitCall) (clientId : String) :
    (s.consume call).2.inner.get? clientId =
      if clientId = call.clientId then some ((s.entryFor call).tryConsume s.config call.now).2.1
      else s.inner.get? clientId := by
  have hwrite := RateLimitState.allowed_or_retryAfter (s.entryFor call) s.config call.now
  unfold entryFor at hwrite ⊢
  simp only [consume, Table.get?_set, hwrite, if_true]

@[simp] theorem config_recent (now : Instant) : (s.recent now).config = s.config := rfl

@[simp] theorem config_checkAndConsume (call : RateLimitCall) :
    (s.checkAndConsume call).2.config = s.config := by
  by_cases h : s.HasThreshold call.now
  · rw [checkAndConsume_of_hasThreshold h]
    rfl
  · rw [checkAndConsume_of_panic h]

@[simp] theorem ttl_checkAndConsume (call : RateLimitCall) :
    (s.checkAndConsume call).2.ttl = s.ttl := by
  by_cases h : s.HasThreshold call.now
  · rw [checkAndConsume_of_hasThreshold h]
    rfl
  · rw [checkAndConsume_of_panic h]

/-- An answered call on another client drops a bucket or leaves it. -/
theorem get?_checkAndConsume_of_ne {call : RateLimitCall} {clientId : String}
    (h : clientId ≠ call.clientId) (hthreshold : s.HasThreshold call.now) :
    (s.checkAndConsume call).2.inner.get? clientId =
      (s.inner.get? clientId).filter
        (fun state => decide (call.now.Recent s.ttl state.lastUpdate)) := by
  rw [checkAndConsume_of_hasThreshold hthreshold, get?_consume, if_neg h, get?_recent]

end RateLimitStorage

end Shorty
