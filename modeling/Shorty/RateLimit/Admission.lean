import Shorty.RateLimit

/-!
# Shorty.RateLimit.Admission

How many requests the rate limiter allows: on one bucket and in the storage of all
clients.

A bucket is a token bucket (`Shorty.Lib.TokenBucket`), and so is a client whose
bucket was dropped: one that lost its tokens when it was last used.  What the storage
allows a client is therefore bounded in every stretch of time, as long as the calls of
the client reach it in the order of their times.
-/

namespace Shorty

/-- The most requests that may be allowed within some seconds. -/
def RateLimitConfig.limitOver (config : RateLimitConfig) (secs : ℚ) : ℚ :=
  config.capacity + secs * config.capacity / config.periodSecs

theorem RateLimitConfig.limitOver_eq (config : RateLimitConfig) (secs : ℚ) :
    config.limitOver secs = config.capacity + secs * config.refillRate := by
  rw [limitOver, refillRate, mul_div_assoc]

namespace RateLimitState

/-! ## one client -/

/-- The bucket after a request. -/
def after (config : RateLimitConfig) (state : RateLimitState) (now : Instant) : RateLimitState :=
  (state.tryConsume config now).2.1

/-- Whether a request is allowed. -/
def allowed (config : RateLimitConfig) (state : RateLimitState) (now : Instant) : Bool :=
  (state.tryConsume config now).1

variable (config : RateLimitConfig)

theorem bucket_after (state : RateLimitState) (now : Instant) : (after config state now).bucket =
    TokenBucket.after config.refillRate config.capacity state.bucket now.secs :=
  congrArg Prod.snd (state.tryConsume_bucket config now)

theorem allowed_eq (state : RateLimitState) (now : Instant) : allowed config state now =
    TokenBucket.admitted config.refillRate config.capacity state.bucket now.secs :=
  congrArg Prod.fst (state.tryConsume_bucket config now)

/-- The level of a bucket is between empty and full. -/
def InRange (state : RateLimitState) : Prop := 0 ≤ state.tokens ∧ state.tokens ≤ config.capacity

theorem inRange_newFull (clock : Instant) : InRange config (newFull clock config.capacity) :=
  ⟨Nat.cast_nonneg config.capacity, le_rfl⟩

theorem InRange.after {state : RateLimitState} (h : InRange config state) (now : Instant) :
    InRange config (after config state now) :=
  ⟨tokens_tryConsume_nonneg config h.1, tokens_tryConsume_le config⟩

/-- The requests of a stretch are allowed within the limit. -/
theorem count_outputs_allowed_le {state : RateLimitState} (h : InRange config state)
    {window : List Instant} {first last : Instant} (hsorted : window.Pairwise (· ≤ ·))
    (hfirst : window.head? = some first) (hlast : window.getLast? = some last) :
    ((Run.outputs (RateLimitState.after config) (allowed config) state window).count true : ℚ) ≤
      config.limitOver (last.secs - first.secs) := by
  have hsecs : (window.map Instant.secs).Pairwise (· ≤ ·) :=
    List.pairwise_map.mpr (hsorted.imp Instant.secs_le_secs)
  have hhead : (window.map Instant.secs).head? = some first.secs := by simp [hfirst]
  have hend : (window.map Instant.secs).getLast? = some last.secs := by simp [hlast]
  have hbound := TokenBucket.spent_outputs_le (b := state.bucket) config.refillRate_nonneg
    (Nat.cast_nonneg config.capacity) h.1 hsecs hhead hend
  rw [Run.outputs_map bucket Instant.secs (bucket_after config) (allowed_eq config),
    RateLimitConfig.limitOver_eq]
  exact hbound

/-- **Token bucket**: from a full bucket, at times that do not decrease, the level stays
in its range, and in any stretch of the run the requests allowed are within the
limit. -/
theorem admission (clock : Instant) (times : List Instant) (hsorted : times.Pairwise (· ≤ ·)) :
    Run.Throughout (after config) (InRange config) (newFull clock config.capacity) times ∧
      ∀ (front window back : List Instant) (first last : Instant), times = front ++ window ++ back →
        window.head? = some first → window.getLast? = some last →
        ((Run.outputs (after config) (allowed config)
            (Run.reach (after config) (newFull clock config.capacity) front) window).count true : ℚ) ≤
          config.limitOver (last.secs - first.secs) := by
  have hfull := inRange_newFull config clock
  constructor
  · exact Run.throughout_of_step (C := fun _ _ => True) (fun _ now h _ => h.after config now) hfull
      (Run.along_of_forall fun _ _ => trivial)
  · rintro front window back first last rfl hfirst hlast
    have hreach : InRange config (Run.reach (after config) (newFull clock config.capacity) front) :=
      Run.invariant (fun _ now h => h.after config now) hfull front
    have hwindow : window.Pairwise (· ≤ ·) :=
      (List.pairwise_append.mp (List.pairwise_append.mp hsorted).1).2.1
    exact count_outputs_allowed_le config hreach hwindow hfirst hlast

/-- Three requests at one time, of which two are allowed. -/
theorem admission_burst :
    ((Run.outputs (after ⟨2, 10, by decide, by decide, by decide⟩)
        (allowed ⟨2, 10, by decide, by decide, by decide⟩) (newFull (.ofSecs 0) 2)
        [.ofSecs 0, .ofSecs 0, .ofSecs 0]).count true : ℚ) ≤
      RateLimitConfig.limitOver ⟨2, 10, by decide, by decide, by decide⟩
        ((Instant.ofSecs 0).secs - (Instant.ofSecs 0).secs) :=
  (admission ⟨2, 10, by decide, by decide, by decide⟩ (.ofSecs 0) [.ofSecs 0, .ofSecs 0, .ofSecs 0]
    (by decide)).2 [] [.ofSecs 0, .ofSecs 0, .ofSecs 0] [] (.ofSecs 0) (.ofSecs 0) rfl rfl rfl

end RateLimitState

/-! ## all clients -/

/-- A storage, and the calls it has answered, each with whether it was allowed. -/
structure Audit where
  storage : RateLimitStorage
  past : List (RateLimitCall × Bool)

namespace Audit

def new (config : RateLimitConfig) (ttl : Duration) : Audit := ⟨.new config ttl, []⟩

/-- The storage answers a call, or panics. -/
def answer (a : Audit) (call : RateLimitCall) : Audit :=
  match a.storage.checkAndConsume call with
  | (none, storage) => { a with storage := storage }
  | (some (allowed, _), storage) => ⟨storage, a.past ++ [(call, allowed)]⟩

/-- The calls of a client. -/
def callsOf (a : Audit) (clientId : String) : List (RateLimitCall × Bool) :=
  a.past.filter (fun p => decide (p.1.clientId = clientId))

/-- The time of the last call of a client. -/
def lastCall (a : Audit) (clientId : String) : Option Instant :=
  (a.callsOf clientId).getLast?.map (fun p => p.1.now)

/-- The calls of a client that were allowed, of those with a time within two bounds. -/
def allowedWithin (a : Audit) (clientId : String) (lo hi : Instant) : Nat :=
  (a.callsOf clientId).countP (fun p => p.2 && decide (lo ≤ p.1.now ∧ p.1.now ≤ hi))

/-- No client was allowed more than the limit in any stretch of time. -/
def Bounded (a : Audit) : Prop :=
  ∀ clientId lo hi, lo ≤ hi →
    (a.allowedWithin clientId lo hi : ℚ) ≤ a.storage.config.limitOver (hi.secs - lo.secs)

/-- A call that is not earlier than the last one of its client, and a period after it if
the bucket of the client was dropped. -/
def InOrder (a : Audit) (call : RateLimitCall) : Prop :=
  ∀ last ∈ a.lastCall call.clientId, last ≤ call.now ∧
    (a.storage.inner.get? call.clientId = none →
      last.ns + (Duration.fromSecs a.storage.config.periodSecs).ns ≤ call.now.ns)

instance decidableInOrder (a : Audit) (call : RateLimitCall) : Decidable (a.InOrder call) :=
  inferInstanceAs (Decidable (∀ last ∈ a.lastCall call.clientId, _))

/-- Buckets are kept for a period at least. -/
def KeepsPeriod (a : Audit) : Prop :=
  (Duration.fromSecs a.storage.config.periodSecs).ns ≤ a.storage.ttl.ns

/-! ### the account of a client -/

/-- The times at which a client was allowed. -/
def allowedTimes (a : Audit) (clientId : String) : List ℚ :=
  ((a.callsOf clientId).filter (fun p => p.2)).map (fun p => p.1.now.secs)

/-- What a client has left: the bucket of the storage, and nothing once it was dropped. -/
def left (a : Audit) (clientId : String) (last : Instant) : TokenBucket.Bucket ℚ :=
  ((a.storage.inner.get? clientId).map RateLimitState.bucket).getD ⟨0, last.secs⟩

/-- The account of a client: the storage holds its bucket since its last call, or none,
and what is left accounts for what was allowed. -/
structure Sound (a : Audit) (clientId : String) : Prop where
  unused : a.lastCall clientId = none → a.storage.inner.get? clientId = none
  lastUpdate_eq : ∀ state ∈ a.storage.inner.get? clientId, some state.lastUpdate = a.lastCall clientId
  tokens_nonneg : ∀ state ∈ a.storage.inner.get? clientId, 0 ≤ state.tokens
  accounted : ∀ last ∈ a.lastCall clientId,
    TokenBucket.Accounted a.storage.config.refillRate a.storage.config.capacity
      (a.allowedTimes clientId) (a.left clientId last)

variable {a : Audit} {call : RateLimitCall} {clientId : String}

/-- The bucket a call finds. -/
def found (a : Audit) (call : RateLimitCall) : RateLimitState :=
  (a.storage.recent call.now).entryFor call

theorem found_eq : a.found call =
    ((a.storage.inner.get? call.clientId).filter
      (fun state => decide (call.now.Recent a.storage.ttl state.lastUpdate))).getD
        (.newFull call.clock a.storage.config.capacity) := by
  rw [found, RateLimitStorage.entryFor, RateLimitStorage.get?_recent]
  rfl

theorem answer_of_panic (h : ¬ a.storage.HasThreshold call.now) : a.answer call = a := by
  rw [answer, RateLimitStorage.checkAndConsume_of_panic h]

theorem answer_of_hasThreshold (h : a.storage.HasThreshold call.now) : a.answer call =
    ⟨((a.storage.recent call.now).consume call).2,
      a.past ++ [(call, ((a.found call).tryConsume a.storage.config call.now).1)]⟩ := by
  rw [answer, RateLimitStorage.checkAndConsume_of_hasThreshold h]
  rfl

@[simp] theorem storage_answer : (a.answer call).storage = (a.storage.checkAndConsume call).2 := by
  by_cases h : a.storage.HasThreshold call.now
  · rw [answer_of_hasThreshold h, RateLimitStorage.checkAndConsume_of_hasThreshold h]
  · rw [answer_of_panic h, RateLimitStorage.checkAndConsume_of_panic h]

theorem config_answer : (a.answer call).storage.config = a.storage.config := by simp

theorem ttl_answer : (a.answer call).storage.ttl = a.storage.ttl := by simp

theorem callsOf_answer_self (h : a.storage.HasThreshold call.now) :
    (a.answer call).callsOf call.clientId =
      a.callsOf call.clientId ++ [(call, ((a.found call).tryConsume a.storage.config call.now).1)] := by
  rw [answer_of_hasThreshold h]
  simp [callsOf]

theorem callsOf_answer_of_ne (h : clientId ≠ call.clientId) :
    (a.answer call).callsOf clientId = a.callsOf clientId := by
  by_cases hthreshold : a.storage.HasThreshold call.now
  · rw [answer_of_hasThreshold hthreshold]
    simp [callsOf, h.symm]
  · rw [answer_of_panic hthreshold]

theorem lastCall_answer_self (h : a.storage.HasThreshold call.now) :
    (a.answer call).lastCall call.clientId = some call.now := by
  simp [lastCall, callsOf_answer_self h]

theorem lastCall_answer_of_ne (h : clientId ≠ call.clientId) :
    (a.answer call).lastCall clientId = a.lastCall clientId := by
  simp [lastCall, callsOf_answer_of_ne h]

theorem allowedTimes_answer_self (h : a.storage.HasThreshold call.now) :
    (a.answer call).allowedTimes call.clientId =
      a.allowedTimes call.clientId ++
        TokenBucket.entry ((a.found call).tryConsume a.storage.config call.now).1 call.now.secs := by
  rw [allowedTimes, callsOf_answer_self h, List.filter_append, List.map_append, ← allowedTimes]
  cases ((a.found call).tryConsume a.storage.config call.now).1 with
  | true => simp [TokenBucket.entry]
  | false => simp [TokenBucket.entry]

theorem allowedTimes_eq_nil (h : a.lastCall clientId = none) : a.allowedTimes clientId = [] := by
  have hnone : a.callsOf clientId = [] := by simpa [lastCall] using h
  simp [allowedTimes, hnone]

theorem allowedWithin_eq (lo hi : Instant) :
    (a.allowedWithin clientId lo hi : ℚ) =
      TokenBucket.within (a.allowedTimes clientId) lo.secs hi.secs := by
  unfold allowedWithin TokenBucket.within allowedTimes
  rw [List.countP_map, List.countP_filter]
  congr 2
  funext p
  simp [Bool.and_comm]

/-! ### one call -/

/-- A bucket that accounts for the client of a call, and has at its time what the call
finds. -/
structure Backs (a : Audit) (call : RateLimitCall) (b : TokenBucket.Bucket ℚ) : Prop where
  accounted : TokenBucket.Accounted a.storage.config.refillRate a.storage.config.capacity
    (a.allowedTimes call.clientId) b
  level_nonneg : 0 ≤ b.level
  since_le : b.since ≤ call.now.secs
  available_eq : TokenBucket.available a.storage.config.refillRate a.storage.config.capacity b
    call.now.secs = (a.found call).newTokens a.storage.config call.now

/-- The first call of a client is backed by a full bucket. -/
theorem Sound.backs_of_unused (h : Sound a call.clientId) (hlast : a.lastCall call.clientId = none) :
    Backs a call ⟨a.storage.config.capacity, call.now.secs⟩ where
  accounted := by
    rw [allowedTimes_eq_nil hlast]
    exact TokenBucket.accounted_nil a.storage.config.refillRate_nonneg (Nat.cast_nonneg _) le_rfl
  level_nonneg := Nat.cast_nonneg _
  since_le := le_rfl
  available_eq := by
    rw [found_eq, h.unused hlast]
    simp [TokenBucket.available]

/-- A call that finds a bucket is backed by it. -/
theorem Sound.backs_of_kept (h : Sound a call.clientId) (horder : a.InOrder call) {state : RateLimitState}
    (hstate : a.storage.inner.get? call.clientId = some state)
    (hkept : call.now.Recent a.storage.ttl state.lastUpdate) : Backs a call state.bucket := by
  have hlast := (h.lastUpdate_eq state hstate).symm
  have haccount := h.accounted state.lastUpdate hlast
  rw [left, hstate] at haccount
  constructor
  · exact haccount
  · exact h.tokens_nonneg state hstate
  · exact Instant.secs_le_secs (horder state.lastUpdate hlast).1
  · rw [found_eq, hstate, Option.filter_some, if_pos (decide_eq_true hkept)]
    rfl

/-- The account of a client stands also when its bucket is dropped. -/
theorem Sound.drained (h : Sound a clientId) {last : Instant} (hlast : a.lastCall clientId = some last) :
    TokenBucket.Accounted a.storage.config.refillRate a.storage.config.capacity
      (a.allowedTimes clientId) ⟨0, last.secs⟩ := by
  have haccount := h.accounted last hlast
  cases hstate : a.storage.inner.get? clientId with
  | none =>
      rw [left, hstate] at haccount
      exact haccount
  | some state =>
      have hdate : state.lastUpdate = last :=
        Option.some.inj ((h.lastUpdate_eq state hstate).trans hlast)
      rw [left, hstate, Option.map_some, Option.getD_some] at haccount
      rw [← hdate]
      exact haccount.drain (h.tokens_nonneg state hstate)

/-- A call that finds no bucket a period after the last one is backed by a bucket that
was empty then. -/
theorem Sound.backs_of_dropped (h : Sound a call.clientId) {last : Instant}
    (hlast : a.lastCall call.clientId = some last) (hle : last ≤ call.now)
    (hidle : last.ns + (Duration.fromSecs a.storage.config.periodSecs).ns ≤ call.now.ns)
    (hdropped : (a.storage.inner.get? call.clientId).filter
      (fun state => decide (call.now.Recent a.storage.ttl state.lastUpdate)) = none) :
    Backs a call ⟨0, last.secs⟩ := by
  constructor
  · exact h.drained hlast
  · exact le_rfl
  · exact Instant.secs_le_secs hle
  · have hfull : (⟨0, last⟩ : RateLimitState).newTokens a.storage.config call.now =
        a.storage.config.capacity :=
      RateLimitState.newTokens_of_idle a.storage.config le_rfl hidle
    rw [found_eq, hdropped, Option.getD_none, RateLimitState.newTokens_newFull]
    exact hfull

theorem Sound.exists_backs (h : Sound a call.clientId) (hkeeps : a.KeepsPeriod) (horder : a.InOrder call) :
    ∃ b, Backs a call b := by
  cases hlast : a.lastCall call.clientId with
  | none => exact ⟨_, h.backs_of_unused hlast⟩
  | some last =>
      obtain ⟨hle, hidle⟩ := horder last hlast
      cases hstate : a.storage.inner.get? call.clientId with
      | none => exact ⟨_, h.backs_of_dropped hlast hle (hidle hstate) (by rw [hstate]; rfl)⟩
      | some state =>
          by_cases hkept : call.now.Recent a.storage.ttl state.lastUpdate
          · exact ⟨_, h.backs_of_kept horder hstate hkept⟩
          · -- the call drops the bucket itself, for it is older than the time to live
            have hdate : state.lastUpdate = last :=
              Option.some.inj ((h.lastUpdate_eq state hstate).trans hlast)
            have hlong : last.ns + (Duration.fromSecs a.storage.config.periodSecs).ns ≤ call.now.ns := by
              unfold KeepsPeriod at hkeeps
              rw [← hdate]
              simp only [Instant.Recent, not_le] at hkept
              omega
            exact ⟨_, h.backs_of_dropped hlast hle hlong (by simpa [hstate] using hkept)⟩

theorem bucket_tryConsume {b : TokenBucket.Bucket ℚ} (hb : Backs a call b) :
    ((a.found call).tryConsume a.storage.config call.now).2.1.bucket =
      TokenBucket.after a.storage.config.refillRate a.storage.config.capacity b call.now.secs := by
  rw [RateLimitState.tryConsume_eq, TokenBucket.after, TokenBucket.take, hb.available_eq]
  split <;> rfl

theorem allowed_tryConsume {b : TokenBucket.Bucket ℚ} (hb : Backs a call b) :
    ((a.found call).tryConsume a.storage.config call.now).1 =
      TokenBucket.admitted a.storage.config.refillRate a.storage.config.capacity b call.now.secs := by
  rw [RateLimitState.tryConsume_eq, TokenBucket.admitted, TokenBucket.take, hb.available_eq]
  split <;> rfl

theorem get?_answer_self (h : a.storage.HasThreshold call.now) :
    (a.answer call).storage.inner.get? call.clientId =
      some ((a.found call).tryConsume a.storage.config call.now).2.1 := by
  rw [answer_of_hasThreshold h, RateLimitStorage.get?_consume, if_pos rfl]
  rfl

theorem get?_answer_of_ne (h : clientId ≠ call.clientId) (hthreshold : a.storage.HasThreshold call.now) :
    (a.answer call).storage.inner.get? clientId =
      (a.storage.inner.get? clientId).filter
        (fun state => decide (call.now.Recent a.storage.ttl state.lastUpdate)) := by
  rw [storage_answer, RateLimitStorage.get?_checkAndConsume_of_ne h hthreshold]

/-- An answered call keeps the account of its client. -/
theorem Sound.answer_self (h : Sound a call.clientId) (hkeeps : a.KeepsPeriod) (horder : a.InOrder call)
    (hthreshold : a.storage.HasThreshold call.now) : Sound (a.answer call) call.clientId := by
  obtain ⟨b, hb⟩ := h.exists_backs hkeeps horder
  have hcap : (0 : ℚ) ≤ a.storage.config.capacity := Nat.cast_nonneg _
  have hleft : 0 ≤ (TokenBucket.after a.storage.config.refillRate a.storage.config.capacity b
      call.now.secs).level :=
    TokenBucket.level_after_nonneg a.storage.config.refillRate_nonneg hcap hb.level_nonneg
  constructor
  · intro hlast
    simp [lastCall_answer_self hthreshold] at hlast
  · intro state hstate
    rw [get?_answer_self hthreshold, Option.mem_some_iff] at hstate
    rw [lastCall_answer_self hthreshold, ← hstate, RateLimitState.lastUpdate_tryConsume]
  · intro state hstate
    rw [get?_answer_self hthreshold, Option.mem_some_iff] at hstate
    rw [← bucket_tryConsume hb, hstate] at hleft
    exact hleft
  · intro last hlast
    rw [left, get?_answer_self hthreshold, Option.map_some, Option.getD_some, bucket_tryConsume hb,
      allowedTimes_answer_self hthreshold, allowed_tryConsume hb, config_answer]
    exact hb.accounted.after a.storage.config.refillRate_nonneg hcap hb.level_nonneg hb.since_le

/-- An answered call keeps the account of another client, of which it may drop the bucket. -/
theorem Sound.answer_of_ne (h : Sound a clientId) (hne : clientId ≠ call.clientId)
    (hthreshold : a.storage.HasThreshold call.now) : Sound (a.answer call) clientId := by
  have hfound := get?_answer_of_ne hne hthreshold
  have hkept : ∀ state ∈ (a.answer call).storage.inner.get? clientId,
      a.storage.inner.get? clientId = some state := by
    intro state hstate
    rw [hfound, Option.mem_def, Option.filter_eq_some_iff] at hstate
    exact hstate.1
  have htimes : (a.answer call).allowedTimes clientId = a.allowedTimes clientId := by
    rw [allowedTimes, callsOf_answer_of_ne hne, allowedTimes]
  constructor
  · intro hlast
    rw [lastCall_answer_of_ne hne] at hlast
    rw [hfound, h.unused hlast, Option.filter_none]
  · intro state hstate
    rw [lastCall_answer_of_ne hne]
    exact h.lastUpdate_eq state (hkept state hstate)
  · intro state hstate
    exact h.tokens_nonneg state (hkept state hstate)
  · intro last hlast
    rw [lastCall_answer_of_ne hne] at hlast
    rw [htimes, config_answer, left]
    cases hafter : (a.answer call).storage.inner.get? clientId with
    | none => exact h.drained hlast
    | some state =>
        have haccount := h.accounted last hlast
        rw [left, hkept state hafter] at haccount
        exact haccount

/-! ### runs -/

/-- The invariant of a run: buckets are kept for a period, and every client is
accounted for. -/
structure Invariant (a : Audit) : Prop where
  keepsPeriod : a.KeepsPeriod
  sound : ∀ clientId, a.Sound clientId

theorem invariant_new {config : RateLimitConfig} {ttl : Duration}
    (h : (Duration.fromSecs config.periodSecs).ns ≤ ttl.ns) : Invariant (new config ttl) where
  keepsPeriod := h
  sound clientId := by
    constructor
    · intro _
      rfl
    · intro state hstate
      simp [new, RateLimitStorage.new] at hstate
    · intro state hstate
      simp [new, RateLimitStorage.new] at hstate
    · intro last hlast
      simp [lastCall, callsOf, new] at hlast

theorem Invariant.answer (h : Invariant a) (horder : a.InOrder call) : Invariant (a.answer call) := by
  by_cases hthreshold : a.storage.HasThreshold call.now
  · constructor
    · have hkeeps := h.keepsPeriod
      unfold KeepsPeriod at hkeeps ⊢
      rw [config_answer, ttl_answer]
      exact hkeeps
    · intro clientId
      by_cases hself : clientId = call.clientId
      · subst hself
        exact (h.sound call.clientId).answer_self h.keepsPeriod horder hthreshold
      · exact (h.sound clientId).answer_of_ne hself hthreshold
  · rw [answer_of_panic hthreshold]
    exact h

theorem Invariant.bounded (h : Invariant a) : a.Bounded := by
  intro clientId lo hi hle
  rw [allowedWithin_eq, RateLimitConfig.limitOver_eq]
  cases hlast : a.lastCall clientId with
  | none =>
      have hflow : 0 ≤ (hi.secs - lo.secs) * a.storage.config.refillRate :=
        mul_nonneg (by linarith [Instant.secs_le_secs hle]) a.storage.config.refillRate_nonneg
      have hcap : (0 : ℚ) ≤ a.storage.config.capacity := Nat.cast_nonneg _
      rw [allowedTimes_eq_nil hlast, TokenBucket.within_eq_zero (by simp)]
      linarith
  | some last =>
      exact ((h.sound clientId).accounted last hlast).within_le _ _ (Instant.secs_le_secs hle)

/-- The calls so far are no later than some time, and the buckets that were dropped had
been idle by then for longer than they are kept. -/
structure Settled (a : Audit) (now : Instant) : Prop where
  le : ∀ clientId, ∀ last ∈ a.lastCall clientId, last ≤ now
  idle : ∀ clientId, a.storage.inner.get? clientId = none →
    ∀ last ∈ a.lastCall clientId, last.ns + a.storage.ttl.ns ≤ now.ns

theorem settled_new (config : RateLimitConfig) (ttl : Duration) (now : Instant) :
    Settled (new config ttl) now := by
  constructor
  · intro clientId last hlast
    simp [lastCall, callsOf, new] at hlast
  · intro clientId _ last hlast
    simp [lastCall, callsOf, new] at hlast

theorem Settled.inOrder (h : Settled a call.now) (hkeeps : a.KeepsPeriod) : a.InOrder call := by
  intro last hlast
  refine ⟨h.le call.clientId last hlast, ?_⟩
  intro hnone
  have hidle := h.idle call.clientId hnone last hlast
  unfold KeepsPeriod at hkeeps
  omega

theorem Settled.answer {now : Instant} (h : Settled a now) (hsound : ∀ clientId, a.Sound clientId)
    (hle : call.now ≤ now) : Settled (a.answer call) now := by
  by_cases hthreshold : a.storage.HasThreshold call.now
  case neg =>
    rw [answer_of_panic hthreshold]
    exact h
  constructor
  · intro clientId last hlast
    by_cases hself : clientId = call.clientId
    · subst hself
      rw [lastCall_answer_self hthreshold, Option.mem_some_iff] at hlast
      rw [← hlast]
      exact hle
    · rw [lastCall_answer_of_ne hself] at hlast
      exact h.le clientId last hlast
  · intro clientId hnone last hlast
    by_cases hself : clientId = call.clientId
    · subst hself
      rw [get?_answer_self hthreshold] at hnone
      simp at hnone
    · rw [lastCall_answer_of_ne hself] at hlast
      rw [get?_answer_of_ne hself hthreshold] at hnone
      rw [ttl_answer]
      cases hstate : a.storage.inner.get? clientId with
      | none => exact h.idle clientId hstate last hlast
      | some state =>
          -- the call drops the bucket, which is older than the time to live
          have hdate : state.lastUpdate = last :=
            Option.some.inj (((hsound clientId).lastUpdate_eq state hstate).trans hlast)
          rw [hstate, Option.filter_some] at hnone
          split at hnone
          · simp at hnone
          · rename_i hdropped
            rw [decide_eq_true_eq, Instant.Recent] at hdropped
            rw [Instant.le_iff] at hle
            rw [← hdate]
            omega

/-- Calls in the order of their times never come late. -/
theorem along_inOrder {calls : List RateLimitCall} (hsorted : calls.Pairwise (fun c d => c.now ≤ d.now))
    (h : Invariant a) (hsettled : ∀ call ∈ calls, Settled a call.now) :
    Run.Along Audit.answer InOrder a calls := by
  induction calls generalizing a with
  | nil => trivial
  | cons call calls ih =>
      have horder := (hsettled call List.mem_cons_self).inOrder h.keepsPeriod
      refine ⟨horder, ih (List.pairwise_cons.mp hsorted).2 (h.answer horder) ?_⟩
      intro later hlater
      have hle := (List.pairwise_cons.mp hsorted).1 later hlater
      exact (hsettled later (List.mem_cons_of_mem call hlater)).answer h.sound hle

/-- Calls in the order of their times are allowed within the limit. -/
theorem bounded_of_sorted {config : RateLimitConfig} {ttl : Duration}
    (httl : (Duration.fromSecs config.periodSecs).ns ≤ ttl.ns) {calls : List RateLimitCall}
    (hsorted : calls.Pairwise (fun c d => c.now ≤ d.now)) :
    Bounded (Run.reach Audit.answer (new config ttl) calls) := by
  have horder := along_inOrder hsorted (invariant_new httl)
    (fun call _ => settled_new config ttl call.now)
  exact (Run.reach_of_step (fun _ _ h horder => h.answer horder) (invariant_new httl) horder).bounded

theorem config_reach (config : RateLimitConfig) (ttl : Duration) (calls : List RateLimitCall) :
    (Run.reach Audit.answer (new config ttl) calls).storage.config = config := by
  apply Run.invariant (P := fun a : Audit => a.storage.config = config)
  · intro a call h
    rw [config_answer]
    exact h
  · rfl

/-- **No time is credited twice**: while the calls of every client reach the storage in
the order of their times, and no bucket is dropped too early for a call that comes
late, no client is allowed more than the limit in any stretch of time. -/
theorem bounded_of_inOrder (config : RateLimitConfig) (ttl : Duration)
    (httl : (Duration.fromSecs config.periodSecs).ns ≤ ttl.ns) (calls : List RateLimitCall)
    (horder : Run.Along answer InOrder (new config ttl) calls) :
    Run.Throughout answer Bounded (new config ttl) calls :=
  (Run.throughout_of_step (fun _ _ h horder => h.answer horder) (invariant_new httl) horder).mono
    fun _ h => h.bounded

/-- Two clients that take turns. -/
theorem bounded_of_inOrder_turns :
    Run.Throughout answer Bounded (new ⟨1, 10, by decide, by decide, by decide⟩ (.fromSecs 20))
      [⟨"a", .ofSecs 0, .ofSecs 0⟩, ⟨"b", .ofSecs 5, .ofSecs 5⟩, ⟨"a", .ofSecs 10, .ofSecs 10⟩] :=
  bounded_of_inOrder ⟨1, 10, by decide, by decide, by decide⟩ (.fromSecs 20) (by decide) _
    (by decide +kernel)

/-- One request in ten seconds: the third call comes late, sets the bucket back, and the
ten seconds are credited again. -/
theorem not_allowedWithin_le :
    ¬ ∀ (config : RateLimitConfig) (ttl : Duration),
      (Duration.fromSecs config.periodSecs).ns ≤ ttl.ns →
      ∀ (clientId : String) (lo hi : Instant) (calls order : List RateLimitCall), lo ≤ hi →
        (∀ call ∈ calls, lo ≤ call.now ∧ call.now ≤ hi) → order.Perm calls →
        ((Run.reach answer (new config ttl) order).allowedWithin clientId lo hi : ℚ) ≤
          config.limitOver (hi.secs - lo.secs) := by
  intro h
  have hbound := h ⟨1, 10, by decide, by decide, by decide⟩ (.fromSecs 20) (by decide) "a"
    (.ofSecs 0) (.ofSecs 10)
    [⟨"a", .ofSecs 0, .ofSecs 0⟩, ⟨"a", .ofSecs 10, .ofSecs 0⟩, ⟨"a", .ofSecs 0, .ofSecs 0⟩,
      ⟨"a", .ofSecs 10, .ofSecs 0⟩]
    [⟨"a", .ofSecs 0, .ofSecs 0⟩, ⟨"a", .ofSecs 10, .ofSecs 0⟩, ⟨"a", .ofSecs 0, .ofSecs 0⟩,
      ⟨"a", .ofSecs 10, .ofSecs 0⟩]
    (by decide) (by decide) (List.Perm.refl _)
  revert hbound
  decide +kernel

end Audit

end Shorty
