import Mathlib.Data.List.Induction
import Shorty.RateLimit.Admission

/-!
# Shorty.RateLimit.Eviction

What the storage of the rate limiter loses by dropping idle buckets.  For calls in the
order of their times nothing is lost that the next call of the same client would not
have lost anyway, so clients do not influence each other; and a bucket that was idle
for a period is as good as a new one, so that dropping it shows exactly when buckets
are kept for less than a period.

A time to live that is longer than the clock reaches back makes every call panic until
the clock has a threshold for the clean-up.  These calls are the first of a run in the
order of its times, and leave no trace in the storage.
-/

namespace Shorty

namespace RateLimitStorage

/-- Calls in the order of their times. -/
def InTimeOrder (calls : List RateLimitCall) : Prop := calls.Pairwise (fun c d => c.now ≤ d.now)

instance decidableInTimeOrder (calls : List RateLimitCall) : Decidable (InTimeOrder calls) :=
  inferInstanceAs (Decidable (calls.Pairwise _))

/-- The storage after a call. -/
def handle (s : RateLimitStorage) (call : RateLimitCall) : RateLimitStorage := (s.checkAndConsume call).2

/-- What a call is told, if it does not panic. -/
def result (s : RateLimitStorage) (call : RateLimitCall) : Option (Bool × Nat) := (s.checkAndConsume call).1

variable {s t : RateLimitStorage} {call : RateLimitCall} {clientId : String}

theorem handle_of_panic (h : ¬ s.HasThreshold call.now) : s.handle call = s := by
  rw [handle, checkAndConsume_of_panic h]

theorem result_of_panic (h : ¬ s.HasThreshold call.now) : s.result call = none := by
  rw [result, checkAndConsume_of_panic h]

theorem result_of_hasThreshold (h : s.HasThreshold call.now) : s.result call =
    some ((((s.recent call.now).entryFor call).tryConsume s.config call.now).1,
      (((s.recent call.now).entryFor call).tryConsume s.config call.now).2.2) := by
  rw [result, checkAndConsume_of_hasThreshold h]
  rfl

@[simp] theorem config_handle : (s.handle call).config = s.config := config_checkAndConsume call

@[simp] theorem ttl_handle : (s.handle call).ttl = s.ttl := ttl_checkAndConsume call

theorem get?_handle_self (h : s.HasThreshold call.now) : (s.handle call).inner.get? call.clientId =
    some (((s.recent call.now).entryFor call).tryConsume s.config call.now).2.1 := by
  rw [handle, checkAndConsume_of_hasThreshold h, get?_consume, if_pos rfl]
  rfl

/-- A call drops no bucket of another client that the next call would not drop. -/
theorem get?_recent_handle_of_ne (hne : clientId ≠ call.clientId) {now : Instant}
    (hle : call.now ≤ now) :
    ((s.handle call).recent now).inner.get? clientId = (s.recent now).inner.get? clientId := by
  by_cases hthreshold : s.HasThreshold call.now
  · rw [get?_recent, ttl_handle, handle, get?_checkAndConsume_of_ne hne hthreshold, get?_recent,
      Option.filter_filter]
    congr 1
    funext state
    rw [Bool.eq_iff_iff]
    simp only [Bool.and_eq_true, decide_eq_true_eq]
    constructor
    · intro h
      exact h.2
    · intro h
      exact ⟨h.mono hle, h⟩
  · rw [handle_of_panic hthreshold]

/-! ## independence -/

/-- The coming calls of a client will find the same in two storages. -/
structure SameFor (clientId : String) (calls : List RateLimitCall) (s t : RateLimitStorage) : Prop where
  inTimeOrder : InTimeOrder calls
  config_eq : s.config = t.config
  ttl_eq : s.ttl = t.ttl
  found_eq : ∀ call ∈ calls,
    (s.recent call.now).inner.get? clientId = (t.recent call.now).inner.get? clientId

theorem entryFor_recent_eq (hconfig : s.config = t.config)
    (hfound : (s.recent call.now).inner.get? call.clientId =
      (t.recent call.now).inner.get? call.clientId) :
    (s.recent call.now).entryFor call = (t.recent call.now).entryFor call := by
  rw [entryFor, entryFor, hfound, config_recent, config_recent, hconfig]

theorem SameFor.tail {calls : List RateLimitCall} (h : SameFor clientId (call :: calls) s t) :
    SameFor clientId calls s t where
  inTimeOrder := (List.pairwise_cons.mp h.inTimeOrder).2
  config_eq := h.config_eq
  ttl_eq := h.ttl_eq
  found_eq later hlater := h.found_eq later (List.mem_cons_of_mem call hlater)

/-- A call of the client is told the same and leaves the same, or panics in both. -/
theorem SameFor.handle {calls : List RateLimitCall} (h : SameFor call.clientId (call :: calls) s t) :
    s.result call = t.result call ∧ SameFor call.clientId calls (s.handle call) (t.handle call) := by
  have hentry := entryFor_recent_eq h.config_eq (h.found_eq call List.mem_cons_self)
  have hboth : t.HasThreshold call.now ↔ s.HasThreshold call.now := by
    rw [HasThreshold, HasThreshold, h.ttl_eq]
  by_cases hs : s.HasThreshold call.now
  · have ht := hboth.mpr hs
    constructor
    · rw [result_of_hasThreshold hs, result_of_hasThreshold ht, hentry, h.config_eq]
    · constructor
      · exact (List.pairwise_cons.mp h.inTimeOrder).2
      · rw [config_handle, config_handle, h.config_eq]
      · rw [ttl_handle, ttl_handle, h.ttl_eq]
      · intro later _
        rw [get?_recent, get?_recent, get?_handle_self hs, get?_handle_self ht, hentry, h.config_eq,
          ttl_handle, ttl_handle, h.ttl_eq]
  · have ht : ¬ t.HasThreshold call.now := fun ht => hs (hboth.mp ht)
    rw [result_of_panic hs, result_of_panic ht, handle_of_panic hs, handle_of_panic ht]
    exact ⟨rfl, h.tail⟩

/-- A call of another client changes nothing for this one. -/
theorem SameFor.handle_of_ne {calls : List RateLimitCall} (h : SameFor clientId (call :: calls) s t)
    (hne : clientId ≠ call.clientId) : SameFor clientId calls (s.handle call) t where
  inTimeOrder := h.tail.inTimeOrder
  config_eq := by rw [config_handle, h.config_eq]
  ttl_eq := by rw [ttl_handle, h.ttl_eq]
  found_eq later hlater := by
    have hle : call.now ≤ later.now := (List.pairwise_cons.mp h.inTimeOrder).1 later hlater
    rw [get?_recent_handle_of_ne hne hle]
    exact h.tail.found_eq later hlater

/-- **Independence**: for calls in the order of their times, a client is told what it
would be told alone, and its calls panic where they would panic alone. -/
theorem seen_eq_alone (config : RateLimitConfig) (ttl : Duration) (clientId : String)
    (calls : List RateLimitCall) (h : InTimeOrder calls) :
    Run.seen handle result (fun call => decide (call.clientId = clientId)) (new config ttl) calls =
      Run.outputs handle result (new config ttl)
        (calls.filter (fun call => decide (call.clientId = clientId))) := by
  apply Run.seen_eq_outputs_filter (SameFor clientId)
  · intro call calls s t hsame hself
    obtain rfl : call.clientId = clientId := of_decide_eq_true hself
    exact hsame.handle
  · intro call calls s t hsame hother
    have hne : ¬ call.clientId = clientId := of_decide_eq_false hother
    exact hsame.handle_of_ne (fun heq => hne heq.symm)
  · exact ⟨h, rfl, rfl, fun _ _ => rfl⟩

/-- A client whose bucket is dropped by another one's call. -/
theorem seen_eq_alone_dropped :
    Run.seen handle result (fun call => decide (call.clientId = "a"))
        (new ⟨1, 60, by decide, by decide, by decide⟩ (.fromSecs 10))
        [⟨"a", .ofSecs 0, .ofSecs 0⟩, ⟨"b", .ofSecs 15, .ofSecs 15⟩, ⟨"a", .ofSecs 16, .ofSecs 16⟩] =
      Run.outputs handle result (new ⟨1, 60, by decide, by decide, by decide⟩ (.fromSecs 10))
        [⟨"a", .ofSecs 0, .ofSecs 0⟩, ⟨"a", .ofSecs 16, .ofSecs 16⟩] :=
  seen_eq_alone ⟨1, 60, by decide, by decide, by decide⟩ (.fromSecs 10) "a"
    [⟨"a", .ofSecs 0, .ofSecs 0⟩, ⟨"b", .ofSecs 15, .ofSecs 15⟩, ⟨"a", .ofSecs 16, .ofSecs 16⟩]
    (by decide +kernel)

/-! ## a storage that never drops a bucket -/

/-- The storage after a call, without the clean-up. -/
def handleKeeping (s : RateLimitStorage) (call : RateLimitCall) : RateLimitStorage := (s.consume call).2

/-- What a call is told, without the clean-up. -/
def resultKeeping (s : RateLimitStorage) (call : RateLimitCall) : Option (Bool × Nat) :=
  some (s.consume call).1

/-- The clock has a threshold for the clean-up of every call. -/
def NonePanics (ttl : Duration) (calls : List RateLimitCall) : Prop :=
  ∀ call ∈ calls, (call.now.sub ttl).isSome = true

instance (ttl : Duration) (calls : List RateLimitCall) : Decidable (NonePanics ttl calls) :=
  inferInstanceAs (Decidable (∀ call ∈ calls, _))

/-- A storage that drops buckets and one that keeps them have the same tokens for the
coming calls. -/
structure SameTokens (calls : List RateLimitCall) (s t : RateLimitStorage) : Prop where
  inTimeOrder : InTimeOrder calls
  nonePanics : NonePanics s.ttl calls
  config_eq : s.config = t.config
  keepsPeriod : (Duration.fromSecs s.config.periodSecs).ns ≤ s.ttl.ns
  tokens_nonneg : ∀ clientId, ∀ state ∈ t.inner.get? clientId, 0 ≤ state.tokens
  tokens_eq : ∀ call ∈ calls, ((s.recent call.now).entryFor call).newTokens s.config call.now =
    (t.entryFor call).newTokens t.config call.now

theorem tryConsume_congr {config : RateLimitConfig} {now : Instant} {state state' : RateLimitState}
    (h : state.newTokens config now = state'.newTokens config now) :
    state.tryConsume config now = state'.tryConsume config now := by
  rw [RateLimitState.tryConsume_eq, RateLimitState.tryConsume_eq, h]

theorem tokens_entryFor_nonneg (h : ∀ state ∈ t.inner.get? call.clientId, 0 ≤ state.tokens) :
    0 ≤ (t.entryFor call).tokens := by
  unfold entryFor
  cases hstate : t.inner.get? call.clientId with
  | none => exact Nat.cast_nonneg _
  | some state => exact h state hstate

theorem SameTokens.hasThreshold {calls : List RateLimitCall} (h : SameTokens (call :: calls) s t) :
    s.HasThreshold call.now :=
  h.nonePanics call List.mem_cons_self

theorem SameTokens.tryConsume_eq {calls : List RateLimitCall} (h : SameTokens (call :: calls) s t) :
    ((s.recent call.now).entryFor call).tryConsume s.config call.now =
      (t.entryFor call).tryConsume t.config call.now := by
  have htokens := h.tokens_eq call List.mem_cons_self
  rw [← h.config_eq] at htokens ⊢
  exact tryConsume_congr htokens

/-- A bucket that was used lately is kept. -/
theorem entryFor_of_recent {state : RateLimitState} (hs : s.inner.get? call.clientId = some state)
    (h : call.now.Recent s.ttl state.lastUpdate) : (s.recent call.now).entryFor call = state := by
  rw [entryFor, get?_recent, hs, Option.filter_some, if_pos (decide_eq_true h), Option.getD_some]

/-- A bucket that has been idle for longer than it is kept is made anew. -/
theorem entryFor_of_idle
    (h : ∀ state ∈ s.inner.get? call.clientId, ¬ call.now.Recent s.ttl state.lastUpdate) :
    (s.recent call.now).entryFor call = .newFull call.clock s.config.capacity := by
  rw [entryFor, get?_recent]
  cases hs : s.inner.get? call.clientId with
  | none => rfl
  | some state =>
      rw [Option.filter_some, decide_eq_false (h state hs)]
      rfl

/-- A bucket that a call writes is there for the next call of the client, or is full
for it either way. -/
theorem newTokens_of_written {state : RateLimitState}
    (hkeeps : (Duration.fromSecs s.config.periodSecs).ns ≤ s.ttl.ns)
    (hs : s.inner.get? call.clientId = some state) (htokens : 0 ≤ state.tokens) :
    ((s.recent call.now).entryFor call).newTokens s.config call.now =
      state.newTokens s.config call.now := by
  by_cases hrecent : call.now.Recent s.ttl state.lastUpdate
  · rw [entryFor_of_recent hs hrecent]
  · have hidle : state.lastUpdate.ns + (Duration.fromSecs s.config.periodSecs).ns ≤ call.now.ns := by
      unfold Instant.Recent at hrecent
      omega
    have hdropped : ∀ state ∈ s.inner.get? call.clientId, ¬ call.now.Recent s.ttl state.lastUpdate := by
      simp [hs, hrecent]
    rw [entryFor_of_idle hdropped, RateLimitState.newTokens_newFull,
      RateLimitState.newTokens_of_idle s.config htokens hidle]

theorem SameTokens.tokens_eq_self {calls : List RateLimitCall} (h : SameTokens (call :: calls) s t)
    {later : RateLimitCall} (hself : later.clientId = call.clientId) :
    (((s.handle call).recent later.now).entryFor later).newTokens s.config later.now =
      ((t.handleKeeping call).entryFor later).newTokens t.config later.now := by
  have hwritten : (s.handle call).inner.get? later.clientId =
      some ((t.entryFor call).tryConsume t.config call.now).2.1 := by
    rw [hself, get?_handle_self h.hasThreshold, h.tryConsume_eq]
  have hkept : (t.handleKeeping call).entryFor later = ((t.entryFor call).tryConsume t.config call.now).2.1 := by
    rw [entryFor, handleKeeping, get?_consume, if_pos hself, Option.getD_some]
  have htokens : 0 ≤ ((t.entryFor call).tryConsume t.config call.now).2.1.tokens :=
    RateLimitState.tokens_tryConsume_nonneg t.config (tokens_entryFor_nonneg (h.tokens_nonneg call.clientId))
  have hkeeps : (Duration.fromSecs (s.handle call).config.periodSecs).ns ≤ (s.handle call).ttl.ns := by
    rw [config_handle, ttl_handle]
    exact h.keepsPeriod
  have hs := newTokens_of_written hkeeps hwritten htokens
  rw [config_handle, ← h.config_eq] at hs
  rw [hkept, ← h.config_eq]
  exact hs

theorem SameTokens.tokens_eq_of_ne {calls : List RateLimitCall} (h : SameTokens (call :: calls) s t)
    {later : RateLimitCall} (hlater : later ∈ calls) (hne : later.clientId ≠ call.clientId) :
    (((s.handle call).recent later.now).entryFor later).newTokens s.config later.now =
      ((t.handleKeeping call).entryFor later).newTokens t.config later.now := by
  have hle : call.now ≤ later.now := (List.pairwise_cons.mp h.inTimeOrder).1 later hlater
  have hsame : ((s.handle call).recent later.now).entryFor later =
      (s.recent later.now).entryFor later := by
    rw [entryFor, get?_recent_handle_of_ne hne hle, config_recent, config_handle]
    rfl
  have hkept : (t.handleKeeping call).entryFor later = t.entryFor later := by
    rw [entryFor, handleKeeping, get?_consume, if_neg hne]
    rfl
  rw [hsame, hkept]
  exact h.tokens_eq later (List.mem_cons_of_mem call hlater)

/-- A call is told the same, and leaves the same tokens for the coming ones. -/
theorem SameTokens.handle {calls : List RateLimitCall} (h : SameTokens (call :: calls) s t) :
    s.result call = t.resultKeeping call ∧ SameTokens calls (s.handle call) (t.handleKeeping call) := by
  constructor
  · rw [result_of_hasThreshold h.hasThreshold, resultKeeping, fst_consume, h.tryConsume_eq]
  · constructor
    · exact (List.pairwise_cons.mp h.inTimeOrder).2
    · intro later hlater
      rw [ttl_handle]
      exact h.nonePanics later (List.mem_cons_of_mem call hlater)
    · rw [config_handle]
      exact h.config_eq
    · rw [config_handle, ttl_handle]
      exact h.keepsPeriod
    · intro clientId state hstate
      rw [handleKeeping, get?_consume] at hstate
      split at hstate
      · obtain rfl := Option.mem_some_iff.mp hstate
        exact RateLimitState.tokens_tryConsume_nonneg t.config
          (tokens_entryFor_nonneg (h.tokens_nonneg call.clientId))
      · exact h.tokens_nonneg clientId state hstate
    · intro later hlater
      rw [config_handle]
      by_cases hself : later.clientId = call.clientId
      · exact h.tokens_eq_self hself
      · exact h.tokens_eq_of_ne hlater hself

theorem outputs_eq_keeping {config : RateLimitConfig} {ttl : Duration}
    (httl : (Duration.fromSecs config.periodSecs).ns ≤ ttl.ns) {calls : List RateLimitCall}
    (h : InTimeOrder calls) (hthresholds : NonePanics ttl calls) :
    Run.outputs handle result (new config ttl) calls =
      Run.outputs handleKeeping resultKeeping (new config ttl) calls := by
  apply Run.outputs_eq_of_rel SameTokens
  · intro call calls s t hsame
    exact hsame.handle
  · constructor
    · exact h
    · exact hthresholds
    · rfl
    · exact httl
    · intro clientId state hstate
      simp [new] at hstate
    · intro call _
      rfl

/-! ### a time to live of half the clock's range -/

/-- Buckets that are as old as the clock can tell are recent all the same. -/
structure SameBuckets (calls : List RateLimitCall) (s t : RateLimitStorage) : Prop where
  nonePanics : NonePanics s.ttl calls
  config_eq : s.config = t.config
  long : 2 ^ 63 * 10 ^ 9 ≤ s.ttl.ns
  get?_eq : ∀ clientId, s.inner.get? clientId = t.inner.get? clientId
  dated : ∀ clientId, ∀ state ∈ s.inner.get? clientId, s.HasThreshold state.lastUpdate

theorem SameBuckets.get?_recent_eq {calls : List RateLimitCall} (h : SameBuckets (call :: calls) s t)
    (clientId : String) : (s.recent call.now).inner.get? clientId = s.inner.get? clientId := by
  rw [get?_recent]
  cases hstate : s.inner.get? clientId with
  | none => rfl
  | some state =>
      have hdated := h.dated clientId state hstate
      rw [HasThreshold, Instant.isSome_sub_iff] at hdated
      have hrecent : call.now.Recent s.ttl state.lastUpdate := by
        have hlong := h.long
        have hrange := call.now.inRange
        unfold Instant.Recent
        omega
      rw [Option.filter_some, if_pos (decide_eq_true hrecent)]

theorem SameBuckets.handle {calls : List RateLimitCall} (h : SameBuckets (call :: calls) s t) :
    s.result call = t.resultKeeping call ∧ SameBuckets calls (s.handle call) (t.handleKeeping call) := by
  have hthreshold : s.HasThreshold call.now := h.nonePanics call List.mem_cons_self
  have hentry : (s.recent call.now).entryFor call = t.entryFor call := by
    rw [entryFor, entryFor, h.get?_recent_eq, h.get?_eq, config_recent, h.config_eq]
  have hget : ∀ clientId, (s.handle call).inner.get? clientId =
      if clientId = call.clientId then some ((t.entryFor call).tryConsume t.config call.now).2.1
      else s.inner.get? clientId := by
    intro clientId
    rw [RateLimitStorage.handle, checkAndConsume_of_hasThreshold hthreshold, get?_consume, hentry,
      config_recent, h.config_eq, h.get?_recent_eq]
  constructor
  · rw [result_of_hasThreshold hthreshold, resultKeeping, fst_consume, hentry, h.config_eq]
  · constructor
    · intro later hlater
      rw [ttl_handle]
      exact h.nonePanics later (List.mem_cons_of_mem call hlater)
    · rw [config_handle]
      exact h.config_eq
    · rw [ttl_handle]
      exact h.long
    · intro clientId
      rw [hget, handleKeeping, get?_consume, h.get?_eq]
    · intro clientId state hstate
      rw [HasThreshold, ttl_handle]
      rw [hget] at hstate
      split at hstate
      · rw [← Option.mem_some_iff.mp hstate, RateLimitState.lastUpdate_tryConsume]
        exact hthreshold
      · exact h.dated clientId state hstate

/-- Half the clock's range before a call that does not panic there is no other. -/
theorem outputs_eq_keeping_of_long {config : RateLimitConfig} {ttl : Duration}
    (hlong : 2 ^ 63 * 10 ^ 9 ≤ ttl.ns) {calls : List RateLimitCall} (hthresholds : NonePanics ttl calls) :
    Run.outputs handle result (new config ttl) calls =
      Run.outputs handleKeeping resultKeeping (new config ttl) calls := by
  apply Run.outputs_eq_of_rel SameBuckets
  · intro call calls s t hsame
    exact hsame.handle
  · constructor
    · exact hthresholds
    · rfl
    · exact hlong
    · intro clientId
      rfl
    · intro clientId state hstate
      simp [new] at hstate

/-! ## bursts -/

/-- Requests at one time use up the tokens there are. -/
theorem outputs_replicate {n : Nat} {level : ℚ} (hthreshold : s.HasThreshold call.now)
    (hlevel : ((s.recent call.now).entryFor call).newTokens s.config call.now = level)
    (hn : (n : ℚ) ≤ level) :
    Run.outputs handle result s (List.replicate n call) = List.replicate n (some (true, 0)) := by
  induction n generalizing s level with
  | zero => rfl
  | succ n ih =>
      have hone : (1 : ℚ) ≤ level := by
        push_cast at hn
        have : (0 : ℚ) ≤ n := Nat.cast_nonneg n
        linarith
      have hconsume : ((s.recent call.now).entryFor call).tryConsume s.config call.now =
          (true, ⟨level - 1, call.now⟩, 0) := by
        rw [RateLimitState.tryConsume_eq, hlevel, if_pos hone]
      have hresult : s.result call = some (true, 0) := by
        rw [result_of_hasThreshold hthreshold, hconsume]
      have hnextThreshold : (s.handle call).HasThreshold call.now := by
        rw [HasThreshold, ttl_handle]
        exact hthreshold
      -- the bucket is kept at the time it was written, and nothing flows in
      have hnext : (((s.handle call).recent call.now).entryFor call).newTokens s.config call.now =
          level - 1 := by
        have hwritten : (s.handle call).inner.get? call.clientId = some ⟨level - 1, call.now⟩ := by
          rw [get?_handle_self hthreshold, hconsume]
        have hcap := RateLimitState.newTokens_le_capacity
          ((s.recent call.now).entryFor call) s.config call.now
        rw [entryFor_of_recent hwritten (Instant.recent_self call.now _)]
        simp only [RateLimitState.newTokens, TokenBucket.available, RateLimitState.bucket, sub_self,
          max_self, zero_mul, add_zero]
        apply min_eq_left
        linarith
      have hconfig : (s.handle call).config = s.config := config_handle
      rw [← hconfig] at hnext
      rw [List.replicate_succ, Run.outputs, hresult, ih hnextThreshold hnext
        (by push_cast at hn; linarith), List.replicate_succ]

/-- After requests at one time every bucket was used at that time. -/
theorem lastUpdate_reach_replicate (n : Nat) (hthreshold : s.HasThreshold call.now)
    (h : ∀ state ∈ s.inner.get? call.clientId, state.lastUpdate = call.now) :
    ∀ state ∈ (Run.reach handle s (List.replicate n call)).inner.get? call.clientId,
      state.lastUpdate = call.now := by
  induction n generalizing s with
  | zero => exact h
  | succ n ih =>
      rw [List.replicate_succ, Run.reach_cons]
      apply ih
      · rw [HasThreshold, ttl_handle]
        exact hthreshold
      intro state hstate
      rw [get?_handle_self hthreshold, Option.mem_some_iff] at hstate
      rw [← hstate, RateLimitState.lastUpdate_tryConsume]

/-- A nanosecond more than some seconds. -/
def justAfter (secs : Fin (2 ^ 63)) : Instant where
  ns := secs * 10 ^ 9 + 1
  inRange := by omega

theorem ofSecs_le_justAfter (secs : Fin (2 ^ 63)) : Instant.ofSecs 0 ≤ justAfter secs := by
  rw [Instant.le_iff]
  show (0 : Int) * 10 ^ 9 ≤ secs * 10 ^ 9 + 1
  omega

/-- The calls of two bursts that each use up a full bucket: the second one comes a
nanosecond after the first bucket is given up. -/
def burst (config : RateLimitConfig) (ttlSecs : Fin (2 ^ 63)) : List RateLimitCall :=
  List.replicate config.capacity ⟨"", .ofSecs 0, .ofSecs 0⟩ ++
    List.replicate config.capacity ⟨"", justAfter ttlSecs, .ofSecs 0⟩

theorem inTimeOrder_burst (config : RateLimitConfig) (ttlSecs : Fin (2 ^ 63)) :
    InTimeOrder (burst config ttlSecs) := by
  unfold InTimeOrder burst
  rw [List.pairwise_append]
  refine ⟨by simp, by simp, ?_⟩
  intro c hc d hd
  rw [(List.mem_replicate.mp hc).2, (List.mem_replicate.mp hd).2]
  exact ofSecs_le_justAfter ttlSecs

theorem mem_burst {config : RateLimitConfig} {ttlSecs : Fin (2 ^ 63)} (h : call ∈ burst config ttlSecs) :
    call.clientId = "" ∧ Instant.ofSecs 0 ≤ call.now ∧ call.now ≤ justAfter ttlSecs := by
  rw [burst, List.mem_append, List.mem_replicate, List.mem_replicate] at h
  cases h with
  | inl hfirst =>
      rw [hfirst.2]
      exact ⟨rfl, le_rfl, ofSecs_le_justAfter ttlSecs⟩
  | inr hsecond =>
      rw [hsecond.2]
      exact ⟨rfl, ofSecs_le_justAfter ttlSecs, le_rfl⟩

/-- A time to live of less than half the clock's range has a threshold from the origin on. -/
theorem isSome_sub_ofSecs (ttlSecs : Fin (2 ^ 63)) :
    ((Instant.ofSecs 0).sub (.fromSecs ttlSecs)).isSome = true := by
  have hrange := ttlSecs.isLt
  rw [Instant.isSome_sub_iff]
  show -(2 ^ 63 * 10 ^ 9) ≤ (0 : Int) * 10 ^ 9 - ((ttlSecs * 10 ^ 9 : Nat) : Int)
  omega

theorem nonePanics_burst (config : RateLimitConfig) (ttlSecs : Fin (2 ^ 63)) {ttl : Duration}
    (h : ((Instant.ofSecs 0).sub ttl).isSome = true) : NonePanics ttl (burst config ttlSecs) := by
  intro call hcall
  exact Instant.isSome_sub_of_le h (mem_burst hcall).2.1

/-- Less than a period is not enough for the second burst. -/
theorem limitOver_lt {config : RateLimitConfig} (hcapacity : 1 ≤ config.capacity) {ttlSecs : Fin (2 ^ 63)}
    (hshort : ttlSecs < config.periodSecs) :
    config.limitOver ((justAfter ttlSecs).secs - (Instant.ofSecs 0).secs) <
      config.capacity + config.capacity := by
  have hcap : (1 : ℚ) ≤ config.capacity := by exact_mod_cast hcapacity
  have hperiod : ((ttlSecs : Nat) : ℚ) + 1 ≤ config.periodSecs := by exact_mod_cast hshort
  have hfill := config.periodSecs_mul_refillRate
  have hrate : 0 < config.refillRate := div_pos (by linarith) config.periodSecs_pos
  have hspan : (justAfter ttlSecs).secs - (Instant.ofSecs 0).secs < config.periodSecs := by
    simp only [Instant.secs, justAfter, Instant.ofSecs, Fin.val_zero]
    push_cast
    linarith
  have hless := mul_lt_mul_of_pos_right hspan hrate
  rw [RateLimitConfig.limitOver_eq]
  linarith

theorem config_ttl_reach (s : RateLimitStorage) (calls : List RateLimitCall) :
    (Run.reach handle s calls).config = s.config ∧ (Run.reach handle s calls).ttl = s.ttl := by
  apply Run.invariant (P := fun t : RateLimitStorage => t.config = s.config ∧ t.ttl = s.ttl)
  · intro t call h
    rw [config_handle, ttl_handle]
    exact h
  · exact ⟨rfl, rfl⟩

/-- After the first burst, the second one finds a full bucket again. -/
theorem newTokens_burst (config : RateLimitConfig) (ttlSecs : Fin (2 ^ 63)) {s : RateLimitStorage}
    (hs : s = Run.reach handle (new config (.fromSecs ttlSecs))
      (List.replicate config.capacity ⟨"", .ofSecs 0, .ofSecs 0⟩))
    (hcall : call = ⟨"", justAfter ttlSecs, .ofSecs 0⟩) :
    ((s.recent call.now).entryFor call).newTokens s.config call.now = config.capacity := by
  have hkept := config_ttl_reach (new config (.fromSecs ttlSecs))
    (List.replicate config.capacity ⟨"", .ofSecs 0, .ofSecs 0⟩)
  have hused : ∀ state ∈ (Run.reach handle (new config (.fromSecs ttlSecs))
      (List.replicate config.capacity ⟨"", .ofSecs 0, .ofSecs 0⟩)).inner.get? "",
      state.lastUpdate = .ofSecs 0 :=
    lastUpdate_reach_replicate config.capacity (isSome_sub_ofSecs ttlSecs) (by simp [new])
  rw [← hs] at hkept hused
  have hidle : ∀ state ∈ s.inner.get? call.clientId, ¬ call.now.Recent s.ttl state.lastUpdate := by
    intro state hstate
    rw [hcall] at hstate ⊢
    rw [hused state hstate, hkept.2]
    show ¬ (ttlSecs * 10 ^ 9 + 1 : Int) - ((ttlSecs * 10 ^ 9 : Nat) : Int) ≤ (0 : Int) * 10 ^ 9
    push_cast
    omega
  rw [entryFor_of_idle hidle, hkept.1]
  exact RateLimitState.newTokens_newFull config call.clock

/-- A storage that gives up the bucket in between allows both bursts. -/
theorem outputs_burst (config : RateLimitConfig) (ttlSecs : Fin (2 ^ 63)) :
    Run.outputs handle result (new config (.fromSecs ttlSecs)) (burst config ttlSecs) =
      List.replicate (config.capacity + config.capacity) (some (true, 0)) := by
  have hfirst : Run.outputs handle result (new config (.fromSecs ttlSecs))
      (List.replicate config.capacity ⟨"", .ofSecs 0, .ofSecs 0⟩) =
        List.replicate config.capacity (some (true, 0)) :=
    outputs_replicate (isSome_sub_ofSecs ttlSecs) (RateLimitState.newTokens_newFull config (.ofSecs 0))
      le_rfl
  have hthreshold : (Run.reach handle (new config (.fromSecs ttlSecs))
      (List.replicate config.capacity ⟨"", .ofSecs 0, .ofSecs 0⟩)).HasThreshold (justAfter ttlSecs) := by
    rw [HasThreshold, (config_ttl_reach _ _).2]
    exact Instant.isSome_sub_of_le (isSome_sub_ofSecs ttlSecs) (ofSecs_le_justAfter ttlSecs)
  have hsecond : Run.outputs handle result _ (List.replicate config.capacity ⟨"", justAfter ttlSecs, .ofSecs 0⟩) =
      List.replicate config.capacity (some (true, 0)) :=
    outputs_replicate hthreshold (newTokens_burst config ttlSecs rfl rfl) (le_refl (config.capacity : ℚ))
  rw [burst, Run.outputs_append, hfirst, hsecond, List.replicate_add]

/-! ## when dropping a bucket shows -/

/-- The calls of one client on a storage that keeps its buckets are the requests on one
bucket. -/
theorem outputs_keeping_client (s : RateLimitStorage) (clientId : String) (clock : Instant)
    (times : List Instant) :
    (Run.outputs handleKeeping resultKeeping s (times.map (fun now => ⟨clientId, now, clock⟩))).map
        (Option.map Prod.fst) =
      (Run.outputs (RateLimitState.after s.config) (RateLimitState.allowed s.config)
        ((s.inner.get? clientId).getD (.newFull clock s.config.capacity)) times).map some := by
  induction times generalizing s with
  | nil => rfl
  | cons now times ih =>
      have hnext := ih (s.handleKeeping ⟨clientId, now, clock⟩)
      have hwritten : (s.handleKeeping ⟨clientId, now, clock⟩).inner.get? clientId =
          some (RateLimitState.after s.config
            ((s.inner.get? clientId).getD (.newFull clock s.config.capacity)) now) := by
        rw [handleKeeping, get?_consume, if_pos rfl]
        rfl
      rw [hwritten, Option.getD_some] at hnext
      simp only [List.map_cons, Run.outputs]
      rw [hnext]
      rfl

/-- A storage that keeps its buckets does not allow both bursts. -/
theorem outputs_keeping_burst_ne {config : RateLimitConfig} (hcapacity : 1 ≤ config.capacity)
    {ttlSecs : Fin (2 ^ 63)} (hshort : ttlSecs < config.periodSecs) (ttl : Duration) :
    Run.outputs handleKeeping resultKeeping (new config ttl) (burst config ttlSecs) ≠
      List.replicate (config.capacity + config.capacity) (some (true, 0)) := by
  intro hall
  have htimes : burst config ttlSecs =
      (List.replicate config.capacity (Instant.ofSecs 0) ++
        List.replicate config.capacity (justAfter ttlSecs)).map (fun now => ⟨"", now, .ofSecs 0⟩) := by
    simp [burst]
  have hallowed := outputs_keeping_client (new config ttl) "" (.ofSecs 0)
    (List.replicate config.capacity (Instant.ofSecs 0) ++
      List.replicate config.capacity (justAfter ttlSecs))
  rw [← htimes, hall, List.map_replicate] at hallowed
  have hsome : List.replicate (config.capacity + config.capacity) (some true) =
      (List.replicate (config.capacity + config.capacity) true).map some := List.map_replicate.symm
  have htrue := List.map_injective_iff.mpr (Option.some_injective _) (hallowed.symm.trans hsome)
  have hpos : config.capacity ≠ 0 := by omega
  have hsorted : (List.replicate config.capacity (Instant.ofSecs 0) ++
      List.replicate config.capacity (justAfter ttlSecs)).Pairwise (· ≤ ·) := by
    refine List.pairwise_append.mpr ⟨by simp, by simp, fun c hc d hd => ?_⟩
    rw [(List.mem_replicate.mp hc).2, (List.mem_replicate.mp hd).2]
    exact ofSecs_le_justAfter ttlSecs
  have hfirst : (List.replicate config.capacity (Instant.ofSecs 0) ++
      List.replicate config.capacity (justAfter ttlSecs)).head? = some (.ofSecs 0) := by
    simp [List.head?_replicate, hpos]
  have hlast : (List.replicate config.capacity (Instant.ofSecs 0) ++
      List.replicate config.capacity (justAfter ttlSecs)).getLast? = some (justAfter ttlSecs) := by
    simp [List.getLast?_replicate, hpos]
  have hbound := RateLimitState.count_outputs_allowed_le config
    (RateLimitState.inRange_newFull config (.ofSecs 0)) hsorted hfirst hlast
  have hfull : ((new config ttl).inner.get? "").getD (.newFull (.ofSecs 0) (new config ttl).config.capacity) =
      RateLimitState.newFull (.ofSecs 0) config.capacity := by simp [new]
  rw [hfull] at htrue
  have hless := limitOver_lt hcapacity hshort
  rw [show Run.outputs (RateLimitState.after config) (RateLimitState.allowed config) _ _ = _ from htrue]
    at hbound
  simp only [List.count_replicate_self] at hbound
  push_cast at hbound
  exact absurd hbound (not_le.mpr hless)

/-- A call that panics is told nothing. -/
theorem none_mem_outputs {s : RateLimitStorage} {calls : List RateLimitCall} (h : ¬ NonePanics s.ttl calls) :
    none ∈ Run.outputs handle result s calls := by
  induction calls generalizing s with
  | nil => exact absurd (fun call hcall => absurd hcall (List.not_mem_nil)) h
  | cons call calls ih =>
      rw [Run.outputs, List.mem_cons]
      by_cases hthreshold : s.HasThreshold call.now
      · right
        apply ih
        rw [ttl_handle]
        intro hlater
        exact h (List.forall_mem_cons.mpr ⟨hthreshold, hlater⟩)
      · left
        exact (result_of_panic hthreshold).symm

theorem none_not_mem_outputs_keeping (s : RateLimitStorage) (calls : List RateLimitCall) :
    none ∉ Run.outputs handleKeeping resultKeeping s calls := by
  induction calls generalizing s with
  | nil => simp [Run.outputs]
  | cons call calls ih =>
      rw [Run.outputs, List.mem_cons, not_or]
      exact ⟨Option.some_ne_none _ ∘ Eq.symm, ih _⟩

/-- **Time to live**: in the runs in the order of their times in which no call panics,
dropping idle buckets does not show exactly when they are kept for a period, or for half
the clock's range; and a call that panics shows in any run. -/
theorem outputs_eq_keeping_iff (config : RateLimitConfig) (hcapacity : 1 ≤ config.capacity) (ttlSecs : Nat) :
    ((∀ calls, InTimeOrder calls → NonePanics (.fromSecs ttlSecs) calls →
      Run.outputs handle result (new config (.fromSecs ttlSecs)) calls =
        Run.outputs handleKeeping resultKeeping (new config (.fromSecs ttlSecs)) calls) ↔
      config.periodSecs ≤ ttlSecs ∨ 2 ^ 63 ≤ ttlSecs) ∧
    ∀ calls, ¬ NonePanics (.fromSecs ttlSecs) calls →
      Run.outputs handle result (new config (.fromSecs ttlSecs)) calls ≠
        Run.outputs handleKeeping resultKeeping (new config (.fromSecs ttlSecs)) calls := by
  constructor
  · constructor
    · intro hsame
      by_contra hshort
      rw [not_or, not_le, not_le] at hshort
      have htwice : Run.outputs handle result (new config (.fromSecs ttlSecs))
          (burst config ⟨ttlSecs, hshort.2⟩) =
            List.replicate (config.capacity + config.capacity) (some (true, 0)) :=
        outputs_burst config ⟨ttlSecs, hshort.2⟩
      rw [hsame _ (inTimeOrder_burst config _)
        (nonePanics_burst config _ (isSome_sub_ofSecs ⟨ttlSecs, hshort.2⟩))]
        at htwice
      exact outputs_keeping_burst_ne hcapacity hshort.1 _ htwice
    · rintro (hlong | hhalf) calls hcalls hthresholds
      · apply outputs_eq_keeping _ hcalls hthresholds
        simp only [Duration.fromSecs]
        omega
      · apply outputs_eq_keeping_of_long _ hthresholds
        simp only [Duration.fromSecs]
        omega
  · intro calls hpanics hsame
    have hnone := none_mem_outputs (s := new config (.fromSecs ttlSecs)) hpanics
    rw [hsame] at hnone
    exact none_not_mem_outputs_keeping _ _ hnone

/-- A limit of one request a minute. -/
theorem outputs_eq_keeping_minute :
    ((∀ calls, InTimeOrder calls → NonePanics (.fromSecs 10) calls →
      Run.outputs handle result (new ⟨1, 60, by decide, by decide, by decide⟩ (.fromSecs 10)) calls =
        Run.outputs handleKeeping resultKeeping
          (new ⟨1, 60, by decide, by decide, by decide⟩ (.fromSecs 10)) calls) ↔
      60 ≤ 10 ∨ 2 ^ 63 ≤ 10) ∧
    ∀ calls, ¬ NonePanics (.fromSecs 10) calls →
      Run.outputs handle result (new ⟨1, 60, by decide, by decide, by decide⟩ (.fromSecs 10)) calls ≠
        Run.outputs handleKeeping resultKeeping
          (new ⟨1, 60, by decide, by decide, by decide⟩ (.fromSecs 10)) calls :=
  outputs_eq_keeping_iff ⟨1, 60, by decide, by decide, by decide⟩ (by decide) 10

/-- The longest time to live is longer than a period, and the first call panics. -/
theorem not_outputs_eq_keeping :
    ¬ ∀ (config : RateLimitConfig) (ttlSecs : Nat), 1 ≤ config.capacity → ttlSecs < 2 ^ 64 →
      ((∀ calls, InTimeOrder calls →
        Run.outputs handle result (new config (.fromSecs ttlSecs)) calls =
          Run.outputs handleKeeping resultKeeping (new config (.fromSecs ttlSecs)) calls) ↔
        config.periodSecs ≤ ttlSecs) := by
  intro h
  have hsame := (h ⟨1, 60, by decide, by decide, by decide⟩ (2 ^ 64 - 1) (by decide) (by decide)).mpr
    (by decide) [⟨"a", .ofSecs 0, .ofSecs 0⟩] (by decide)
  exact absurd hsame (by decide +kernel)

/-! ## who is remembered -/

/-- The time of the last call of a client. -/
def lastCall (calls : List RateLimitCall) (clientId : String) : Option Instant :=
  (calls.filter (fun call => decide (call.clientId = clientId))).getLast?.map RateLimitCall.now

theorem lastCall_append (calls : List RateLimitCall) (call : RateLimitCall) (clientId : String) :
    lastCall (calls ++ [call]) clientId =
      if clientId = call.clientId then some call.now else lastCall calls clientId := by
  unfold lastCall
  by_cases h : clientId = call.clientId
  · simp [h, List.filter_append]
  · simp [h, Ne.symm h, List.filter_append]

/-- An answered call dates the bucket of its client, whatever it is told, and keeps those
of the others that are recent. -/
theorem lastUpdate_handle {s : RateLimitStorage} {call : RateLimitCall} (hthreshold : s.HasThreshold call.now)
    (clientId : String) :
    ((s.handle call).inner.get? clientId).map RateLimitState.lastUpdate =
      if clientId = call.clientId then some call.now
      else ((s.inner.get? clientId).map RateLimitState.lastUpdate).filter
        (fun t => decide (call.now.Recent s.ttl t)) := by
  by_cases h : clientId = call.clientId
  · subst h
    rw [if_pos rfl, get?_handle_self hthreshold, Option.map_some, RateLimitState.lastUpdate_tryConsume]
  · rw [if_neg h, handle, get?_checkAndConsume_of_ne h hthreshold]
    cases s.inner.get? clientId with
    | none => rfl
    | some state =>
        simp only [Option.filter_some, Option.map_some]
        split <;> rfl

/-- A storage remembers the clients whose last call is recent, each with the time of that
call. -/
structure Remembers (s : RateLimitStorage) (calls : List RateLimitCall) (now : Instant) : Prop where
  isSome_iff : ∀ clientId, (s.inner.get? clientId).isSome = true ↔
    ∃ t ∈ lastCall calls clientId, now.Recent s.ttl t
  lastUpdate_eq : ∀ clientId, ∀ state ∈ s.inner.get? clientId,
    lastCall calls clientId = some state.lastUpdate

/-- The calls that do not panic. -/
def answered (ttl : Duration) (calls : List RateLimitCall) : List RateLimitCall :=
  calls.filter (fun call => (call.now.sub ttl).isSome)

/-- Before a call that panics all calls do. -/
theorem answered_eq_nil {ttl : Duration} {calls : List RateLimitCall} (h : InTimeOrder (calls ++ [call]))
    (hpanics : ¬ (call.now.sub ttl).isSome = true) : answered ttl (calls ++ [call]) = [] := by
  rw [answered, List.filter_eq_nil_iff]
  intro earlier hearlier hanswered
  apply hpanics
  rw [List.mem_append, List.mem_singleton] at hearlier
  rcases hearlier with hbefore | rfl
  · exact Instant.isSome_sub_of_le hanswered
      ((List.pairwise_append.mp h).2.2 earlier hbefore call (List.mem_singleton_self call))
  · exact hanswered

theorem reach_append_singleton (s : RateLimitStorage) (calls : List RateLimitCall) (call : RateLimitCall) :
    Run.reach handle s (calls ++ [call]) = (Run.reach handle s calls).handle call := by
  simp [Run.reach, List.foldl_append]

/-- Calls that all panic leave a storage as it was. -/
theorem reach_of_answered_eq_nil {calls : List RateLimitCall} (h : answered s.ttl calls = []) :
    Run.reach handle s calls = s := by
  induction calls with
  | nil => rfl
  | cons call calls ih =>
      rw [answered, List.filter_eq_nil_iff] at h
      have hpanics : ¬ s.HasThreshold call.now := h call List.mem_cons_self
      rw [Run.reach_cons, handle_of_panic hpanics]
      apply ih
      rw [answered, List.filter_eq_nil_iff]
      intro later hlater
      exact h later (List.mem_cons_of_mem call hlater)

/-- After some calls a bucket is dated by the last answered call of its client, or was
dropped since. -/
theorem lastUpdate_reach (config : RateLimitConfig) (ttl : Duration) {calls : List RateLimitCall}
    (h : InTimeOrder calls) {last : RateLimitCall} (hlast : calls.getLast? = some last)
    (clientId : String) :
    ((Run.reach handle (new config ttl) calls).inner.get? clientId).map RateLimitState.lastUpdate =
      (lastCall (answered ttl calls) clientId).filter (fun t => decide (last.now.Recent ttl t)) := by
  induction calls using List.reverseRecOn generalizing last with
  | nil => simp at hlast
  | append_singleton calls call ih =>
      obtain rfl : call = last := by simpa using hlast
      have httl : (Run.reach handle (new config ttl) calls).ttl = ttl :=
        (config_ttl_reach (new config ttl) calls).2
      by_cases hanswered : (call.now.sub ttl).isSome = true
      case neg =>
        have hnone := answered_eq_nil h hanswered
        rw [reach_of_answered_eq_nil (s := new config ttl) hnone, hnone]
        rfl
      have hthreshold : (Run.reach handle (new config ttl) calls).HasThreshold call.now := by
        rw [HasThreshold, httl]
        exact hanswered
      have happend : answered ttl (calls ++ [call]) = answered ttl calls ++ [call] := by
        simp [answered, List.filter_append, hanswered]
      rw [reach_append_singleton, lastUpdate_handle hthreshold, happend, lastCall_append, httl]
      by_cases hself : clientId = call.clientId
      · rw [if_pos hself, if_pos hself, Option.filter_some,
          if_pos (decide_eq_true (Instant.recent_self call.now ttl))]
      · rw [if_neg hself, if_neg hself]
        cases hprevious : calls.getLast? with
        | none =>
            obtain rfl : calls = [] := List.getLast?_eq_none_iff.mp hprevious
            rfl
        | some previous =>
            have hordered := List.pairwise_append.mp h
            have hle : previous.now ≤ call.now :=
              hordered.2.2 previous (List.mem_of_getLast? hprevious) call (by simp)
            rw [ih hordered.1 hprevious, Option.filter_filter]
            congr 1
            funext t
            rw [Bool.eq_iff_iff]
            simp only [Bool.and_eq_true, decide_eq_true_eq]
            constructor
            · intro hboth
              exact hboth.2
            · intro hrecent
              exact ⟨hrecent.mono hle, hrecent⟩

/-- **Memory**: after calls in the order of their times the storage remembers exactly the
clients whose last answered call, allowed or denied, is no older than the time to live. -/
theorem remembers_reach (config : RateLimitConfig) (ttl : Duration) (calls : List RateLimitCall)
    (h : InTimeOrder calls) (last : RateLimitCall) (hlast : calls.getLast? = some last) :
    Remembers (Run.reach handle (new config ttl) calls) (answered ttl calls) last.now := by
  have hreach := fun clientId => lastUpdate_reach config ttl h hlast clientId
  have httl : (Run.reach handle (new config ttl) calls).ttl = ttl :=
    (config_ttl_reach (new config ttl) calls).2
  constructor
  · intro clientId
    rw [httl, ← Option.isSome_map (f := RateLimitState.lastUpdate), hreach, Option.isSome_filter]
    simp [Option.any_eq_true]
  · intro clientId state hstate
    have hdated := hreach clientId
    rw [Option.mem_def.mp hstate, Option.map_some] at hdated
    exact (Option.filter_eq_some_iff.mp hdated.symm).1

/-- A client whose bucket is dropped, and one whose denied call is remembered. -/
theorem remembers_reach_denied :
    Remembers (Run.reach handle (new ⟨1, 60, by decide, by decide, by decide⟩ (.fromSecs 10))
        [⟨"a", .ofSecs 0, .ofSecs 0⟩, ⟨"b", .ofSecs 15, .ofSecs 15⟩, ⟨"b", .ofSecs 16, .ofSecs 16⟩])
      (answered (.fromSecs 10)
        [⟨"a", .ofSecs 0, .ofSecs 0⟩, ⟨"b", .ofSecs 15, .ofSecs 15⟩, ⟨"b", .ofSecs 16, .ofSecs 16⟩])
      (.ofSecs 16) :=
  remembers_reach ⟨1, 60, by decide, by decide, by decide⟩ (.fromSecs 10) _ (by decide +kernel)
    ⟨"b", .ofSecs 16, .ofSecs 16⟩ rfl

/-- With the longest time to live the first call panics, and its client is no key. -/
theorem not_remembers_reach :
    ¬ ∀ (config : RateLimitConfig) (ttlSecs : Nat) (calls : List RateLimitCall) (last : RateLimitCall),
      1 ≤ config.capacity → ttlSecs < 2 ^ 64 → InTimeOrder calls → calls.getLast? = some last →
      Remembers (Run.reach handle (new config (.fromSecs ttlSecs)) calls) calls last.now := by
  intro h
  have hremembers := h ⟨1, 60, by decide, by decide, by decide⟩ (2 ^ 64 - 1)
    [⟨"a", .ofSecs 0, .ofSecs 0⟩] ⟨"a", .ofSecs 0, .ofSecs 0⟩ (by decide) (by decide) (by decide) rfl
  have hkey := (hremembers.isSome_iff "a").mpr ⟨.ofSecs 0, rfl, Instant.recent_self _ _⟩
  exact absurd hkey (by decide +kernel)

end RateLimitStorage

end Shorty
