import Mathlib.Data.List.Find
import Shorty.RateLimit.Admission

/-!
# Shorty.RateLimit.Denials

What a denied request is told, and what it costs.  It is told to wait for as many whole
seconds as the bucket needs for its next token, neither more nor less.  And it costs
nothing: a bucket that has refilled in several steps is the bucket that has refilled in
one, unless a request comes earlier than the bucket's own time.
-/

namespace Shorty

namespace RateLimitConfig

variable (config : RateLimitConfig)

theorem refillRate_pos (h : 1 ≤ config.capacity) : 0 < config.refillRate := by
  have hcapacity : (0 : ℚ) < config.capacity := by exact_mod_cast h
  exact div_pos hcapacity config.periodSecs_pos

/-- Where there is a rate, the wait is the time for the missing part of a token, in whole
seconds: it is shorter than a period, and no number is too big for it. -/
theorem retryAfter_eq (h : 1 ≤ config.capacity) {newTokens : ℚ} (hpos : 0 ≤ newTokens)
    (hlt : newTokens < 1) : config.retryAfter newTokens = ⌈(1 - newTokens) / config.refillRate⌉₊ := by
  have hrate := config.refillRate_pos h
  have hwait : 0 < ⌈(1 - newTokens) / config.refillRate⌉₊ :=
    Nat.ceil_pos.mpr (div_pos (by linarith) hrate)
  have hperiod : ⌈(1 - newTokens) / config.refillRate⌉₊ ≤ config.periodSecs := by
    rw [Nat.ceil_le, div_le_iff₀ hrate, config.periodSecs_mul_refillRate]
    have hcapacity : (1 : ℚ) ≤ config.capacity := by exact_mod_cast h
    linarith
  have hlt64 := config.periodSecs_lt
  simp only [retryAfter, if_neg hrate.ne']
  rw [min_eq_left (by omega), if_neg (by omega)]

end RateLimitConfig

namespace RateLimitState

variable {config : RateLimitConfig}

/-! ## what it is told -/

/-- A request that is denied leaves the tokens there were. -/
theorem after_of_denied {state : RateLimitState} {now : Instant}
    (h : allowed config state now = false) :
    state.newTokens config now < 1 ∧ after config state now = ⟨state.newTokens config now, now⟩ ∧
      (state.tryConsume config now).2.2 = config.retryAfter (state.newTokens config now) := by
  unfold allowed at h
  rw [tryConsume_eq] at h
  split at h
  · cases h
  · rename_i htoken
    unfold after
    rw [tryConsume_eq, if_neg htoken]
    exact ⟨not_le.mp htoken, rfl, rfl⟩

theorem allowed_iff (state : RateLimitState) (now : Instant) :
    allowed config state now = true ↔ 1 ≤ state.newTokens config now := by
  unfold allowed
  rw [tryConsume_eq]
  split
  · rename_i h
    simp [h]
  · rename_i h
    simp [h]

/-- What a bucket has after some seconds. -/
theorem newTokens_add (tokens : ℚ) {now later : Instant} {secs : Nat}
    (h : now.add (.fromSecs secs) = some later) :
    (⟨tokens, now⟩ : RateLimitState).newTokens config later =
      min (tokens + secs * config.refillRate) config.capacity := by
  simp [newTokens, TokenBucket.available, bucket, Instant.secs_of_add h]

/-- A denied request is told the exact wait: after it a request is allowed, and a second
before it is not, wherever the clock has these times. -/
structure RetryExact (config : RateLimitConfig) (denied : RateLimitState) (now : Instant)
    (retryAfter : Nat) : Prop where
  pos : 1 ≤ retryAfter
  allowed_after : ∀ later ∈ now.add (.fromSecs retryAfter), allowed config denied later = true
  denied_before : ∀ earlier ∈ now.add (.fromSecs (retryAfter - 1)), allowed config denied earlier = false

theorem retryExact_of_denied (hcapacity : 1 ≤ config.capacity) {state : RateLimitState} {now : Instant}
    (htokens : 0 ≤ state.tokens) (hdenied : allowed config state now = false) :
    RetryExact config (after config state now) now (state.tryConsume config now).2.2 := by
  obtain ⟨hlt, hafter, hretry⟩ := after_of_denied hdenied
  have hpos : 0 ≤ state.newTokens config now :=
    TokenBucket.available_nonneg config.refillRate_nonneg (Nat.cast_nonneg config.capacity) htokens
  have hrate := config.refillRate_pos hcapacity
  have hwait : 0 < config.retryAfter (state.newTokens config now) := config.retryAfter_pos hlt
  -- a request is allowed from the wait on
  have hallowed : ∀ secs : Nat, ∀ later ∈ now.add (.fromSecs secs),
      (allowed config ⟨state.newTokens config now, now⟩ later = true ↔
        config.retryAfter (state.newTokens config now) ≤ secs) := by
    intro secs later hlater
    have hone : (1 : ℚ) ≤ config.capacity := by exact_mod_cast hcapacity
    rw [allowed_iff, newTokens_add _ hlater, le_min_iff, config.retryAfter_eq hcapacity hpos hlt, Nat.ceil_le,
      div_le_iff₀ hrate, sub_le_iff_le_add']
    exact and_iff_left hone
  rw [hafter, hretry]
  constructor
  · exact hwait
  · intro later hlater
    exact (hallowed _ later hlater).mpr le_rfl
  · intro earlier hearlier
    rw [Bool.eq_false_iff, ne_eq, hallowed _ earlier hearlier]
    omega

/-- **Retry-After**: a denied request is told the exact number of seconds to wait, and
the storage never denies without a wait and always keeps the new bucket of a request
that it makes on what the clean-up leaves. -/
theorem retryAfter_exact (config : RateLimitConfig) (hcapacity : 1 ≤ config.capacity) :
    (∀ (state : RateLimitState) (now : Instant), InRange config state →
      allowed config state now = false →
        RetryExact config (after config state now) now (state.tryConsume config now).2.2) ∧
    ∀ (s : RateLimitStorage) (call : RateLimitCall), s.config = config →
      (s.checkAndConsume call).1 ≠ some (false, 0) ∧
        ∀ kept ∈ s.cleanupStale call.now, (s.checkAndConsume call).2.inner.get? call.clientId =
          some (after config (kept.entryFor call) call.now) := by
  constructor
  · intro state now hrange hdenied
    exact retryExact_of_denied hcapacity hrange.1 hdenied
  · rintro s call rfl
    by_cases hthreshold : s.HasThreshold call.now
    · rw [RateLimitStorage.checkAndConsume_of_hasThreshold hthreshold, RateLimitStorage.fst_consume]
      constructor
      · intro hdenied
        have htold := allowed_or_retryAfter ((s.recent call.now).entryFor call) s.config call.now
        rw [RateLimitStorage.config_recent, Option.some_inj, Prod.mk.injEq] at hdenied
        rw [hdenied.1, hdenied.2] at htold
        cases htold
      · intro kept hkept
        rw [RateLimitStorage.cleanupStale_eq, if_pos hthreshold] at hkept
        obtain rfl := Option.some.inj hkept
        rw [RateLimitStorage.get?_consume, if_pos rfl]
        rfl
    · rw [RateLimitStorage.checkAndConsume_of_panic hthreshold, RateLimitStorage.cleanupStale_eq,
        if_neg hthreshold]
      exact ⟨Option.some_ne_none _ ∘ Eq.symm, fun kept hkept => absurd hkept (by simp)⟩

/-- Ten requests a minute, and an empty bucket. -/
theorem retryAfter_exact_empty :
    RetryExact ⟨10, 60, by decide, by decide, by decide⟩
      (after ⟨10, 60, by decide, by decide, by decide⟩ ⟨0, .ofSecs 0⟩ (.ofSecs 0)) (.ofSecs 0)
      ((⟨0, .ofSecs 0⟩ : RateLimitState).tryConsume ⟨10, 60, by decide, by decide, by decide⟩
        (.ofSecs 0)).2.2 :=
  (retryAfter_exact ⟨10, 60, by decide, by decide, by decide⟩ (by decide)).1 ⟨0, .ofSecs 0⟩ (.ofSecs 0)
    ⟨by norm_num, by norm_num⟩ (by decide +kernel)

/-! ## what it costs -/

/-- What is to be seen of a request: whether it is allowed, and the bucket after it. -/
def decision (config : RateLimitConfig) (state : RateLimitState) (now : Instant) : Bool × RateLimitState :=
  (allowed config state now, after config state now)

/-- The requests of a run that are allowed. -/
def allowedOnly (config : RateLimitConfig) (state : RateLimitState) (times : List Instant) : List Instant :=
  Run.kept (after config) (allowed config) state times

/-- Without its denied requests a run decides and leaves the same at every other one. -/
def DenialsCostNothing (config : RateLimitConfig) (state : RateLimitState) (times : List Instant) : Prop :=
  Run.outputs (after config) (decision config) state (allowedOnly config state times) =
    (Run.outputs (after config) (decision config) state times).filter (fun seen => seen.1)

instance decidableDenialsCostNothing (config : RateLimitConfig) (state : RateLimitState)
    (times : List Instant) : Decidable (DenialsCostNothing config state times) :=
  inferInstanceAs (Decidable (_ = _))

/-- A request looks at the tokens there are. -/
theorem decision_eq_iff {state state' : RateLimitState} {now : Instant} :
    decision config state now = decision config state' now ↔
      state.newTokens config now = state'.newTokens config now := by
  constructor
  · intro h
    have htaken := state.taken_add_tokens config now
    have htaken' := state'.taken_add_tokens config now
    obtain ⟨hallowed, hafter⟩ := Prod.mk.inj h
    unfold allowed at hallowed
    unfold after at hafter
    rw [← htaken, ← htaken', hallowed, hafter]
  · intro h
    have hsame : state.tryConsume config now = state'.tryConsume config now := by
      rw [tryConsume_eq, tryConsume_eq, h]
    simp only [decision, allowed, after, hsame]

/-- A denied request changes nothing for the later ones. -/
theorem newTokens_after_of_denied {state : RateLimitState} {now later : Instant}
    (hnow : state.lastUpdate ≤ now) (hdenied : allowed config state now = false) (hlater : now ≤ later) :
    (after config state now).newTokens config later = state.newTokens config later := by
  rw [newTokens, bucket_after]
  rw [allowed_eq] at hdenied
  exact TokenBucket.available_after_of_not_admitted config.refillRate_nonneg
    (Instant.secs_le_secs hnow) hdenied (Instant.secs_le_secs hlater)

/-- The coming requests find the same in two buckets, and come no earlier than the
first of them. -/
structure SameTokensFor (config : RateLimitConfig) (times : List Instant)
    (state state' : RateLimitState) : Prop where
  sorted : times.Pairwise (· ≤ ·)
  le_times : ∀ t ∈ times, state.lastUpdate ≤ t
  newTokens_eq : ∀ t ∈ times, state'.newTokens config t = state.newTokens config t

theorem le_of_lastUpdate_after {state : RateLimitState} {now : Instant} {times : List Instant}
    (h : (now :: times).Pairwise (· ≤ ·)) : ∀ t ∈ times, (after config state now).lastUpdate ≤ t := by
  intro t ht
  rw [after, lastUpdate_tryConsume]
  exact (List.pairwise_cons.mp h).1 t ht

/-- From buckets that are the same to the requests to come, deleting the denied ones
changes nothing. -/
theorem SameTokensFor.outputs_eq {state state' : RateLimitState} {times : List Instant}
    (h : SameTokensFor config times state state') :
    Run.outputs (after config) (decision config) state' (allowedOnly config state times) =
      (Run.outputs (after config) (decision config) state times).filter (fun seen => seen.1) := by
  refine Run.outputs_kept (p := allowed config) ?_ (SameTokensFor config) ?_ ?_ ?_
  · intro s now
    rfl
  · intro now times s t hsame _
    have hdecision : decision config s now = decision config t now :=
      decision_eq_iff.mpr (hsame.newTokens_eq now List.mem_cons_self).symm
    have hafter : after config s now = after config t now := congrArg Prod.snd hdecision
    refine ⟨hdecision, (List.pairwise_cons.mp hsame.sorted).2, le_of_lastUpdate_after hsame.sorted, ?_⟩
    intro later _
    rw [hafter]
  · intro now times s t hsame hdenied
    refine ⟨(List.pairwise_cons.mp hsame.sorted).2, le_of_lastUpdate_after hsame.sorted, ?_⟩
    intro later hlater
    rw [hsame.newTokens_eq later (List.mem_cons_of_mem now hlater),
      newTokens_after_of_denied (hsame.le_times now List.mem_cons_self) hdenied
        ((List.pairwise_cons.mp hsame.sorted).1 later hlater)]
  · exact h

/-- Where no request is earlier than the bucket, its denied requests cost nothing. -/
theorem denialsCostNothing_of_le {state : RateLimitState} {times : List Instant}
    (hsorted : times.Pairwise (· ≤ ·)) (hle : ∀ t ∈ times, state.lastUpdate ≤ t) :
    DenialsCostNothing config state times :=
  SameTokensFor.outputs_eq ⟨hsorted, hle, fun _ _ => rfl⟩

/-- The first request that is allowed is the first that would be, were it alone. -/
theorem head?_allowedOnly {state : RateLimitState} {times : List Instant}
    (hsorted : times.Pairwise (· ≤ ·)) (hle : ∀ t ∈ times, state.lastUpdate ≤ t) :
    (allowedOnly config state times).head? = times.find? (allowed config state) := by
  induction times generalizing state with
  | nil => rfl
  | cons now times ih =>
      unfold allowedOnly at ih ⊢
      cases hallowed : allowed config state now with
      | true => simp [Run.kept, hallowed]
      | false =>
          have hlater := (List.pairwise_cons.mp hsorted).1
          rw [Run.kept, if_neg (by simp [hallowed]), List.find?_cons_of_neg (by simp [hallowed]),
            ih (List.pairwise_cons.mp hsorted).2 (le_of_lastUpdate_after hsorted)]
          apply List.find?_congr
          intro t ht
          rw [Bool.eq_iff_iff, allowed_iff, allowed_iff,
            newTokens_after_of_denied (hle now List.mem_cons_self) hallowed (hlater t ht)]

/-- Two buckets answer a run alike when they answer its first request alike. -/
theorem outputs_decision_eq_iff {state state' : RateLimitState} {times : List Instant} :
    Run.outputs (after config) (decision config) state times =
        Run.outputs (after config) (decision config) state' times ↔
      ∀ t ∈ times.head?, state.newTokens config t = state'.newTokens config t := by
  cases times with
  | nil => simp [Run.outputs]
  | cons now times =>
      simp only [Run.outputs, List.cons.injEq, List.head?_cons, Option.mem_some_iff, forall_eq',
        decision_eq_iff, and_iff_left_iff_imp]
      intro h
      have hafter : after config state now = after config state' now :=
        congrArg Prod.snd (decision_eq_iff.mpr h)
      rw [hafter]

/-! ## a request that is earlier than the bucket -/

/-- Without a rate there is no token to wait for. -/
theorem one_le_capacity_of_refill {tokens elapsed : ℚ} (hlt : tokens < 1)
    (h : 1 ≤ tokens + elapsed * config.refillRate) : 1 ≤ config.capacity := by
  by_contra hzero
  have hcapacity : config.capacity = 0 := by omega
  have hrate : config.refillRate = 0 := by simp [RateLimitConfig.refillRate, hcapacity]
  rw [hrate] at h
  linarith

theorem allowed_iff_refill {tokens : ℚ} {first t : Instant} (hlt : tokens < 1) (hle : first ≤ t) :
    allowed config ⟨tokens, first⟩ t = true ↔ 1 ≤ tokens + (t.secs - first.secs) * config.refillRate := by
  have hsecs := Instant.secs_le_secs hle
  simp only [allowed_iff, newTokens, TokenBucket.available, bucket, le_min_iff]
  rw [max_eq_right (by linarith)]
  constructor
  · intro h
    exact h.1
  · intro h
    exact ⟨h, by exact_mod_cast one_le_capacity_of_refill hlt h⟩

/-- A cap makes a smaller number equal to a greater one exactly if it cuts the smaller
one down, too. -/
theorem min_eq_min_iff_of_lt {x y cap : ℚ} (h : x < y) : min x cap = min y cap ↔ cap ≤ x := by
  constructor
  · intro hsame
    by_contra hshort
    have hlt : x < min y cap := lt_min h (not_le.mp hshort)
    rw [← hsame, min_eq_left (not_le.mp hshort).le] at hlt
    exact lt_irrefl x hlt
  · intro hcap
    rw [min_eq_right hcap, min_eq_right (hcap.trans h.le)]

/-- A bucket set back to an earlier time has, by the time it has a token, what it would
have had only if that is full. -/
theorem newTokens_eq_iff_full {state : RateLimitState} {first t : Instant}
    (hearly : first < state.lastUpdate) (hlt : state.tokens < 1)
    (htoken : 1 ≤ state.tokens + (t.secs - first.secs) * config.refillRate) :
    state.newTokens config t = (⟨state.tokens, first⟩ : RateLimitState).newTokens config t ↔
      config.capacity ≤ state.tokens + (t.secs - state.lastUpdate.secs) * config.refillRate := by
  have hcapacity := one_le_capacity_of_refill hlt htoken
  have hone : (1 : ℚ) ≤ config.capacity := by exact_mod_cast hcapacity
  have hrate := config.refillRate_pos hcapacity
  have hback : first.secs < state.lastUpdate.secs := by
    rw [← not_le, Instant.secs_le_secs_iff, not_le]
    exact hearly
  have helapsed : 0 < t.secs - first.secs := by
    by_contra hnone
    have := mul_nonpos_of_nonpos_of_nonneg (not_lt.mp hnone) hrate.le
    linarith
  simp only [newTokens, TokenBucket.available, bucket, max_eq_right helapsed.le]
  have hless : state.tokens + max 0 (t.secs - state.lastUpdate.secs) * config.refillRate <
      state.tokens + (t.secs - first.secs) * config.refillRate := by
    have hmax : max 0 (t.secs - state.lastUpdate.secs) < t.secs - first.secs :=
      max_lt helapsed (by linarith)
    have := mul_lt_mul_of_pos_right hmax hrate
    linarith
  rw [min_eq_min_iff_of_lt hless]
  by_cases hlater : 0 ≤ t.secs - state.lastUpdate.secs
  · rw [max_eq_right hlater]
  · -- before the bucket's own time neither count reaches the capacity
    have hnone : (t.secs - state.lastUpdate.secs) * config.refillRate ≤ 0 :=
      mul_nonpos_of_nonpos_of_nonneg (not_le.mp hlater).le hrate.le
    rw [max_eq_left (not_le.mp hlater).le]
    exact iff_of_false (by linarith) (by linarith)

/-- No request is earlier than the bucket; or the first one finds a token; or once there
has been time for a token since the first one, the bucket is full all the same. -/
def NoneEarly (config : RateLimitConfig) (state : RateLimitState) (times : List Instant) : Prop :=
  ∀ first ∈ times.head?, state.lastUpdate ≤ first ∨ 1 ≤ state.tokens ∨
    ∀ t ∈ times.find? (fun t => decide (1 ≤ state.tokens + (t.secs - first.secs) * config.refillRate)),
      config.capacity ≤ state.tokens + (t.secs - state.lastUpdate.secs) * config.refillRate

/-- A first request that is earlier than the bucket and denied sets the bucket back. -/
theorem after_of_early {state : RateLimitState} (hrange : InRange config state) {first : Instant}
    (hearly : first < state.lastUpdate) (hlt : state.tokens < 1) :
    allowed config state first = false ∧ after config state first = ⟨state.tokens, first⟩ := by
  have hsecs := Instant.secs_le_secs hearly.le
  have htokens : state.newTokens config first = state.tokens := by
    simp only [newTokens, TokenBucket.available, bucket]
    rw [max_eq_left (by linarith), zero_mul, add_zero, min_eq_left hrange.2]
  have hdenied : allowed config state first = false := by
    rw [Bool.eq_false_iff, ne_eq, allowed_iff, htokens]
    exact not_le.mpr hlt
  have hafter := (after_of_denied hdenied).2.1
  rw [htokens] at hafter
  exact ⟨hdenied, hafter⟩

/-- After such a request the denied ones cost nothing when the first that is allowed
finds a full bucket. -/
theorem denialsCostNothing_early_iff {state : RateLimitState} (hrange : InRange config state)
    {first : Instant} {times : List Instant} (hsorted : (first :: times).Pairwise (· ≤ ·))
    (hearly : first < state.lastUpdate) (hlt : state.tokens < 1) :
    DenialsCostNothing config state (first :: times) ↔
      ∀ t ∈ times.find? (fun t => decide (1 ≤ state.tokens + (t.secs - first.secs) * config.refillRate)),
        config.capacity ≤ state.tokens + (t.secs - state.lastUpdate.secs) * config.refillRate := by
  obtain ⟨hdenied, hafter⟩ := after_of_early hrange hearly hlt
  obtain ⟨hlater, htimes⟩ := List.pairwise_cons.mp hsorted
  have hkept : allowedOnly config state (first :: times) = allowedOnly config ⟨state.tokens, first⟩ times := by
    simp [allowedOnly, Run.kept, hdenied, hafter]
  have houtputs : (Run.outputs (after config) (decision config) state (first :: times)).filter
        (fun seen => seen.1) =
      (Run.outputs (after config) (decision config) ⟨state.tokens, first⟩ times).filter
        (fun seen => seen.1) := by
    simp [Run.outputs, decision, hdenied, hafter]
  have hset : DenialsCostNothing config ⟨state.tokens, first⟩ times := denialsCostNothing_of_le htimes hlater
  have hfind : times.find? (allowed config ⟨state.tokens, first⟩) = times.find? (fun t =>
      decide (1 ≤ state.tokens + (t.secs - first.secs) * config.refillRate)) := by
    apply List.find?_congr
    intro t ht
    rw [Bool.eq_iff_iff, decide_eq_true_iff, allowed_iff_refill hlt (hlater t ht)]
  rw [DenialsCostNothing, hkept, houtputs, ← hset, outputs_decision_eq_iff,
    head?_allowedOnly htimes hlater, hfind]
  constructor
  · intro h t ht
    have htoken := List.find?_some ht
    exact (newTokens_eq_iff_full hearly hlt (of_decide_eq_true htoken)).mp (h t ht)
  · intro h t ht
    have htoken := List.find?_some ht
    exact (newTokens_eq_iff_full hearly hlt (of_decide_eq_true htoken)).mpr (h t ht)

/-- A first request that finds a token stays, and the bucket is then at its time. -/
theorem denialsCostNothing_of_token {state : RateLimitState} (hrange : InRange config state)
    {first : Instant} {times : List Instant} (hsorted : (first :: times).Pairwise (· ≤ ·))
    (htoken : 1 ≤ state.tokens) : DenialsCostNothing config state (first :: times) := by
  have hallowed : allowed config state first = true := by
    have hflow : 0 ≤ max 0 (first.secs - state.lastUpdate.secs) * config.refillRate :=
      mul_nonneg (le_max_left _ _) config.refillRate_nonneg
    rw [allowed_iff]
    exact le_min (htoken.trans (le_add_of_nonneg_right hflow)) (htoken.trans hrange.2)
  have hrest : DenialsCostNothing config (after config state first) times :=
    denialsCostNothing_of_le (List.pairwise_cons.mp hsorted).2 (le_of_lastUpdate_after hsorted)
  unfold DenialsCostNothing allowedOnly at hrest ⊢
  have hseen : (decision config state first).1 = true := hallowed
  rw [Run.kept, if_pos hallowed, Run.outputs, Run.outputs, List.filter_cons_of_pos hseen, hrest]

/-- **Denied requests**: in a run in the order of its times the denied requests cost
nothing exactly when none of them sets the bucket back to an earlier time with a
consequence. -/
theorem denialsCostNothing_iff (config : RateLimitConfig) (state : RateLimitState)
    (hrange : InRange config state) (times : List Instant) (hsorted : times.Pairwise (· ≤ ·)) :
    DenialsCostNothing config state times ↔ NoneEarly config state times := by
  cases times with
  | nil => simp [DenialsCostNothing, NoneEarly, allowedOnly, Run.kept, Run.outputs]
  | cons first times =>
      simp only [NoneEarly, List.head?_cons, Option.mem_some_iff, forall_eq']
      by_cases hearly : first < state.lastUpdate
      · by_cases hlt : state.tokens < 1
        · have hmiss : ¬ 1 ≤ state.tokens + (first.secs - first.secs) * config.refillRate := by
            rw [sub_self, zero_mul, add_zero]
            exact not_le.mpr hlt
          rw [denialsCostNothing_early_iff hrange hsorted hearly hlt,
            List.find?_cons_of_neg (by simpa using hmiss)]
          simp [not_le.mpr hearly, not_le.mpr hlt]
        · exact iff_of_true (denialsCostNothing_of_token hrange hsorted (not_lt.mp hlt))
            (Or.inr (Or.inl (not_lt.mp hlt)))
      · have hle : state.lastUpdate ≤ first := not_lt.mp hearly
        have hall : ∀ t ∈ first :: times, state.lastUpdate ≤ t := by
          intro t ht
          cases List.mem_cons.mp ht with
          | inl heq => exact heq ▸ hle
          | inr hmem => exact hle.trans ((List.pairwise_cons.mp hsorted).1 t hmem)
        exact iff_of_true (denialsCostNothing_of_le hsorted hall) (Or.inl hle)

/-- Six requests of one client, two seconds apart, on an empty bucket of ten a minute. -/
theorem denialsCostNothing_iff_hammering :
    DenialsCostNothing ⟨10, 60, by decide, by decide, by decide⟩ ⟨0, .ofSecs 0⟩
        [.ofSecs 0, .ofSecs 2, .ofSecs 4, .ofSecs 6, .ofSecs 8, .ofSecs 12] ↔
      NoneEarly ⟨10, 60, by decide, by decide, by decide⟩ ⟨0, .ofSecs 0⟩
        [.ofSecs 0, .ofSecs 2, .ofSecs 4, .ofSecs 6, .ofSecs 8, .ofSecs 12] :=
  denialsCostNothing_iff ⟨10, 60, by decide, by decide, by decide⟩ ⟨0, .ofSecs 0⟩
    ⟨by norm_num, by norm_num⟩ _ (by decide +kernel)

/-- One request in ten seconds: a request that comes late is denied, and another one is
allowed for it. -/
theorem not_denialsCostNothing :
    ¬ ∀ (config : RateLimitConfig) (state : RateLimitState) (times : List Instant),
      InRange config state → times.Pairwise (· ≤ ·) → DenialsCostNothing config state times := by
  intro h
  have hcost := h ⟨1, 10, by decide, by decide, by decide⟩ ⟨0, .ofSecs 10⟩ [.ofSecs 0, .ofSecs 10]
    ⟨by norm_num, by norm_num⟩ (by decide +kernel)
  exact absurd hcost (by decide +kernel)

end RateLimitState

end Shorty
