import Shorty.Api.Handlers
import Shorty.RateLimit.Eviction

/-!
# Shorty.Api.RateLimit

The middleware of the rate limiter (`api/rate_limit.rs`): who a request is from, and
whether it goes on.  Behind it no client gets more through than its limit.
-/

namespace Shorty

namespace RateLimit

/-- What the middleware looks at of a request. -/
structure Caller where
  xApiKey : Option Auth.HeaderValue
  xForwardedFor : Option Auth.HeaderValue
  /-- The address of the peer, where the server is told. -/
  connectInfo : Option String

/-- A text without the blanks around it. -/
def trim (s : List Char) : List Char :=
  ((s.dropWhile Char.isWhitespace).reverse.dropWhile Char.isWhitespace).reverse

/-- The client a request is from. -/
def getClientId (req : Caller) : String :=
  match req.xApiKey.bind Auth.headerToStr with
  | some key => "api-key:" ++ key
  | none =>
      match req.xForwardedFor.bind Auth.headerToStr with
      | some ips => "ip:" ++ String.ofList (trim (ips.toList.takeWhile (· ≠ ',')))
      | none =>
          match req.connectInfo with
          | some ip => "ip:" ++ ip
          | none => "unknown"

/-- Whether a client is within its limit, `none` where the storage panics. -/
def checkLimit (storage : RateLimitStorage) (now : Instant) (clientId : String) :
    Option (Except AppError Unit) × RateLimitStorage :=
  let out := storage.checkAndConsume ⟨clientId, now, now⟩
  (out.1.map (fun (allowed, retryAfter) =>
    if allowed then .ok () else .error (.rateLimitExceeded retryAfter)), out.2)

/-- A request, answered by what comes next or, beyond the limit, at once.  There is no
answer where a part of it panics. -/
def rateLimitMiddleware {σ : Type} (requestId : Option String) (now : Instant) (req : Caller)
    (next : σ → Option Response × σ) (storage : RateLimitStorage) (s : σ) :
    Option Response × σ × RateLimitStorage :=
  match checkLimit storage now (getClientId req) with
  | (none, storage) => (none, s, storage)
  | (some (.error e), storage) => (some (.ofError requestId e), s, storage)
  | (some (.ok ()), storage) =>
      let out := next s
      (out.1, out.2, storage)

/-! ## behind the middleware -/

/-- A request at the limiter: when it arrives, and from whom. -/
structure Arrival where
  now : Instant
  caller : Caller

namespace Arrival

def clientId (a : Arrival) : String := getClientId a.caller

/-- The call on the storage it makes. -/
def call (a : Arrival) : RateLimitCall := ⟨a.clientId, a.now, a.now⟩

end Arrival

/-- The limiter after a request. -/
def afterArrival (storage : RateLimitStorage) (a : Arrival) : RateLimitStorage :=
  (checkLimit storage a.now a.clientId).2

/-- Whether a request goes on. -/
def goesOn (storage : RateLimitStorage) (a : Arrival) : Bool :=
  match (checkLimit storage a.now a.clientId).1 with
  | some (.ok ()) => true
  | _ => false

theorem goesOn_eq (storage : RateLimitStorage) (a : Arrival) :
    goesOn storage a = ((storage.result a.call).map Prod.fst).getD false := by
  have hlimit : (checkLimit storage a.now a.clientId).1 = (storage.result a.call).map
      (fun (allowed, retryAfter) => if allowed then .ok () else .error (.rateLimitExceeded retryAfter)) :=
    rfl
  rw [goesOn, hlimit]
  cases storage.result a.call with
  | none => rfl
  | some told =>
      obtain ⟨allowed, retryAfter⟩ := told
      cases allowed <;> rfl

/-- A request that does not go on, and does not panic, is answered 429, with the seconds to
wait. -/
theorem rateLimitMiddleware_of_not_goesOn {σ : Type} {requestId : Option String} {a : Arrival}
    {next : σ → Option Response × σ} {storage : RateLimitStorage} {s : σ}
    (hthreshold : storage.HasThreshold a.now) (h : goesOn storage a = false) :
    ∃ retryAfter, 0 < retryAfter ∧
      rateLimitMiddleware requestId a.now a.caller next storage s =
        (some (.ofError requestId (.rateLimitExceeded retryAfter)), s, afterArrival storage a) := by
  have hresult : storage.result a.call = _ := RateLimitStorage.result_of_hasThreshold hthreshold
  have hwait := RateLimitState.allowed_or_retryAfter ((storage.recent a.now).entryFor a.call)
    storage.config a.now
  rw [goesOn_eq, hresult, Option.map_some, Option.getD_some] at h
  have hdenied : (((storage.recent a.now).entryFor a.call).tryConsume storage.config a.now).1 = false := h
  have hlimit : checkLimit storage a.now (getClientId a.caller) =
      ((storage.result a.call).map (fun (allowed, retryAfter) =>
        if allowed then .ok () else .error (.rateLimitExceeded retryAfter)), afterArrival storage a) := rfl
  refine ⟨(((storage.recent a.now).entryFor a.call).tryConsume storage.config a.now).2.2, ?_, ?_⟩
  · rw [hdenied, Bool.false_or, decide_eq_true_eq] at hwait
    exact hwait
  · delta rateLimitMiddleware
    rw [hlimit, hresult, Option.map_some, h]
    rfl

/-- The calls an audit has seen are those that were answered. -/
theorem past_reach (a : Audit) (calls : List RateLimitCall) : (Run.reach Audit.answer a calls).past =
    a.past ++ (calls.zip (Run.outputs RateLimitStorage.handle RateLimitStorage.result a.storage
      calls)).filterMap (fun p => p.2.map (fun told => (p.1, told.1))) := by
  induction calls generalizing a with
  | nil => simp [Run.outputs]
  | cons call calls ih =>
      have hpast : (a.answer call).past =
          a.past ++ ((a.storage.result call).map (fun told => (call, told.1))).toList := by
        by_cases h : a.storage.HasThreshold call.now
        · rw [Audit.answer_of_hasThreshold h, RateLimitStorage.result_of_hasThreshold h]
          rfl
        · rw [Audit.answer_of_panic h, RateLimitStorage.result_of_panic h]
          simp
      rw [Run.reach_cons, ih, hpast, Audit.storage_answer, Run.outputs, List.zip_cons_cons]
      cases a.storage.result call with
      | none => simp [RateLimitStorage.handle]
      | some told => simp [RateLimitStorage.handle]

/-- Of the requests of a run, those of a client that go on, with a time within two
bounds. -/
def wentOn (storage : RateLimitStorage) (arrivals : List Arrival) (clientId : String) (lo hi : Instant) : Nat :=
  (arrivals.zip (Run.outputs afterArrival goesOn storage arrivals)).countP (fun p =>
    p.2 && decide (p.1.clientId = clientId ∧ lo ≤ p.1.now ∧ p.1.now ≤ hi))

/-- **The middleware**: of the requests of a client, in the order of their times, no
more than the limit go on in any stretch of time. -/
theorem wentOn_le {config : RateLimitConfig} {ttl : Duration}
    (httl : (Duration.fromSecs config.periodSecs).ns ≤ ttl.ns) {arrivals : List Arrival}
    (hsorted : arrivals.Pairwise (fun a b => a.now ≤ b.now)) (clientId : String) {lo hi : Instant}
    (hle : lo ≤ hi) :
    (wentOn (.new config ttl) arrivals clientId lo hi : ℚ) ≤ config.limitOver (hi.secs - lo.secs) := by
  have hcalls : RateLimitStorage.InTimeOrder (arrivals.map Arrival.call) :=
    List.pairwise_map.mpr hsorted
  have hbound := Audit.bounded_of_sorted httl hcalls clientId lo hi hle
  rw [Audit.config_reach] at hbound
  have houtputs : Run.outputs afterArrival goesOn (.new config ttl) arrivals =
      (Run.outputs RateLimitStorage.handle RateLimitStorage.result (.new config ttl)
        (arrivals.map Arrival.call)).map (fun told => (told.map Prod.fst).getD false) := by
    rw [Run.map_outputs]
    exact Run.outputs_map id Arrival.call (fun _ _ => rfl) goesOn_eq _ _
  have hcount : (Run.reach Audit.answer (.new config ttl) (arrivals.map Arrival.call)).allowedWithin
      clientId lo hi = wentOn (.new config ttl) arrivals clientId lo hi := by
    have hpast := past_reach (.new config ttl) (arrivals.map Arrival.call)
    rw [show (Audit.new config ttl).past = [] from rfl, List.nil_append, List.zip_map_left] at hpast
    rw [Audit.allowedWithin, Audit.callsOf, hpast, wentOn, houtputs, List.countP_filter,
      List.countP_filterMap, List.zip_map_right, List.countP_map, List.countP_map]
    apply List.countP_congr
    rintro ⟨arrival, told⟩ _
    cases told with
    | none => simp
    | some told =>
        show (told.1 && decide (lo ≤ arrival.now ∧ arrival.now ≤ hi) &&
          decide (arrival.clientId = clientId)) = true ↔ _
        simp only [Function.comp, Prod.map, Option.map_some, Option.getD_some, id, Bool.and_eq_true,
          decide_eq_true_eq]
        tauto
  rw [hcount] at hbound
  exact hbound

end RateLimit

end Shorty
