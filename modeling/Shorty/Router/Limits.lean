import Shorty.Api.RateLimit
import Shorty.Router.Anonymous

/-!
# Shorty.Router.Limits

The limit on the creation of links, end to end.  `build_router` makes the limiter and
layers nothing with it, so a request to create a link reaches its handler whenever
`auth_middleware` lets it through, and the limit holds of the requests that happen to
keep to it.
-/

namespace Shorty

namespace Router

open Routing

/-- A request at the server: when it arrives and from whom. -/
structure Visit (config : Config) where
  arrival : RateLimit.Arrival
  site : Site
  req : Incoming config

/-- What `build_router` makes: the router over the state of the handlers, and the
limiter. -/
structure Built (R : Type) where
  state : AppState R
  rateLimitState : RateLimitStorage

section Visits

variable {config : Config} (crates : Crates) (env : AuthEnv) (auth : Option AuthConfig)
  {R : Type} [LinkRepository R]

def build (limits : RateLimitConfig) (cleanupTtlSecs : Nat) (state : AppState R) : Built R :=
  ⟨state, .new limits (.fromSecs cleanupTtlSecs)⟩

/-- A request through the router.  No layer of it holds the limiter. -/
def visited (built : Built R) (v : Visit config) : Option Response × Built R :=
  let out := respond crates env auth v.site v.req built.state
  (out.1, { built with state := out.2 })

/-- A `POST` of `/api/v1/links`. -/
def Visit.IsCreate (v : Visit config) : Prop := v.req.method = .post ∧ v.req.path = "/api/v1/links"

instance (v : Visit config) : Decidable v.IsCreate := inferInstanceAs (Decidable (_ ∧ _))

/-- The handler a request is dispatched to, past the middleware; its extractors come after
that. -/
def reached (req : Incoming config) : Option Endpoint :=
  match buildRouter.lookup (pathSegments req.path) with
  | some (r, _) =>
      if r.guarded then
        match Auth.authMiddleware env auth req.now req.authorization with
        | .error _ => none
        | .ok _ => MethodRouter.find r req.method
      else MethodRouter.find r req.method
  | none => none

/-- Whether `auth_middleware` lets a request through. -/
def letThrough (req : Incoming config) : Bool :=
  (Auth.authMiddleware env auth req.now req.authorization).isOk

/-- The creates of a client with a time within two bounds, of those that meet a
condition. -/
def creates (meets : Visit config → Bool) (visits : List (Visit config)) (clientId : String)
    (lo hi : Instant) : Nat :=
  visits.countP (fun v => decide (v.IsCreate ∧ v.arrival.clientId = clientId ∧
    lo ≤ v.arrival.now ∧ v.arrival.now ≤ hi) && meets v)

/-- The creation of links is limited: in any stretch of time no more creates of a client
reach their handler than the limit, and the others are answered 429. -/
structure RateLimited (limits : RateLimitConfig) (built : Built R) (visits : List (Visit config)) :
    Prop where
  bounded : ∀ clientId lo hi, lo ≤ hi →
    (creates (fun v => decide (reached env auth v.req = some .createLink)) visits clientId lo hi : ℚ) ≤
      limits.limitOver (hi.secs - lo.secs)
  refused : Run.Along (fun b v => (visited crates env auth b v).2)
    (fun b v => v.IsCreate → reached env auth v.req ≠ some .createLink →
      (visited crates env auth b v).1.map Response.status = some 429) built visits

/-- There is nothing to limit: every create is let through by `auth_middleware`, and no
client sends more of them than the limit. -/
structure WithinLimit (limits : RateLimitConfig) (visits : List (Visit config)) : Prop where
  admitted : ∀ v ∈ visits, v.IsCreate → letThrough env auth v.req = true
  bounded : ∀ clientId lo hi, lo ≤ hi →
    (creates (fun _ => true) visits clientId lo hi : ℚ) ≤ limits.limitOver (hi.secs - lo.secs)

variable {crates env auth}

/-! ## one create -/

/-- The handler a request reaches is the one that runs, and a request that reaches none
changes nothing. -/
theorem snd_respond_reached (site : Site) (req : Incoming config) (s : AppState R) :
    reached env auth req = none ∧ (respond crates env auth site req s).2 = s ∨
      ∃ e captures, reached env auth req = some e ∧
        (respond crates env auth site req s).2 =
          ((endpoint crates env auth site req captures e).run s).2 := by
  have hmethod : ∀ (r : MethodRouter) (captures : List String),
      MethodRouter.find r req.method = none ∧
          ((methodRouter crates env auth site req r captures).run s).2 = s ∨
        ∃ e captures', MethodRouter.find r req.method = some e ∧
          ((methodRouter crates env auth site req r captures).run s).2 =
            ((endpoint crates env auth site req captures' e).run s).2 := by
    intro r captures
    cases hfind : MethodRouter.find r req.method with
    | none =>
        left
        rw [methodRouter, hfind]
        exact ⟨rfl, rfl⟩
    | some e => exact Or.inr ⟨e, captures, rfl, snd_run_methodRouter hfind⟩
  rw [respond, dispatch, reached]
  cases buildRouter.lookup (pathSegments req.path) with
  | none => exact Or.inl ⟨rfl, rfl⟩
  | some found =>
      obtain ⟨r, captures⟩ := found
      simp only [guardedRouter]
      cases r.guarded with
      | true =>
          cases Auth.authMiddleware env auth req.now req.authorization with
          | error failure => exact Or.inl ⟨rfl, rfl⟩
          | ok user => exact hmethod r captures
      | false => exact hmethod r captures

theorem lookup_links : buildRouter.lookup (pathSegments "/api/v1/links") =
    some (⟨true, [(.post, .createLink), (.get, .listLinks)]⟩, []) := by
  have hsegments : pathSegments "/api/v1/links" = ["api", "v1", "links"] := by decide
  rw [hsegments]
  rfl

theorem Visit.IsCreate.lookup {v : Visit config} (h : v.IsCreate) :
    buildRouter.lookup (pathSegments v.req.path) =
      some (⟨true, [(.post, .createLink), (.get, .listLinks)]⟩, []) := by
  rw [h.2]
  exact lookup_links

/-- A create reaches its handler when it is let through. -/
theorem reached_create_iff {v : Visit config} (h : v.IsCreate) :
    reached env auth v.req = some .createLink ↔ letThrough env auth v.req = true := by
  have hfind : MethodRouter.find ⟨true, [(.post, .createLink), (.get, .listLinks)]⟩ v.req.method =
      some .createLink := by
    rw [h.1]
    rfl
  simp only [reached, h.lookup, if_true, letThrough]
  cases Auth.authMiddleware env auth v.req.now v.req.authorization with
  | error e => simp [Except.isOk, Except.toBool]
  | ok user => simp [hfind, Except.isOk, Except.toBool]

/-- A create that is let through is made, with no look at the limiter. -/
theorem snd_visited_of_letThrough {v : Visit config} (h : v.IsCreate) (built : Built R)
    (hthrough : letThrough env auth v.req = true) {body : CreateLinkRequest}
    (hbody : v.req.createBody = .ok body) :
    (visited crates env auth built v).2 =
      { built with state := ((Api.createLink config crates v.req.now v.req.draw body).run built.state).2 } := by
  have hreached := (reached_create_iff h).mpr hthrough
  have hstate : (respond crates env auth v.site v.req built.state).2 =
      ((Api.createLink config crates v.req.now v.req.draw body).run built.state).2 := by
    rcases snd_respond_reached v.site v.req built.state with ⟨hnone, _⟩ | ⟨e, captures, he, hrun⟩
    · rw [hreached] at hnone
      cases hnone
    · rw [hreached, Option.some_inj] at he
      subst he
      rw [hrun, endpoint, hbody]
      rfl
  rw [visited, hstate]

theorem status_authError_ne (e : AuthError) : e.status ≠ 429 := by
  cases e <;> decide

/-- A create that is not let through is answered by the middleware. -/
theorem status_of_not_letThrough {v : Visit config} (h : v.IsCreate) (built : Built R)
    (hrefused : ¬ letThrough env auth v.req = true) :
    (visited crates env auth built v).1.map Response.status ≠ some 429 := by
  cases hauth : Auth.authMiddleware env auth v.req.now v.req.authorization with
  | ok user => exact absurd (by rw [letThrough, hauth]; rfl) hrefused
  | error e =>
      have hanswer : (visited crates env auth built v).1 = some (.ofAuthError v.req.requestId e) := by
        simp only [visited, respond, dispatch, h.lookup, guardedRouter, if_true, hauth]
        rfl
      rw [hanswer]
      intro hstatus
      exact status_authError_ne e (Option.some.inj hstatus)

/-! ## runs -/

/-- The creates that reach their handler are those that are let through, however many
they are. -/
theorem creates_reached (visits : List (Visit config)) (clientId : String) (lo hi : Instant) :
    creates (fun v => decide (reached env auth v.req = some .createLink)) visits clientId lo hi =
      creates (fun v => letThrough env auth v.req) visits clientId lo hi := by
  apply List.countP_congr
  intro v _
  simp only [Bool.and_eq_true, decide_eq_true_eq, and_congr_right_iff]
  intro hcreate
  exact reached_create_iff hcreate.1

/-- Where all creates are let through, they all count. -/
theorem creates_letThrough {visits : List (Visit config)}
    (h : ∀ v ∈ visits, v.IsCreate → letThrough env auth v.req = true) (clientId : String) (lo hi : Instant) :
    creates (fun v => letThrough env auth v.req) visits clientId lo hi =
      creates (fun _ => true) visits clientId lo hi := by
  apply List.countP_congr
  intro v hv
  simp only [Bool.and_eq_true, decide_eq_true_eq, and_congr_right_iff, iff_true]
  intro hcreate
  exact h v hv hcreate.1

variable (crates env auth) in
/-- **The limit on creates**: whatever the configuration of the limiter, the creation of
links is limited exactly in the runs where there is nothing to limit. -/
theorem rateLimited_iff (limits : RateLimitConfig) (cleanupTtlSecs : Nat) (state : AppState R)
    (visits : List (Visit config)) :
    RateLimited crates env auth limits (build limits cleanupTtlSecs state) visits ↔
      WithinLimit env auth limits visits := by
  have hrefused : ∀ (b : Built R) (v : Visit config),
      (v.IsCreate → reached env auth v.req ≠ some .createLink →
        (visited crates env auth b v).1.map Response.status = some 429) ↔
      (v.IsCreate → letThrough env auth v.req = true) := by
    intro b v
    constructor
    · intro h hcreate
      by_contra hnot
      have hunreached : reached env auth v.req ≠ some .createLink :=
        fun hreached => hnot ((reached_create_iff hcreate).mp hreached)
      exact status_of_not_letThrough hcreate b hnot (h hcreate hunreached)
    · intro h hcreate hnot
      exact absurd ((reached_create_iff hcreate).mpr (h hcreate)) hnot
  constructor
  · intro h
    have hadmitted := (Run.along_iff_forall hrefused).mp h.refused
    constructor
    · exact hadmitted
    · intro clientId lo hi hle
      rw [← creates_letThrough hadmitted, ← creates_reached]
      exact h.bounded clientId lo hi hle
  · intro h
    constructor
    · intro clientId lo hi hle
      rw [creates_reached, creates_letThrough h.admitted]
      exact h.bounded clientId lo hi hle
    · exact (Run.along_iff_forall hrefused).mpr h.admitted

end Visits

/-! ## a burst -/

/-- Some token is accepted. -/
theorem exists_bearer : ∃ token, ∃ user, Auth.authMiddleware Auth.strokesEnv
    (some (Auth.defaultConfig Auth.strokesEnv)) (.ofSecs 1) (some ("Bearer " ++ token)) = .ok user := by
  have hencode : Auth.strokes.encode .RS256 ⟨"admin", 900, 0, "shorty-service", "shorty-api", "admin"⟩ () =
      some (Auth.strokesToken ⟨"admin", 900, 0, "shorty-service", "shorty-api", "admin"⟩) := rfl
  refine ⟨_, (Auth.passes_iff Auth.strokes_lawful).mpr ⟨_, rfl, ((), ()), _, rfl,
    Auth.strokes_lawful.header_encode hencode, Auth.strokes_keyPair.verifies hencode,
    Auth.strokes_lawful.payload_encode hencode, ?_, rfl, rfl⟩⟩
  decide

/-- A create with a token. -/
def createWith (token : String) : Visit Service.smallConfig where
  arrival := ⟨.ofSecs 0, ⟨none, none, none⟩⟩
  site := plainSite
  req := { visit (.ofSecs 1) "/api/v1/links" with
    method := .post
    authorization := some ("Bearer " ++ token) }

/-- With a limit of one link in ten seconds, two creates at once both reach their
handler. -/
theorem not_rateLimited_burst :
    ¬ ∀ (env : AuthEnv) (auth : Option AuthConfig) (limits : RateLimitConfig) (cleanupTtlSecs : Nat)
      (state : AppState InMemoryRepo) (visits : List (Visit Service.smallConfig)),
      limits.periodSecs ≤ cleanupTtlSecs → visits.Pairwise (fun v w => v.arrival.now ≤ w.arrival.now) →
      RateLimited Api.oneUrl env auth limits (build limits cleanupTtlSecs state) visits := by
  intro h
  obtain ⟨token, user, huser⟩ := exists_bearer
  have hlimited := h Auth.strokesEnv (some (Auth.defaultConfig Auth.strokesEnv))
    ⟨1, 10, by decide, by decide, by decide⟩ 10 (Service.startDisabled .new .new)
    [createWith token, createWith token] (by decide) (by simp)
  have hbound := hlimited.bounded "unknown" (.ofSecs 0) (.ofSecs 0) le_rfl
  have hreached : reached Auth.strokesEnv (some (Auth.defaultConfig Auth.strokesEnv))
      (createWith token).req = some .createLink :=
    (reached_create_iff (v := createWith token) ⟨rfl, rfl⟩).mpr
      (congrArg Except.isOk huser)
  have hcreate : (createWith token).IsCreate ∧ (createWith token).arrival.clientId = "unknown" ∧
      Instant.ofSecs 0 ≤ (createWith token).arrival.now ∧ (createWith token).arrival.now ≤ .ofSecs 0 :=
    ⟨⟨rfl, rfl⟩, rfl, le_rfl, le_rfl⟩
  have hcount : creates (fun v => decide (reached Auth.strokesEnv
      (some (Auth.defaultConfig Auth.strokesEnv)) v.req = some .createLink))
      [createWith token, createWith token] "unknown" (.ofSecs 0) (.ofSecs 0) = 2 := by
    simp [creates, hcreate, hreached]
  rw [hcount, RateLimitConfig.limitOver_eq] at hbound
  norm_num at hbound

end Router

end Shorty
