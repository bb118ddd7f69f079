import Shorty.Auth.Acceptance
import Shorty.Config
import Shorty.Grpc

/-!
# Shorty.Grpc.Server

The gRPC server (`grpc/mod.rs`): how it is started from the configuration, the check
of the caller that every method begins with, and the methods as a whole.  The check is
that of `auth_middleware`, so both transports admit the same callers, except that
this server does not start at all where authentication is disabled.
-/

namespace Shorty

namespace Grpc

open Handler

/-! ## streaming -/

inductive LinkEventType where
  | created
deriving DecidableEq

structure LinkEvent where
  eventType : LinkEventType
  link : GetLinkResponse
  occurredAt : Timestamp
deriving DecidableEq

/-- The event for a link under a code, if there is one. -/
def linkEvent (now : SystemTime) (code : String) : Handler Status (List LinkEvent) := do
  match ← ask (.stats code) with
  | .ok stats => return [⟨.created, .ofLinkStats stats, protobufTimestamp now⟩]
  | .error _ => return []

/-- The events of a stream.  The batch size of the request bounds the channel they go
through, and nothing else. -/
def streamLinks (now : SystemTime) : Handler Status (List LinkEvent) := do
  let first ← linkEvent now "stream-1"
  let second ← linkEvent now "stream-2"
  return first ++ second

/-! ## calls -/

/-- A call of the service. -/
inductive Rpc where
  | getLink (req : GetLinkRequest)
  | createLink (generated : ShortUuid) (req : CreateLinkRequest)
  | listLinks (req : ListLinksRequest)
  | streamLinks

/-- The response message of a call, or the stream of them. -/
inductive Reply where
  | link (response : GetLinkResponse)
  | created (response : CreateLinkResponse)
  | links (response : ListLinksResponse)
  | events (events : List LinkEvent)
deriving DecidableEq

/-- The method of a call, past the check of its caller. -/
def method (now : SystemTime) : Rpc → Handler Status Reply
  | .getLink req => return .link (← getLink req)
  | .createLink generated req => return .created (← createLink now generated req)
  | .listLinks req => return .links (← listLinks now req)
  | .streamLinks => return .events (← streamLinks now)

def Status.unauthenticated (message : String) : Status := ⟨.unauthenticated, message⟩

/-- The service, with its configuration of authentication. -/
structure ShortyServiceImpl where
  authConfig : AuthConfig

/-- The service of a server that starts; `none` where starting it panics. -/
def serve (auth : Option AuthConfig) : Option ShortyServiceImpl := auth.map ShortyServiceImpl.mk

section Authenticate

variable (env : AuthEnv) (service : ShortyServiceImpl) (now : SystemTime) (authorization : Option String)

/-- The check of the caller, given its `authorization` metadata where it is text. -/
def authenticate : Except Status Unit :=
  match authorization.bind (Token.stripPrefix "Bearer ") with
  | none => .error (.unauthenticated "missing or invalid token")
  | some token =>
      match Auth.loadKeys env service.authConfig with
      | .error _ => .error (.internal "failed to load auth keys")
      | .ok (_, decodingKey) =>
          match Auth.validateToken env now token decodingKey with
          | .error _ => .error (.unauthenticated "invalid token")
          | .ok _ => .ok ()

/-- A call: every method checks its caller first. -/
def call (rpc : Rpc) : Handler Status Reply := do
  ofExcept id (authenticate env service now authorization)
  method now rpc

end Authenticate

/-! ## the same callers -/

variable {env : AuthEnv} {service : ShortyServiceImpl} {now : SystemTime} {authorization : Option String}

/-- The service admits the bearers of tokens that validate. -/
theorem authenticate_eq_ok_iff : authenticate env service now authorization = .ok () ↔
    ∃ token, authorization = some ("Bearer " ++ token) ∧ ∃ keys claims,
      Auth.loadKeys env service.authConfig = .ok keys ∧
      Auth.validateToken env now token keys.2 = .ok claims := by
  have hbearer : ∀ token, authorization.bind (Token.stripPrefix "Bearer ") = some token ↔
      authorization = some ("Bearer " ++ token) := by
    intro token
    simp [Option.bind_eq_some_iff, Token.stripPrefix_eq_some_iff]
  rw [authenticate]
  cases htoken : authorization.bind (Token.stripPrefix "Bearer ") with
  | none =>
      have hnone : ∀ token, authorization ≠ some ("Bearer " ++ token) := by
        intro token h
        rw [(hbearer token).mpr h] at htoken
        cases htoken
      simp [hnone]
  | some token =>
      rw [(hbearer token).mp htoken]
      constructor
      · intro h
        cases hkeys : Auth.loadKeys env service.authConfig with
        | error e => simp [hkeys] at h
        | ok keys =>
            cases hvalid : Auth.validateToken env now token keys.2 with
            | error e => simp [hkeys, hvalid] at h
            | ok claims => exact ⟨token, rfl, keys, claims, rfl, hvalid⟩
      · rintro ⟨token', hsame, keys, claims, hkeys, hvalid⟩
        obtain rfl := Auth.bearer_injective hsame
        simp [hkeys, hvalid]

/-- The service and the middleware of one configuration admit the same callers. -/
theorem authenticate_iff_passes : authenticate env service now authorization = .ok () ↔
    Auth.Passes env service.authConfig now authorization := by
  rw [authenticate_eq_ok_iff, Auth.passes_iff_validateToken]

/-- A request with this header passes `auth_middleware`. -/
def HttpAdmits (env : AuthEnv) (config : ServerConfig) (now : SystemTime) (header : Option Auth.HeaderValue) :
    Prop :=
  ∃ user, Auth.authMiddleware env config.auth now (header.bind Auth.headerToStr) = .ok user

/-- The server starts, and a call with this header as metadata passes the check of its
caller. -/
def GrpcAdmits (env : AuthEnv) (config : ServerConfig) (now : SystemTime) (header : Option Auth.HeaderValue) :
    Prop :=
  ∃ service, serve config.auth = some service ∧
    authenticate env service now (header.bind Auth.headerToStr) = .ok ()

/-- **One door**: both transports admit the same callers exactly when authentication is
not disabled. -/
theorem sameCallers_iff (env : AuthEnv) (vars : Vars) (config : ServerConfig)
    (h : ServerConfig.fromEnv env vars = some config) (now : SystemTime) (header : Option Auth.HeaderValue) :
    (HttpAdmits env config now header ↔ GrpcAdmits env config now header) ↔
      vars "DISABLE_AUTH" = none := by
  have hdisabled := ServerConfig.auth_eq_none_iff h
  cases hauth : config.auth with
  | none =>
      have hhttp : HttpAdmits env config now header := by
        rw [HttpAdmits, hauth]
        exact ⟨none, rfl⟩
      have hgrpc : ¬ GrpcAdmits env config now header := by
        rintro ⟨service, hserve, _⟩
        rw [hauth] at hserve
        cases hserve
      have hset := hdisabled.mp hauth
      simp [hhttp, hgrpc, hset]
  | some authConfig =>
      have hunset : vars "DISABLE_AUTH" = none := by
        by_contra hset
        rw [hdisabled.mpr hset] at hauth
        cases hauth
      have hgrpc : GrpcAdmits env config now header ↔
          authenticate env ⟨authConfig⟩ now (header.bind Auth.headerToStr) = .ok () := by
        rw [GrpcAdmits, hauth]
        simp [serve]
      rw [hgrpc, authenticate_iff_passes, HttpAdmits, hauth]
      simp [Auth.Passes, hunset]

/-- A text as the value of a header. -/
def headerOf (s : String) : Auth.HeaderValue := s.toList.map (fun c => c.toNat.toUInt8)

theorem headerToStr_headerOf {s : String} (h : ∀ c ∈ s.toList, 32 ≤ c.toNat ∧ c.toNat < 127) :
    Auth.headerToStr (headerOf s) = some s := by
  have hbyte : ∀ c ∈ s.toList, c.toNat.toUInt8.toNat = c.toNat := fun c hc =>
    UInt8.toNat_ofNat_of_lt' (Nat.lt_trans (h c hc).2 (by decide))
  have hvisible : (headerOf s).all
      (fun b => (decide (32 ≤ b) && decide (b < 127)) || decide (b = 9)) = true := by
    refine List.all_eq_true.mpr (fun b hb => ?_)
    obtain ⟨c, hc, rfl⟩ := List.mem_map.mp hb
    obtain ⟨hlow, hhigh⟩ := h c hc
    simp [UInt8.le_iff_toNat_le, UInt8.lt_iff_toNat_lt, hbyte c hc, hlow, hhigh]
  have hback : (headerOf s).map (fun b => Char.ofNat b.toNat) = s.toList := by
    rw [headerOf, List.map_map]
    refine (List.map_congr_left (fun c hc => ?_)).trans (List.map_id _)
    show Char.ofNat c.toNat.toUInt8.toNat = c
    rw [hbyte c hc, Char.ofNat_toNat]
  rw [Auth.headerToStr, if_pos hvisible, hback, String.ofList_toList]

/-- The header of a request with a token for these claims. -/
def bearer (claims : Claims) : Auth.HeaderValue := headerOf ("Bearer " ++ Auth.strokesToken claims)

theorem headerToStr_bearer (claims : Claims) :
    Auth.headerToStr (bearer claims) = some ("Bearer " ++ Auth.strokesToken claims) := by
  refine headerToStr_headerOf (fun c hc => ?_)
  rw [String.toList_append] at hc
  obtain hscheme | htoken := List.mem_append.mp hc
  · have hall : ∀ c ∈ "Bearer ".toList, 32 ≤ c.toNat ∧ c.toNat < 127 := by simp
    exact hall c hscheme
  · obtain rfl | rfl | rfl := Auth.mem_strokesToken htoken <;> decide

/-- The bearer of a token for the default issuer and audience goes through until it expires. -/
theorem httpAdmits_bearer {claims : Claims} (hexp : now.secsSinceEpoch ≤ claims.exp + 30)
    (hiss : claims.iss = "shorty-service") (haud : claims.aud = "shorty-api") :
    HttpAdmits Auth.strokesEnv (ServerConfig.default Auth.strokesEnv) now (some (bearer claims)) := by
  have hvalid := Auth.validFor_strokesToken (Auth.defaultConfig Auth.strokesEnv) rfl hexp
  rw [hiss, haud] at hvalid
  have hpasses := (Auth.passes_bearer_iff_validFor Auth.strokes_lawful).mpr hvalid
  rw [HttpAdmits, Option.bind_some, headerToStr_bearer]
  exact hpasses

/-- What a login at the epoch says of the administrator. -/
def adminClaims : Claims := ⟨"admin", 900, 0, "shorty-service", "shorty-api", "admin"⟩

/-- With nothing set in the environment, a request with a token that is valid for five more
minutes: both transports admit it. -/
theorem sameCallers_iff_bearer :
    ((HttpAdmits Auth.strokesEnv (ServerConfig.default Auth.strokesEnv) (.ofSecs 600) (some (bearer adminClaims)) ↔
      GrpcAdmits Auth.strokesEnv (ServerConfig.default Auth.strokesEnv) (.ofSecs 600) (some (bearer adminClaims))) ↔
      (none : Option String) = none) ∧
    HttpAdmits Auth.strokesEnv (ServerConfig.default Auth.strokesEnv) (.ofSecs 600) (some (bearer adminClaims)) :=
  ⟨sameCallers_iff Auth.strokesEnv (fun _ => none) (ServerConfig.default Auth.strokesEnv) rfl
    (.ofSecs 600) (some (bearer adminClaims)), httpAdmits_bearer (by decide) rfl rfl⟩

/-- Where authentication is disabled, HTTP admits everyone and gRPC does not start. -/
theorem not_sameCallers_disabled :
    ¬ ∀ (env : AuthEnv) (vars : Vars) (config : ServerConfig),
      ServerConfig.fromEnv env vars = some config →
      ∀ now header, HttpAdmits env config now header ↔ GrpcAdmits env config now header := by
  intro h
  have hsame := h Auth.strokesEnv (fun name => if name = "DISABLE_AUTH" then some "1" else none)
    { ServerConfig.default Auth.strokesEnv with auth := none } rfl (.ofSecs 0) none
  have hhttp : HttpAdmits Auth.strokesEnv { ServerConfig.default Auth.strokesEnv with auth := none }
      (.ofSecs 0) none := ⟨none, rfl⟩
  obtain ⟨service, hserve, _⟩ := hsame.mp hhttp
  cases hserve

end Grpc

end Shorty
