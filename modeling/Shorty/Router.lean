import Shorty.Lib.Routing
import Shorty.Service

/-!
# Shorty.Router

The router of the service (`build_router` in `lib.rs`): which handler a method
and a path reach, behind which middleware, and the pages that are not about
links.  Whatever axum and serde extract from a request before a handler sees it
is a field of `Incoming`.
-/

namespace Shorty

inductive Method where
  | get
  | head
  | post
  | put
  | delete
  | other (name : String)
deriving DecidableEq

/-- The handlers of the service. -/
inductive Endpoint where
  | healthz
  | readyz
  | version
  | login
  | redirect
  | swaggerUi
  | openapi
  | createLink
  | listLinks
  | getLink
  | updateLink
  | deleteLink
  | getLinkStats
  | getTopStats
  | slow
  | slowBlocking
  | metrics
deriving DecidableEq

/-- The handlers of one path, and whether `auth_middleware` stands before them. -/
structure MethodRouter where
  guarded : Bool
  methods : List (Method × Endpoint)

namespace Router

open Routing

def publicRoutes : Table MethodRouter := [
  ([.lit "healthz"], ⟨false, [(.get, .healthz)]⟩),
  ([.lit "readyz"], ⟨false, [(.get, .readyz)]⟩),
  ([.lit "version"], ⟨false, [(.get, .version)]⟩),
  ([.lit "auth", .lit "login"], ⟨false, [(.post, .login)]⟩),
  ([.param], ⟨false, [(.get, .redirect)]⟩),
  -- `SwaggerUi::new("/swagger-ui").url("/api-docs/openapi.json", ..)`
  ([.lit "swagger-ui"], ⟨false, [(.get, .swaggerUi)]⟩),
  ([.lit "swagger-ui", .lit ""], ⟨false, [(.get, .swaggerUi)]⟩),
  ([.lit "swagger-ui", .rest], ⟨false, [(.get, .swaggerUi)]⟩),
  ([.lit "api-docs", .lit "openapi.json"], ⟨false, [(.get, .openapi)]⟩)]

def protectedRoutes : Table MethodRouter := [
  ([.lit "links"], ⟨true, [(.post, .createLink), (.get, .listLinks)]⟩),
  ([.lit "links", .param],
    ⟨true, [(.get, .getLink), (.put, .updateLink), (.delete, .deleteLink)]⟩),
  ([.lit "links", .param, .lit "stats"], ⟨true, [(.get, .getLinkStats)]⟩),
  ([.lit "stats", .lit "top"], ⟨true, [(.get, .getTopStats)]⟩)]

def buildRouter : Table MethodRouter :=
  publicRoutes ++ protectedRoutes.nest [.lit "api", .lit "v1"] ++ [
    ([.lit "slow"], ⟨false, [(.get, .slow)]⟩),
    ([.lit "slow-blocking"], ⟨false, [(.get, .slowBlocking)]⟩),
    ([.lit "metrics"], ⟨false, [(.get, .metrics)]⟩)]

/-- The segments of a path, which starts with a slash. -/
def pathSegments (path : String) : List String :=
  ((path.toList.splitOn '/').drop 1).map String.ofList

-- a code in the middle of a path may be empty, one at its end may not
example : buildRouter.lookup (pathSegments "/api/v1/links//stats") =
    some (⟨true, [(.get, .getLinkStats)]⟩, [""]) := rfl

example : buildRouter.lookup (pathSegments "/api/v1/links/") = none := rfl

/-- The handler of a method; a `HEAD` takes that of `GET`. -/
def MethodRouter.find (r : MethodRouter) (method : Method) : Option Endpoint :=
  (r.methods.lookup method).or (if method = .head then r.methods.lookup .get else none)

/-! ## requests -/

/-- A hexadecimal digit. -/
def hexValue (b : UInt8) : Option UInt8 :=
  if 48 ≤ b ∧ b ≤ 57 then some (b - 48)
  else if 65 ≤ b ∧ b ≤ 70 then some (b - 55)
  else if 97 ≤ b ∧ b ≤ 102 then some (b - 87)
  else none

/-- Every percent sign with two digits as the byte they are. -/
def percentBytes : List UInt8 → List UInt8
  | 37 :: h :: l :: bytes =>
      match hexValue h, hexValue l with
      | some h', some l' => (h' * 16 + l') :: percentBytes bytes
      | _, _ => 37 :: percentBytes (h :: l :: bytes)
  | b :: bytes => b :: percentBytes bytes
  | [] => []

/-- A parameter of a path; `none` where it is not UTF-8. -/
def percentDecode (s : String) : Option String :=
  if '%' ∈ s.toList then
    String.fromUTF8? ⟨(percentBytes s.toUTF8.toList).toArray⟩
  else some s

/-- What the pages that are not about links show.  The pages of the OpenAPI
documentation are a third party's. -/
structure Site where
  cancelled : Bool
  /-- Whether the database answers in time, where there is one. -/
  database : Option Bool
  metrics : String
  swaggerUi : String → Response
  openapi : Response

/-- A request as it arrives: what the extractors make of it, each failure with
its status and text. -/
structure Incoming (config : Config) where
  now : SystemTime
  requestId : Option String
  method : Method
  path : String
  params : List (String × String)
  authorization : Option String
  createBody : Except (Nat × String) CreateLinkRequest
  updateBody : Except (Nat × String) UpdateLinkRequest
  loginBody : Except (Nat × String) Auth.LoginRequest
  topQuery : Except (Nat × String) Nat
  draw : Nat → Nanoid config.codeLength

/-! ## pages -/

def healthz : Response := .ok (.health "ok")

def readyz (site : Site) : Response :=
  if site.cancelled then ⟨503, [], .empty⟩
  else match site.database with
    | some false => ⟨503, [], .empty⟩
    | _ => ⟨200, [], .empty⟩

def version : Response := .ok (.version "0.1.0")

/-- How long `slow` has another thread sleep, and `slow_blocking` sleeps itself, before they
answer. -/
def slowMs : Nat := 2000

def slow : Response := .ok (.text "done: spawn_blocking kept workers free\n")

def slowBlocking : Response := .ok (.text "done: but a worker thread was blocked for 2s!\n")

def metrics (site : Site) : Response :=
  ⟨200, [("content-type", "text/plain; version=0.0.4")], .text site.metrics⟩

/-! ## dispatch -/

section Dispatch

variable {config : Config} (crates : Crates) (env : AuthEnv) (auth : Option AuthConfig)
  (site : Site) (req : Incoming config)

open Handler

/-- `AppJson`. -/
def appJson {α : Type} : Except (Nat × String) α → Handler AppError α :=
  ofExcept (fun rejection => .invalidBody rejection.1 rejection.2)

/-- The last value of a parameter of the query. -/
def lastParam (name : String) : Option String := req.params.reverse.lookup name

/-- A handler with a parameter of the path. -/
def withCode (captures : List String) (h : String → Handler AppError Response) :
    Handler AppError Response :=
  match captures with
  | [code] =>
      match percentDecode code with
      | some code => h code
      | none => return ⟨400, [], .text "Invalid URL: Invalid UTF-8 in \x60code\x60"⟩
  | _ => return ⟨500, [], .text ("Wrong number of path arguments for \x60Path\x60. " ++
      "Expected 1 but got " ++ toString captures.length)⟩

def login : Handler AppError Response :=
  match req.loginBody with
  | .error rejection => return ⟨rejection.1, [], .text rejection.2⟩
  | .ok body =>
      match Auth.loginHandler env auth req.now body with
      | .ok response => return .ok (.login response)
      | .error (.error e) => return .ofAuthError req.requestId e
      | .error .panicked => orPanic none

def endpoint (captures : List String) : Endpoint → Handler AppError Response
  | .healthz => return healthz
  | .readyz => return readyz site
  | .version => return version
  | .login => login env auth req
  | .redirect => withCode captures (Api.redirect req.now)
  | .swaggerUi => return site.swaggerUi req.path
  | .openapi => return site.openapi
  | .createLink => do
      Api.createLink config crates req.now req.draw (← appJson req.createBody)
  | .listLinks => Api.listLinks crates req.now (lastParam req "limit") (lastParam req "cursor")
  | .getLink => withCode captures Api.getLink
  | .updateLink => withCode captures (fun code => do
      Api.updateLink crates req.now code (← appJson req.updateBody))
  | .deleteLink => withCode captures Api.deleteLink
  | .getLinkStats => withCode captures (Api.getLinkStats req.now)
  | .getTopStats =>
      match req.topQuery with
      | .ok limit => Api.getTopStats limit
      | .error rejection => return ⟨rejection.1, [], .text rejection.2⟩
  | .slow => return slow
  | .slowBlocking => return slowBlocking
  | .metrics => return metrics site

/-- The handler of a request, behind its middleware. -/
def endpoint? : Option Endpoint :=
  (buildRouter.lookup (pathSegments req.path)).bind (fun r => MethodRouter.find r.1 req.method)

/-- The handlers of a path.  The answer to a `HEAD` has no body. -/
def methodRouter (r : MethodRouter) (captures : List String) : Handler AppError Response :=
  match MethodRouter.find r req.method with
  | some e => do
      let response ← endpoint crates env auth site req captures e
      return if req.method = .head then { response with body := .empty } else response
  | none => return ⟨405, [], .empty⟩

/-- The handlers of a path behind its middleware. -/
def guardedRouter (r : MethodRouter) (captures : List String) : Handler AppError Response :=
  if r.guarded then
    match Auth.authMiddleware env auth req.now req.authorization with
    | .error e => return .ofAuthError req.requestId e
    | .ok _ => methodRouter crates env auth site req r captures
  else methodRouter crates env auth site req r captures

def dispatch : Handler AppError Response :=
  match buildRouter.lookup (pathSegments req.path) with
  | some (r, captures) => guardedRouter crates env auth site req r captures
  | none => fail .notFound

variable {R : Type} [LinkRepository R]

/-- A request answered with nothing in between. -/
def respond (s : AppState R) : Option Response × AppState R :=
  let out := (dispatch crates env auth site req).run s
  (Api.answer req.requestId out.1, out.2)

end Dispatch

end Router

end Shorty
