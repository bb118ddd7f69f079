import Shorty.Api.Calls
import Shorty.Router.Metrics
import Shorty.Timed

/-!
# Shorty.Router.Layers

The layers around the router (`build_router` in `lib.rs`) and the identifier of a request
(`request_id.rs`).  What a layer does on the way in is done to the request, and what it does
on the way out to the response; the calls in between are those of the handler.

`Front` is the HTTP server: requests interleaved at their calls, and answered one by one, by
their handlers or by `TimeoutLayer`.
-/

namespace Shorty

/-- The identifier that a body shows for that of its request. -/
def Body.requestId? : Body → Option (Option String)
  | .error body => some body.requestId
  | .authError _ _ requestId => some requestId
  | _ => none

namespace Router

/-- A request as it comes in. -/
structure Wire (config : Config) where
  /-- Its `x-request-id`. -/
  requestIdHeader : Option Auth.HeaderValue
  /-- What `MakeRequestUuid` draws for it. -/
  uuid : Auth.HeaderValue
  contentLength : Option Nat
  /-- What the pages show at the time ... -/
  site : Site
  /-- ... where those of a third party show no identifier. -/
  foreign : (∀ path, (site.swaggerUi path).body.requestId? = none) ∧ site.openapi.body.requestId? = none
  incoming : Incoming config

/-- A response as it goes out, with its `x-request-id`. -/
structure Outbound where
  response : Response
  requestIdHeader : Option Auth.HeaderValue
deriving DecidableEq

/-- What the HTTP server is run with. -/
structure Setup where
  deployment : Timed.Deployment
  env : AuthEnv
  auth : Option AuthConfig
  maxBodyBytes : Nat

/-- A service: what is done for a request, a call at a time. -/
abbrev Svc (config : Config) := Wire config → Proc Call.Resp (Option Outbound)

variable {config : Config}

/-- No body is sent in answer to a `HEAD`. -/
def sent (method : Method) (response : Response) : Response :=
  if method = .head then { response with body := .empty } else response

/-- The routes. -/
def routes (d : Setup) : Svc config := fun w =>
  Option.map (fun response => ⟨sent w.incoming.method response, none⟩) <$>
    Api.answer w.incoming.requestId <$>
      ExceptT.run (dispatch d.deployment.crates d.env d.auth w.site w.incoming)

/-! ## layers -/

/-- `PropagateRequestIdLayer`. -/
def propagateRequestId (inner : Svc config) : Svc config := fun w =>
  Option.map (fun out => { out with requestIdHeader := out.requestIdHeader.or w.requestIdHeader }) <$> inner w

/-- The answer of `RequestBodyLimitLayer`. -/
def payloadTooLarge : Outbound :=
  ⟨⟨413, [("content-type", "text/plain; charset=utf-8")], .text "length limit exceeded"⟩, none⟩

/-- `RequestBodyLimitLayer`.  A body that turns out too long, without a length that says so,
is one of the rejections of `Incoming`. -/
def requestBodyLimit (limit : Nat) (inner : Svc config) : Svc config := fun w =>
  if w.contentLength.any (limit < ·) then .done (some payloadTooLarge) else inner w

/-- `request_id_scope`: what `current_request_id` answers in the handlers. -/
def requestIdScope (inner : Svc config) : Svc config := fun w =>
  inner { w with incoming := { w.incoming with requestId := w.requestIdHeader.bind Auth.headerToStr } }

/-- `SetRequestIdLayer`. -/
def setRequestId (inner : Svc config) : Svc config := fun w =>
  inner { w with requestIdHeader := some (w.requestIdHeader.getD w.uuid) }

/-- `build_router`, but for the layers that look at the clock and at the response, which are
between the scope and the limit. -/
def buildService (d : Setup) : Svc config :=
  setRequestId (requestIdScope (requestBodyLimit d.maxBodyBytes (propagateRequestId (routes d))))

/-- The answer of `TimeoutLayer`. -/
def timedOut : Outbound := ⟨⟨503, [], .empty⟩, none⟩

/-! ## the server -/

/-- The labels of `http_requests_total`: method, route and status. -/
abbrev Label := Method × String × Nat

/-- The requests of the HTTP server. -/
abbrev Requests (config : Config) (R : Type) :=
  Pool (Wire config) Call.Resp (Option Outbound) (Timed.State R)

/-- An answer to a request, and how long the request had run. -/
structure Exchange (config : Config) where
  index : Nat
  request : Wire config
  response : Outbound
  ageMs : Nat

/-- The HTTP server: its requests, the answers it has given, and its counters. -/
structure Front (config : Config) (R : Type) where
  requests : Requests config R
  answered : List (Exchange config)
  requestsTotal : Label → Nat

inductive Front.Move (config : Config) where
  | requests (m : Pool.Move (Wire config) Timed.Event)
  | respond (i : Nat)

namespace Front

variable {R : Type}

/-- How long a request has run. -/
def ageMs (p : Requests config R) (t : Pool.Task (Wire config) Call.Resp (Option Outbound) (Timed.State R)) : Nat :=
  p.state.nowMs - (p.stateAt t.startedAt).nowMs

/-- How long the handler of a request sleeps. -/
def sleepMs (d : Setup) (w : Wire config) : Nat :=
  if w.contentLength.any (d.maxBodyBytes < ·) then 0
  else match endpoint? w.incoming with
    | some .slow => slowMs
    | some .slowBlocking => slowMs
    | _ => 0

/-- Whether the handler sleeps on its worker, and nobody looks at the clock meanwhile. -/
def isBlocking (w : Wire config) : Bool := decide (endpoint? w.incoming = some .slowBlocking)

/-- What a request can be answered: the result of its handler; and where there is none in
time, that of `TimeoutLayer`. -/
def outcome? (d : Setup) (p : Requests config R)
    (t : Pool.Task (Wire config) Call.Resp (Option Outbound) (Timed.State R)) : Option Outbound :=
  if t.rest.result?.isSome ∧ sleepMs d t.request ≤ ageMs p t ∧
      (sleepMs d t.request ≤ d.deployment.requestTimeoutMs ∨ isBlocking t.request) then
    t.rest.result?.bind id
  else if d.deployment.requestTimeoutMs ≤ ageMs p t ∧ ¬ (t.rest.result?.isSome ∧ isBlocking t.request) then
    some timedOut
  else none

def isAnswered (s : Front config R) (i : Nat) : Bool := s.answered.any (·.index = i)

/-- Whether the handler of a request is still polled. -/
def isPolled (d : Setup) (s : Front config R) (i : Nat) : Bool :=
  !s.isAnswered i &&
    (s.requests.tasks[i]?).all (fun t => ageMs s.requests t ≤ d.deployment.requestTimeoutMs)

/-- The labels `http_metrics_middleware` counts an answer under. -/
def label (e : Exchange config) : Label :=
  (e.request.incoming.method, routeTemplate e.request.incoming.path, e.response.response.status)

/-- `http_metrics_middleware`. -/
def count (l : Label) (total : Label → Nat) : Label → Nat := fun l' => total l' + if l' = l then 1 else 0

variable [LinkRepository R]

/-- A move of the requests, whether or not they are still polled. -/
def move (d : Setup) : Requests config R → Pool.Move (Wire config) Timed.Event → Requests config R :=
  Pool.step (Timed.State.exec d.deployment.json) (buildService d) Timed.State.elapse

def step (d : Setup) (s : Front config R) : Front.Move config → Front config R
  | .requests (.advance i) =>
      if s.isPolled d i then { s with requests := move d s.requests (.advance i) } else s
  | .requests m => { s with requests := move d s.requests m }
  | .respond i =>
      match s.requests.tasks[i]? with
      | none => s
      | some t =>
          if s.isAnswered i then s
          else match outcome? d s.requests t with
            | none => s
            | some out =>
                let e : Exchange config := ⟨i, t.request, out, ageMs s.requests t⟩
                { s with
                  answered := s.answered ++ [e]
                  requestsTotal := count (label e) s.requestsTotal }

/-- A server that has just started, with the counters of its process. -/
def new (s : Timed.State R) (total : Label → Nat) : Front config R := ⟨Pool.new s, [], total⟩

end Front

end Router

end Shorty
