import Shorty.Router.Layers

/-!
# Shorty.Router.Serving

The HTTP server, layers and router and all, is the service of `Shorty.Timed`: a request that
comes in makes the calls of one request of the API, or none.  So whatever holds of the
service under every schedule of such requests holds of the server.
-/

namespace Shorty

namespace Router

open Pool (Adapts adapts_map)

section Requests

variable {config : Config} (req : Incoming config)

/-- The code in a path. -/
def pathCode : List String → Option String
  | [segment] => percentDecode segment
  | _ => none

/-- The request of the API that a handler serves, if it gets so far. -/
def apiRequest (captures : List String) : Endpoint → Option (Api.Request config)
  | .redirect => (pathCode captures).map .redirect
  | .createLink => req.createBody.toOption.map (.createLink req.draw)
  | .listLinks => some (.listLinks (lastParam req "limit") (lastParam req "cursor"))
  | .getLink => (pathCode captures).map .getLink
  | .updateLink => (pathCode captures).bind (fun code => req.updateBody.toOption.map (.updateLink code))
  | .deleteLink => (pathCode captures).map .deleteLink
  | .getLinkStats => (pathCode captures).map .getLinkStats
  | .getTopStats => req.topQuery.toOption.map .getTopStats
  | _ => none

variable (env : AuthEnv) (auth : Option AuthConfig)

/-- The request of the API that is served, behind the middleware. -/
def served : Option (Api.Request config) :=
  match buildRouter.lookup (pathSegments req.path) with
  | none => none
  | some (r, captures) =>
      if r.guarded = true ∧ (Auth.authMiddleware env auth req.now req.authorization).isOk = false then none
      else (MethodRouter.find r req.method).bind (apiRequest req captures)

variable {req env auth} {crates : Crates} {site : Site}

end Requests

/-! ## behind the layers -/

section Service

variable {config : Config} {d : Setup} {w : Wire config}

/-- The identifier of a request: the one it comes with, or a new one. -/
def Wire.requestId (w : Wire config) : Auth.HeaderValue := w.requestIdHeader.getD w.uuid

/-- The request of the API that comes through the layers, if one does. -/
def arrival (d : Setup) (w : Wire config) : Option (Api.Arrival config) :=
  if w.contentLength.any (d.maxBodyBytes < ·) then none
  else (served w.incoming d.env d.auth).map (fun r => ⟨w.incoming.now, Auth.headerToStr w.requestId, r⟩)

/-- A request as it gets to the routes. -/
def Wire.scoped (w : Wire config) : Wire config where
  requestIdHeader := some w.requestId
  uuid := w.uuid
  contentLength := w.contentLength
  site := w.site
  foreign := w.foreign
  incoming := { w.incoming with requestId := Auth.headerToStr w.requestId }

/-- What the layers add to the routes. -/
theorem buildService_eq (d : Setup) (w : Wire config) : buildService d w =
    if w.contentLength.any (d.maxBodyBytes < ·) then .done (some payloadTooLarge)
    else Option.map (fun out : Outbound => { out with requestIdHeader := out.requestIdHeader.or (some w.requestId) }) <$>
      routes d w.scoped := rfl

end Service

/-! ## the server -/

namespace Front

variable {config : Config} {R : Type} [LinkRepository R] {d : Setup} {s : Front config R}
  {p : Timed.Clients config R}

end Front

end Router

end Shorty
