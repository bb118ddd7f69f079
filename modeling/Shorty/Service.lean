import Shorty.Lib.Run
import Shorty.Api.Spec
import Shorty.Grpc

/-!
# Shorty.Service

The service as a machine: HTTP requests, gRPC calls, ticks of the cleaner
(`cleanup.rs`) and cache entries running out, one after the other.  `Effect` says
once what an event can do to the state; the results about whole runs are case
analyses of it.
-/

namespace Shorty

namespace Service

open LawfulLinkRepository (find)

/-- What happens to the service. -/
inductive Event (config : Config) where
  | http (arrival : Api.Arrival config)
  | grpcGetLink (req : Grpc.GetLinkRequest)
  | grpcCreateLink (now : SystemTime) (generated : Grpc.ShortUuid) (req : Grpc.CreateLinkRequest)
  | grpcListLinks (now : SystemTime) (req : Grpc.ListLinksRequest)
  | purgeExpired (now : SystemTime)
  | expire (key : String)

variable {config : Config} (crates : Crates) {R : Type} [LinkRepository R]

/-- One tick of the cleaner. -/
def tick (now : SystemTime) (s : AppState R) : AppState R :=
  { s with repo := (LinkRepository.purgeExpired now s.repo).2 }

/-- The state after an event. -/
def step (s : AppState R) : Event config → AppState R
  | .http a => Api.step crates s a
  | .grpcGetLink req => ((Grpc.getLink req).run s).2
  | .grpcCreateLink now generated req => ((Grpc.createLink now generated req).run s).2
  | .grpcListLinks now req => ((Grpc.listLinks now req).run s).2
  | .purgeExpired now => tick now s
  | .expire key => { s with cache := s.cache.expire key }

/-- What an HTTP client sees of an event. -/
def response (s : AppState R) : Event config → Option Response
  | .http a => (Api.serve crates a.now a.requestId a.req s).1
  | _ => none

variable [LawfulLinkRepository R]

/-- What an event can do to the state. -/
inductive Effect (s : AppState R) : Event config → AppState R → Prop where
  /-- Nothing. -/
  | kept (e : Event config) : Effect s e s
  /-- A `GET` on the cache. -/
  | looked (e : Event config) (code : String) : Effect s e (Api.afterGet s code)
  /-- A missed read stores the response. -/
  | filled (e : Event config) (code : String) (l : LinkStats) (h : find s.repo code = some l) :
      Effect s e
        { s with cache := (Api.afterGet s code).cache.set (linkKey code) (.ofLinkStats l) }
  /-- A create stores a link under a free code. -/
  | created (e : Event config) (code : String) (l : LinkStats) (r : R)
      (hfree : find s.repo code = none) (hfind : find r = (find s.repo).put code l) :
      Effect s e { s with repo := r }
  /-- A redirect counts. -/
  | followed (e : Event config) (code : String) (l : LinkStats) (r : R)
      (h : find s.repo code = some l)
      (hfind : find r = (find s.repo).put code { l with hits := l.hits + 1 }) :
      Effect s e { s with repo := r, cache := s.cache.invalidate (linkKey code) }
  /-- An update changes the link under its code. -/
  | updated (now : SystemTime) (requestId : Option String) (code : String)
      (req : UpdateLinkRequest) (l : LinkStats) (r : R)
      (hfind : find r = (find s.repo).put code l) :
      Effect s (.http ⟨now, requestId, .updateLink code req⟩)
        { s with repo := r, cache := s.cache.invalidate (linkKey code) }
  /-- A delete drops the code. -/
  | deleted (now : SystemTime) (requestId : Option String) (code : String) (r : R)
      (hfind : find r = (find s.repo).drop code) :
      Effect s (.http ⟨now, requestId, .deleteLink code⟩)
        { s with repo := r, cache := s.cache.invalidate (linkKey code) }
  /-- The cleaner drops what is expired. -/
  | purged (now : SystemTime) (r : R) (hfind : find r = (find s.repo).purge now) :
      Effect s (.purgeExpired now) { s with repo := r }
  /-- A cache entry runs out. -/
  | expired (key : String) : Effect s (.expire key) { s with cache := s.cache.expire key }

variable {crates} {s : AppState R}

/-! ## HTTP requests -/

section Http

variable {now : SystemTime} {requestId : Option String} {code : String}

theorem effect_createLink (draw : Nat → Nanoid config.codeLength) (req : CreateLinkRequest) :
    Effect s (.http ⟨now, requestId, .createLink draw req⟩)
      ((Api.createLink config crates now draw req).run s).2 := by
  rcases Api.run_createLink_cases crates now draw req s
    with ⟨url, expiresAt, code, _, _, hr, hfree, hrun⟩ | ⟨failure, hrun⟩
  · rw [hrun]
    exact .created _ code _ _ hfree (find_inserted now hr hfree)
  · rw [hrun]
    exact .kept _

theorem effect_updateLink (req : UpdateLinkRequest) :
    Effect s (.http (⟨now, requestId, .updateLink code req⟩ : Api.Arrival config))
      ((Api.updateLink crates now code req).run s).2 := by
  cases hurl : parseTargetUrl crates.url req.targetUrl with
  | error e =>
      rw [Api.run_updateLink_invalid hurl]
      exact .kept _
  | ok url =>
      rcases LawfulLinkRepository.update_cases now code url.asStr req.version s.repo with
        ⟨e, hup⟩ | ⟨l, _, hok, hput⟩
      · rw [Api.run_updateLink_error hurl hup]
        exact .kept _
      · rw [Api.run_updateLink_ok hurl (Prod.ext hok rfl)]
        exact .updated now requestId code req _ _ hput

theorem effect_getLink (e : Event config) : Effect s e ((Api.getLink code).run s).2 := by
  cases hget : (s.cache.get (linkKey code)).1 with
  | some cached =>
      rw [Api.run_getLink_hit hget]
      exact .looked e code
  | none =>
      cases h : find s.repo code with
      | none =>
          rw [Api.run_getLink_absent hget h]
          exact .looked e code
      | some l =>
          rw [Api.run_getLink_miss hget h]
          exact .filled e code l h

theorem effect_redirect (e : Event config) : Effect s e ((Api.redirect now code).run s).2 := by
  cases h : find s.repo code with
  | none =>
      rw [Api.run_redirect_absent h]
      exact .kept e
  | some l =>
      cases hexp : l.link.isExpired now with
      | true =>
          rw [Api.run_redirect_expired h hexp]
          exact .kept e
      | false =>
          rw [Api.run_redirect_live h hexp]
          exact .followed e code l _ h (LawfulLinkRepository.recordHit_found h).2

theorem effect_deleteLink :
    Effect s (.http (⟨now, requestId, .deleteLink code⟩ : Api.Arrival config))
      ((Api.deleteLink code).run s).2 := by
  cases h : find s.repo code with
  | none =>
      rw [Api.run_deleteLink_absent h]
      exact .kept _
  | some l =>
      rw [Api.run_deleteLink_found h]
      exact .deleted now requestId code _ (LawfulLinkRepository.remove_found h).2

theorem effect_http (a : Api.Arrival config) : Effect s (.http a) (Api.step crates s a) := by
  obtain ⟨now, requestId, req⟩ := a
  rw [Api.step, Api.serve]
  cases req with
  | createLink draw req => exact effect_createLink draw req
  | updateLink code req => exact effect_updateLink req
  | getLink code => exact effect_getLink _
  | listLinks limit cursor =>
      rw [Api.handle, Api.run_listLinks_state]
      exact .kept _
  | redirect code => exact effect_redirect _
  | deleteLink code => exact effect_deleteLink
  | getLinkStats code =>
      rw [Api.handle, Api.run_getLinkStats_state]
      exact .kept _
  | getTopStats limit =>
      rw [Api.handle, Api.run_getTopStats_state]
      exact .kept _

end Http

/-! ## gRPC calls -/

theorem run_grpcGetLink_state (req : Grpc.GetLinkRequest) : ((Grpc.getLink req).run s).2 = s := by
  rw [Grpc.getLink, Handler.run_ask_bind, AppState.exec_stats]
  cases find s.repo req.code <;> simp

theorem run_grpcListLinks_state (now : SystemTime) (req : Grpc.ListLinksRequest) :
    ((Grpc.listLinks now req).run s).2 = s := by
  rw [Grpc.run_listLinks, LawfulLinkRepository.list_unchanged]

/-- The link a gRPC create inserts. -/
def grpcLink (now : SystemTime) (generated : Grpc.ShortUuid) (req : Grpc.CreateLinkRequest) :
    ShortLink := .new now ((Grpc.customCode req).getD generated.code) req.targetUrl

/-- A gRPC create stores its link where it is admitted and the code is free. -/
theorem run_grpcCreateLink_free {now : SystemTime} {generated : Grpc.ShortUuid}
    {req : Grpc.CreateLinkRequest} (hurl : req.targetUrl ≠ "")
    (hr : LawfulLinkRepository.refusal R (grpcLink now generated req) = none)
    (hfree : find s.repo (grpcLink now generated req).code = none) :
    (Grpc.createLink now generated req).run s =
      (.ok (.ofLinkStats (storedLink s.repo now (grpcLink now generated req))),
        { s with repo := inserted s.repo now (grpcLink now generated req) }) := by
  have hstored : find (inserted s.repo now (grpcLink now generated req))
      (grpcLink now generated req).code =
        some (storedLink s.repo now (grpcLink now generated req)) :=
    find_inserted_self now hr hfree
  have hinsert := AppState.exec_insert_free now hr hfree
  unfold grpcLink at hinsert hstored ⊢
  unfold Grpc.createLink
  rw [if_neg hurl, Handler.run_ask_bind, hinsert, Handler.run_ofExcept_ok_bind,
    Handler.run_ask_bind, AppState.exec_stats_of_find hstored]
  rfl

/-- Otherwise it fails and changes nothing. -/
theorem run_grpcCreateLink_error {now : SystemTime} {generated : Grpc.ShortUuid}
    {req : Grpc.CreateLinkRequest}
    (h : ¬ (req.targetUrl ≠ "" ∧ LawfulLinkRepository.refusal R (grpcLink now generated req) = none ∧
      find s.repo (grpcLink now generated req).code = none)) :
    ∃ failure, (Grpc.createLink now generated req).run s = (.error failure, s) := by
  unfold grpcLink at h
  unfold Grpc.createLink
  by_cases hurl : req.targetUrl = ""
  · rw [if_pos hurl]
    exact ⟨_, rfl⟩
  · rw [if_neg hurl, Handler.run_ask_bind]
    generalize (Grpc.customCode req).getD generated.code = code at h ⊢
    cases hr : LawfulLinkRepository.refusal R (.new now code req.targetUrl) with
    | some e =>
        rw [AppState.exec_insert_refused now hr]
        exact ⟨_, rfl⟩
    | none =>
        cases hfind : find s.repo code with
        | some l =>
            rw [AppState.exec_insert_taken now hr hfind]
            exact ⟨_, rfl⟩
        | none => exact absurd ⟨hurl, hr, hfind⟩ h

/-- A gRPC create fails and changes nothing, or inserts under a free code. -/
theorem run_grpcCreateLink_cases (now : SystemTime) (generated : Grpc.ShortUuid)
    (req : Grpc.CreateLinkRequest) (s : AppState R) :
    (req.targetUrl ≠ "" ∧ LawfulLinkRepository.refusal R (grpcLink now generated req) = none ∧
      find s.repo (grpcLink now generated req).code = none ∧
      (Grpc.createLink now generated req).run s =
        (.ok (.ofLinkStats (storedLink s.repo now (grpcLink now generated req))),
          { s with repo := inserted s.repo now (grpcLink now generated req) })) ∨
    ∃ failure, (Grpc.createLink now generated req).run s = (.error failure, s) := by
  by_cases h : req.targetUrl ≠ "" ∧
      LawfulLinkRepository.refusal R (grpcLink now generated req) = none ∧
      find s.repo (grpcLink now generated req).code = none
  · obtain ⟨hurl, hr, hfree⟩ := h
    exact Or.inl ⟨hurl, hr, hfree, run_grpcCreateLink_free hurl hr hfree⟩
  · exact Or.inr (run_grpcCreateLink_error h)

theorem effect_grpcCreateLink (now : SystemTime) (generated : Grpc.ShortUuid)
    (req : Grpc.CreateLinkRequest) (e : Event config) :
    Effect s e ((Grpc.createLink now generated req).run s).2 := by
  rcases run_grpcCreateLink_cases now generated req s with
    ⟨_, hr, hfree, hrun⟩ | ⟨failure, hrun⟩
  · rw [hrun]
    exact .created e _ _ _ hfree (find_inserted now hr hfree)
  · rw [hrun]
    exact .kept e

/-- **Inversion**: an event does one of the things `Effect` lists. -/
theorem effect_step (s : AppState R) (e : Event config) : Effect s e (step crates s e) := by
  cases e with
  | http a => exact effect_http a
  | grpcGetLink req =>
      rw [step, run_grpcGetLink_state]
      exact .kept _
  | grpcCreateLink now generated req => exact effect_grpcCreateLink now generated req _
  | grpcListLinks now req =>
      rw [step, run_grpcListLinks_state]
      exact .kept _
  | purgeExpired now => exact .purged now _ (LawfulLinkRepository.find_purgeExpired now s.repo)
  | expire key => exact .expired key

end Service

end Shorty
