import Shorty.Service.Transports

/-!
# Shorty.Service.Validity

Whether everything that is stored has passed its checks.  HTTP checks the URL and
the chosen code of a link before it is stored, and the URL again when it is
updated; gRPC stores what it is sent.  A `Census` is the service with a mark on
the codes that a client has chosen.
-/

namespace Shorty

/-- The serialization of a web URL parses to the same URL. -/
def UrlCrate.Reparses (crate : UrlCrate) : Prop :=
  ∀ raw url, crate.parse raw = .ok url → url.scheme = "http" ∨ url.scheme = "https" →
    crate.parse url.asStr = .ok url

theorem parseTargetUrl_asStr {crate : UrlCrate} (hcrate : crate.Reparses) {raw : String} {url : Url}
    (h : parseTargetUrl crate raw = .ok url) : parseTargetUrl crate url.asStr = .ok url := by
  unfold parseTargetUrl at h ⊢
  cases hparse : crate.parse raw with
  | error e => simp [hparse] at h
  | ok url' =>
      simp only [hparse] at h
      split at h
      · rename_i hscheme
        obtain rfl := Except.ok.inj h
        simp [hcrate raw _ hparse hscheme, hscheme]
      · cases h

namespace Service

open LawfulLinkRepository (find refusal)

variable {config : Config} {crates : Crates} {R : Type} [LinkRepository R] [LawfulLinkRepository R]

/-- The service, and which of the codes in use a client has chosen. -/
structure Census (R : Type) where
  app : AppState R
  chosen : String → Bool

/-- The code a client asks for. -/
def requestedCode : Event config → Option String
  | .http a =>
      match a.req with
      | .createLink _ req => req.customCode
      | _ => none
  | .grpcCreateLink _ _ req => Grpc.customCode req
  | _ => none

/-- An event; a code that comes into use is marked if it was asked for. -/
def Census.step (crates : Crates) (w : Census R) (e : Event config) : Census R where
  app := Service.step crates w.app e
  chosen := fun code =>
    if (find w.app.repo code).isNone && (find (Service.step crates w.app e).repo code).isSome then
      decide (requestedCode e = some code)
    else w.chosen code

/-- A URL as the `Location` of a redirect: a target that `parse_target_url` accepts
and a header can hold. -/
def IsLocation (crates : Crates) (url : String) : Prop :=
  (∃ parsed, parseTargetUrl crates.url url = .ok parsed) ∧ isHeaderValue url = true

/-- Everything that is stored has passed its checks. -/
structure Valid (crates : Crates) (w : Census R) : Prop where
  target : ∀ code l, find w.app.repo code = some l →
    ∃ url, parseTargetUrl crates.url l.link.targetUrl = .ok url
  code : ∀ code l, find w.app.repo code = some l → w.chosen code = true →
    validateCustomCode code = .ok ()
  /-- A redirect of a link that is not expired has an http or https location. -/
  redirect : ∀ code l now, find w.app.repo code = some l → l.link.isExpired now = false →
    ∃ location url, ((Api.redirect now code).run w.app).1 =
        .ok ⟨307, [("location", location)], .empty⟩ ∧
      parseTargetUrl crates.url location = .ok url

/-- A create over gRPC is of a URL and a code that HTTP would accept, or stores
nothing. -/
def GrpcChecked (crates : Crates) (w : Census R) : Event config → Prop
  | .grpcCreateLink now generated req =>
      req.targetUrl ≠ "" → refusal R (grpcLink now generated req) = none →
        find w.app.repo (grpcLink now generated req).code = none →
        IsLocation crates req.targetUrl ∧
          ∀ custom, Grpc.customCode req = some custom → validateCustomCode custom = .ok ()
  | _ => True

/-! ## what an event writes -/

/-- Where the target of a stored link comes from. -/
inductive Origin (crates : Crates) (s : AppState R) (e : Event config) (code target : String) : Prop where
  /-- It was there. -/
  | kept (l : LinkStats) (h : find s.repo code = some l) (htarget : target = l.link.targetUrl)
  /-- A request over HTTP, whose code is checked if it is new. -/
  | http (raw : String) (url : Url) (hurl : parseTargetUrl crates.url raw = .ok url)
      (htarget : target = url.asStr)
      (hcode : find s.repo code = none → requestedCode e = some code →
        validateCustomCode code = .ok ())
  /-- A create over gRPC. -/
  | grpc (now : SystemTime) (generated : Grpc.ShortUuid) (req : Grpc.CreateLinkRequest)
      (he : e = .grpcCreateLink now generated req) (hcode : code = (grpcLink now generated req).code)
      (htarget : target = req.targetUrl) (hne : req.targetUrl ≠ "")
      (hr : refusal R (grpcLink now generated req) = none) (hfree : find s.repo code = none)

variable {s s' : AppState R} {e : Event config} {code : String} {l : LinkStats}

theorem origin_of_same (h : s'.repo = s.repo) (hl : find s'.repo code = some l) :
    Origin crates s e code l.link.targetUrl :=
  .kept l (h ▸ hl) rfl

/-- A change under one code leaves the origin of every other. -/
theorem origin_of_put {r : R} {code' : String} {l' : LinkStats} (hput : find r = (find s.repo).put code' l')
    (horigin : Origin crates s e code' l'.link.targetUrl) (hl : find r code = some l) :
    Origin crates s e code l.link.targetUrl := by
  rw [hput] at hl
  by_cases hc : code = code'
  · subst hc
    rw [Store.put_self] at hl
    cases hl
    exact horigin
  · rw [Store.put_of_ne hc] at hl
    exact .kept l hl rfl

theorem origin_createLink {a : Api.Arrival config} {draw : Nat → Nanoid config.codeLength}
    {req : CreateLinkRequest} (ha : a.req = .createLink draw req)
    (hl : find ((Api.createLink config crates a.now draw req).run s).2.repo code = some l) :
    Origin crates s (.http a) code l.link.targetUrl := by
  rcases Api.run_createLink_cases crates a.now draw req s
    with ⟨url, expiresAt, code', hv, hmem, hr, hfree, hrun⟩ | ⟨failure, hrun⟩
  · rw [hrun] at hl
    refine origin_of_put (find_inserted a.now hr hfree) ?_ hl
    obtain ⟨raw, custom, ttl⟩ := req
    have hurl : parseTargetUrl crates.url raw = .ok url := Api.parseTargetUrl_of_validateCreate hv
    refine .http raw url hurl (LawfulLinkRepository.targetUrl_recorded a.now _) ?_
    intro _ hrequested
    rw [requestedCode, ha] at hrequested
    exact Api.validateCustomCode_of_validateCreate hv hrequested
  · rw [hrun] at hl
    exact origin_of_same rfl hl

theorem origin_updateLink {a : Api.Arrival config} {code' : String} {req : UpdateLinkRequest}
    (hl : find ((Api.updateLink crates a.now code' req).run s).2.repo code = some l) :
    Origin crates s (.http a) code l.link.targetUrl := by
  cases hurl : parseTargetUrl crates.url req.targetUrl with
  | error e =>
      rw [Api.run_updateLink_invalid hurl] at hl
      exact origin_of_same rfl hl
  | ok url =>
      rcases AppState.exec_update_cases a.now code' url.asStr req.version s with
        ⟨e, hup⟩ | ⟨l', hl', hok, hput⟩
      · have hstate : (AppState.exec (.update a.now code' url.asStr req.version) s).2.repo = s.repo := by
          rw [hup]
        have hresult : (AppState.exec (.update a.now code' url.asStr req.version) s).1 = .error e := by
          rw [hup]
        rw [Api.run_updateLink_error hurl (Prod.ext hresult rfl)] at hl
        exact origin_of_same hstate hl
      · rw [Api.run_updateLink_ok hurl (Prod.ext hok rfl)] at hl
        refine origin_of_put hput ?_ hl
        refine .http req.targetUrl url hurl rfl ?_
        intro hfree
        rw [hl'] at hfree
        cases hfree

theorem origin_redirect {now : SystemTime} {code' : String}
    (hl : find ((Api.redirect now code').run s).2.repo code = some l) :
    Origin crates s e code l.link.targetUrl := by
  cases h : find s.repo code' with
  | none =>
      rw [Api.run_redirect_absent h] at hl
      exact origin_of_same rfl hl
  | some l' =>
      cases hexp : l'.link.isExpired now with
      | true =>
          rw [Api.run_redirect_expired h hexp] at hl
          exact origin_of_same rfl hl
      | false =>
          rw [Api.run_redirect_live h hexp] at hl
          exact origin_of_put (LawfulLinkRepository.recordHit_found h).2 (.kept l' h rfl) hl

theorem origin_deleteLink {code' : String}
    (hl : find ((Api.deleteLink code').run s).2.repo code = some l) :
    Origin crates s e code l.link.targetUrl := by
  cases h : find s.repo code' with
  | none =>
      rw [Api.run_deleteLink_absent h] at hl
      exact origin_of_same rfl hl
  | some l' =>
      rw [Api.run_deleteLink_found h] at hl
      simp only [(LawfulLinkRepository.remove_found h).2] at hl
      by_cases hc : code = code'
      · simp [hc] at hl
      · rw [Store.drop_of_ne hc] at hl
        exact .kept l hl rfl

theorem run_getLink_repo (code : String) (s : AppState R) :
    ((Api.getLink code).run s).2.repo = s.repo := by
  cases hget : (s.cache.get (linkKey code)).1 with
  | some cached =>
      rw [Api.run_getLink_hit hget]
      rfl
  | none =>
      cases h : find s.repo code with
      | none =>
          rw [Api.run_getLink_absent hget h]
          rfl
      | some l => rw [Api.run_getLink_miss hget h]

theorem origin_http {a : Api.Arrival config}
    (hl : find (Api.step crates s a).repo code = some l) :
    Origin crates s (.http a) code l.link.targetUrl := by
  unfold Api.step Api.serve Api.handle at hl
  cases hreq : a.req with
  | createLink draw req =>
      simp only [hreq] at hl
      exact origin_createLink hreq hl
  | updateLink code' req =>
      simp only [hreq] at hl
      exact origin_updateLink hl
  | getLink code' =>
      simp only [hreq, run_getLink_repo] at hl
      exact origin_of_same rfl hl
  | listLinks limit cursor =>
      simp only [hreq, Api.run_listLinks_state] at hl
      exact origin_of_same rfl hl
  | redirect code' =>
      simp only [hreq] at hl
      exact origin_redirect hl
  | deleteLink code' =>
      simp only [hreq] at hl
      exact origin_deleteLink hl
  | getLinkStats code' =>
      simp only [hreq, Api.run_getLinkStats_state] at hl
      exact origin_of_same rfl hl
  | getTopStats limit =>
      simp only [hreq, Api.run_getTopStats_state] at hl
      exact origin_of_same rfl hl

theorem origin_grpcCreateLink {now : SystemTime} {generated : Grpc.ShortUuid}
    {req : Grpc.CreateLinkRequest}
    (hl : find ((Grpc.createLink now generated req).run s).2.repo code = some l) :
    Origin crates s (.grpcCreateLink now generated req : Event config) code l.link.targetUrl := by
  rcases run_grpcCreateLink_cases now generated req s with
    ⟨hne, hr, hfree, hrun⟩ | ⟨failure, hrun⟩
  · rw [hrun] at hl
    refine origin_of_put (find_inserted now hr hfree) ?_ hl
    exact .grpc now generated req rfl rfl (LawfulLinkRepository.targetUrl_recorded now _) hne hr hfree
  · rw [hrun] at hl
    exact origin_of_same rfl hl

theorem origin_tick {now : SystemTime} (hl : find (tick now s).repo code = some l) :
    Origin crates s e code l.link.targetUrl := by
  unfold tick at hl
  rw [LawfulLinkRepository.find_purgeExpired] at hl
  have hfind : find s.repo code = some l := by
    unfold Store.purge at hl
    exact (Option.filter_eq_some_iff.mp hl).1
  exact .kept l hfind rfl

/-- **Provenance**: the target of a link that is stored after an event was there
before, or was checked over HTTP, or came over gRPC. -/
theorem origin_step (hl : find (step crates s e).repo code = some l) :
    Origin crates s e code l.link.targetUrl := by
  unfold step at hl
  cases e with
  | http a => exact origin_http hl
  | grpcGetLink req =>
      simp only [run_grpcGetLink_state] at hl
      exact origin_of_same rfl hl
  | grpcCreateLink now generated req => exact origin_grpcCreateLink hl
  | grpcListLinks now req =>
      simp only [run_grpcListLinks_state] at hl
      exact origin_of_same rfl hl
  | purgeExpired now => exact origin_tick hl
  | expire key => exact origin_of_same rfl hl

/-! ## runs -/

/-- What the store keeps when every create is checked. -/
structure Checked (crates : Crates) (w : Census R) : Prop where
  target : ∀ code l, find w.app.repo code = some l → IsLocation crates l.link.targetUrl
  code : ∀ code l, find w.app.repo code = some l → w.chosen code = true →
    validateCustomCode code = .ok ()

/-- A URL that has been parsed can be a location. -/
theorem isLocation_asStr (hcrate : crates.url.Reparses) {raw : String} {url : Url}
    (h : parseTargetUrl crates.url raw = .ok url) : IsLocation crates url.asStr := by
  refine ⟨⟨url, parseTargetUrl_asStr hcrate h⟩, ?_⟩
  unfold isHeaderValue
  rw [List.all_eq_true]
  intro c hc
  have hvisible := url.visible c hc
  have hrange : 0x20 ≤ c.toNat ∧ c.toNat ≠ 0x7f := by omega
  simp [hrange]

theorem Checked.valid {w : Census R} (h : Checked crates w) : Valid crates w where
  target code l hl := (h.target code l hl).1
  code := h.code
  redirect := by
    intro code l now hl hexp
    obtain ⟨⟨url, hurl⟩, hvalue⟩ := h.target code l hl
    refine ⟨l.link.targetUrl, url, ?_, hurl⟩
    rw [Api.run_redirect_live hl hexp]
    simp [Response.temporaryRedirect, hvalue]

/-- The mark of a stored code after an event. -/
theorem chosen_step {w : Census R} (hl : find (step crates w.app e).repo code = some l) :
    (w.step crates e).chosen code =
      if find w.app.repo code = none then decide (requestedCode e = some code) else w.chosen code := by
  simp [Census.step, hl]

/-- A checked event keeps the store checked. -/
theorem checked_step (hcrate : crates.url.Reparses) {w : Census R} (h : Checked crates w)
    (he : GrpcChecked crates w e) : Checked crates (w.step crates e) := by
  constructor
  · intro code l hl
    have hl' : find (step crates w.app e).repo code = some l := hl
    cases origin_step hl' with
    | kept l' hkept htarget => exact htarget ▸ h.target code l' hkept
    | http raw url hurl htarget _ => exact htarget ▸ isLocation_asStr hcrate hurl
    | grpc now generated req heq hcode htarget hne hr hfree =>
        subst heq
        subst hcode
        exact htarget ▸ (he hne hr hfree).1
  · intro code l hl hchosen
    have hl' : find (step crates w.app e).repo code = some l := hl
    rw [chosen_step hl'] at hchosen
    cases hfind : find w.app.repo code with
    | some l' =>
        simp only [hfind, reduceCtorEq, if_false] at hchosen
        exact h.code code l' hfind hchosen
    | none =>
        simp only [hfind, if_true, decide_eq_true_eq] at hchosen
        cases origin_step hl' with
        | kept l' hkept _ => simp [hfind] at hkept
        | http raw url hurl _ hcode => exact hcode hfind hchosen
        | grpc now generated req heq hcode _ hne hr hfree =>
            subst heq
            subst hcode
            exact (he hne hr hfree).2 _ hchosen

/-- What a create over gRPC leaves under a free code. -/
theorem find_grpcCreateLink {now : SystemTime} {generated : Grpc.ShortUuid}
    {req : Grpc.CreateLinkRequest} (hne : req.targetUrl ≠ "")
    (hr : refusal R (grpcLink now generated req) = none)
    (hfree : find s.repo (grpcLink now generated req).code = none) :
    find ((Grpc.createLink now generated req).run s).2.repo (grpcLink now generated req).code =
      some (storedLink s.repo now (grpcLink now generated req)) := by
  simp only [run_grpcCreateLink_free hne hr hfree, find_inserted now hr hfree]
  exact Store.put_self

/-- A create over gRPC that leaves a valid store was checked. -/
theorem grpcChecked_of_valid [AdmitsChecked R] {w : Census R}
    (h : Valid crates (w.step crates e)) : GrpcChecked crates w e := by
  cases e with
  | grpcCreateLink now generated req =>
      intro hne hr hfree
      have hl : find (w.step crates (.grpcCreateLink now generated req : Event config)).app.repo
          (grpcLink now generated req).code =
            some (storedLink w.app.repo now (grpcLink now generated req)) :=
        find_grpcCreateLink hne hr hfree
      have htarget : (storedLink w.app.repo now (grpcLink now generated req)).link.targetUrl =
          req.targetUrl := LawfulLinkRepository.targetUrl_recorded now _
      -- such a link never expires, so a redirect follows it
      have hexpires := AdmitsChecked.expiresAt_recorded (R := R) now (grpcLink now generated req)
      have hlive : (storedLink w.app.repo now (grpcLink now generated req)).link.isExpired now = false := by
        unfold ShortLink.isExpired
        have hnone : (storedLink w.app.repo now (grpcLink now generated req)).link.expiresAt = none :=
          Option.not_isSome_iff_eq_none.mp (by simpa [storedLink, grpcLink, ShortLink.new] using hexpires)
        simp [hnone]
      obtain ⟨url, hurl⟩ := h.target _ _ hl
      obtain ⟨location, _, hredirect, _⟩ := h.redirect _ _ now hl hlive
      refine ⟨⟨⟨url, htarget ▸ hurl⟩, ?_⟩, ?_⟩
      · rw [Api.run_redirect_live hl hlive, htarget] at hredirect
        cases hvalue : isHeaderValue req.targetUrl with
        | true => rfl
        | false => simp [Response.temporaryRedirect, hvalue] at hredirect
      · intro custom hcustom
        have hcode : (grpcLink now generated req).code = custom := by
          simp [grpcLink, ShortLink.new, hcustom]
        have hchosen := chosen_step hl
        rw [hcode] at hl hfree hchosen
        refine h.code custom _ hl ?_
        rw [hchosen, if_pos hfree]
        simp [requestedCode, hcustom]
  | _ => trivial

/-- **Store-wide validity**: what is stored has passed its checks throughout a run
from an empty store exactly when every create over gRPC that stores is of a URL and
a code that HTTP would accept. -/
theorem throughout_valid [AdmitsChecked R] (hcrate : crates.url.Reparses) {w : Census R}
    (hw : ∀ code, find w.app.repo code = none) (es : List (Event config)) :
    Run.Throughout (Census.step crates) (Valid crates) w es ↔
      Run.Along (Census.step crates) (GrpcChecked crates) w es := by
  have hchecked : Checked crates w := ⟨by simp [hw], by simp [hw]⟩
  exact Run.throughout_iff_along (fun _ h => h.valid) (fun _ _ h he => checked_step hcrate h he)
    (fun _ _ _ h => grpcChecked_of_valid h) hchecked

/-- A service that holds no link, and no marks. -/
def emptyCensus : Census InMemoryRepo := ⟨emptyState, fun _ => false⟩

/-- The link that is created over HTTP. -/
def promoCreate : Event (Config.mk 1 1) :=
  .http ⟨.UNIX_EPOCH, none, .createLink shortDraw ⟨"https://example.com/", some "promo2026", none⟩⟩

/-- A run that creates a link over HTTP. -/
theorem throughout_valid_http :
    Run.Throughout (Census.step Api.oneUrl) (Valid Api.oneUrl) emptyCensus [promoCreate] ↔
      Run.Along (Census.step Api.oneUrl) (GrpcChecked Api.oneUrl) emptyCensus [promoCreate] := by
  refine throughout_valid ?_ (fun code => rfl) _
  intro raw url hparse _
  simp only [Api.oneUrl] at hparse ⊢
  split at hparse
  · simp only [Except.ok.injEq] at hparse
    simp [← hparse, Api.plainUrl]
  · simp at hparse

/-- A script is stored as a target over gRPC. -/
theorem not_throughout_valid :
    ¬ Run.Throughout (Census.step Api.oneUrl) (Valid Api.oneUrl) emptyCensus
        [(.grpcCreateLink .UNIX_EPOCH shortUuid ⟨"javascript:alert(1)", none, none⟩ :
          Event (Config.mk 1 1))] := by
  intro h
  have hstored : find ((Grpc.createLink .UNIX_EPOCH shortUuid
      ⟨"javascript:alert(1)", none, none⟩).run emptyState).2.repo "0a1b2c3d" =
        some (storedLink InMemoryRepo.new .UNIX_EPOCH
          (.new .UNIX_EPOCH "0a1b2c3d" "javascript:alert(1)")) :=
    find_grpcCreateLink (by simp) rfl rfl
  obtain ⟨url, hurl⟩ := h.last.target _ _ hstored
  have hparse : parseTargetUrl Api.oneUrl.url "javascript:alert(1)" =
      .error (.validation "invalid target_url: relative URL without a base"
        [{ field := "target_url", issue := "invalid url: relative URL without a base" }]) := rfl
  have hurl' : parseTargetUrl Api.oneUrl.url "javascript:alert(1)" = .ok url := hurl
  rw [hparse] at hurl'
  cases hurl'

end Service

end Shorty
