import Shorty.Auth.Acceptance
import Shorty.Router
import Shorty.Service.Transparency

/-!
# Shorty.Router.Following

Whether a link that was created can be followed.  The code of a new link is
checked for its characters and its length, and a path of one segment reaches the
redirect unless the router has a page of its own there.  So a link can be
followed exactly when its code is none of those pages, and not empty.
-/

namespace Shorty

namespace Router

open Routing
open LawfulLinkRepository (find)
open Service (Event Effect step effect_step)

variable {config : Config} {crates : Crates} {R : Type} [LinkRepository R] [LawfulLinkRepository R]
  {s : AppState R}

/-! ## the texts of a new link -/

/-- The text of a URL is a header value. -/
theorem isHeaderValue_asStr (url : Url) : isHeaderValue url.asStr = true := by
  rw [isHeaderValue, List.all_eq_true]
  intro c hc
  obtain ⟨hlow, hhigh⟩ := url.visible c hc
  have hle : 0x20 ≤ c.toNat := by omega
  have hne : c.toNat ≠ 0x7f := by omega
  simp [hle, hne]

/-- The path of a code has the code as its one segment. -/
theorem pathSegments_code {code : String} (h : ∀ c ∈ code.toList, isCodeChar c = true) :
    pathSegments ("/" ++ code) = [code] := by
  have hslash : '/' ∉ code.toList := fun hmem => absurd (h '/' hmem) (by decide)
  have hlist : ("/" ++ code).toList = [] ++ '/' :: code.toList := by
    rw [String.toList_append]
    rfl
  rw [pathSegments, hlist, List.splitOn_append_cons_self, List.splitOn_nil,
    List.splitOn_eq_singleton hslash]
  simp

theorem percentDecode_code {code : String} (h : ∀ c ∈ code.toList, isCodeChar c = true) :
    percentDecode code = some code := by
  have hpercent : '%' ∉ code.toList := fun hmem => absurd (h '%' hmem) (by decide)
  rw [percentDecode, if_neg hpercent]

/-- What a create request that is answered 201 has done: it stored the link it
shows, whose texts make a path and a header. -/
theorem created_of_serve {now : SystemTime} {requestId : Option String}
    {draw : Nat → Nanoid config.codeLength} {creq : CreateLinkRequest}
    {headers : List (String × String)} {shown : LinkResponse}
    (h : (Api.serve crates now requestId (.createLink draw creq) s).1 =
      some ⟨201, headers, .link shown⟩) :
    ∃ l, find (Api.serve crates now requestId (.createLink draw creq) s).2.repo shown.code = some l ∧
      shown = .ofLinkStats l ∧ isHeaderValue l.link.targetUrl = true ∧
      ∀ c ∈ shown.code.toList, isCodeChar c = true := by
  rw [Api.serve, Api.handle] at h ⊢
  rcases Api.run_createLink_cases crates now draw creq s
    with ⟨url, expiresAt, code, hv, hmem, hr, hfree, hrun⟩ | ⟨failure, hrun⟩
  · rw [hrun] at h ⊢
    have hstored : (storedLink s.repo now (Api.newLink now url.asStr expiresAt code)).link.code = code :=
      LawfulLinkRepository.code_recorded (R := R) now (Api.newLink now url.asStr expiresAt code)
    have htarget : (storedLink s.repo now (Api.newLink now url.asStr expiresAt code)).link.targetUrl =
        url.asStr :=
      LawfulLinkRepository.targetUrl_recorded (R := R) now (Api.newLink now url.asStr expiresAt code)
    have hshown : shown =
        .ofLinkStats (storedLink s.repo now (Api.newLink now url.asStr expiresAt code)) := by
      simp only [Api.answer, Response.created] at h
      split at h
      · cases h
        rfl
      · cases h
    have hcode : shown.code = code := by
      rw [hshown]
      exact hstored
    refine ⟨_, ?_, hshown, ?_, ?_⟩
    · rw [hcode]
      exact find_inserted_self now hr hfree
    · rw [htarget]
      exact isHeaderValue_asStr url
    · rw [hcode]
      exact Api.isCodeChar_of_candidate hv hmem
  · rw [hrun] at h
    cases failure <;> simp [Api.answer, Response.ofError] at h

/-! ## the link in the meantime -/

/-- Nothing updates, deletes or purges the link under a code. -/
def Spares (code : String) (s : AppState R) : Event config → Prop
  | .http ⟨_, _, .updateLink code' _⟩ => code' ≠ code
  | .http ⟨_, _, .deleteLink code'⟩ => code' ≠ code
  | .purgeExpired now => ∀ l, find s.repo code = some l → l.link.isExpired now = false
  | _ => True

/-- A link is stored, followed however often. -/
def Stored (code : String) (link : ShortLink) (s : AppState R) : Prop :=
  ∃ hits, find s.repo code = some ⟨link, hits⟩

/-- An event that spares a link keeps it stored. -/
theorem stored_step {code : String} {link : ShortLink} (s : AppState R) (e : Event config)
    (h : Stored code link s) (hc : Spares code s e) : Stored code link (step crates s e) := by
  have heffect : Effect s e (step crates s e) := effect_step s e
  generalize step crates s e = s' at heffect
  obtain ⟨hits, h⟩ := h
  cases heffect with
  | kept => exact ⟨hits, h⟩
  | looked _ code' => exact ⟨hits, h⟩
  | filled _ code' l hl => exact ⟨hits, h⟩
  | created _ code' l r hfree hfind =>
      have hne : code ≠ code' := by
        rintro rfl
        rw [hfree] at h
        cases h
      exact ⟨hits, by rw [hfind, Store.put_of_ne hne, h]⟩
  | followed _ code' l r hl hfind =>
      by_cases heq : code = code'
      · rw [← heq, h] at hl
        cases hl
        exact ⟨hits + 1, by rw [hfind, ← heq, Store.put_self]⟩
      · exact ⟨hits, by rw [hfind, Store.put_of_ne heq, h]⟩
  | updated now requestId code' req l r hfind =>
      exact ⟨hits, by rw [hfind, Store.put_of_ne (Ne.symm hc), h]⟩
  | deleted now requestId code' r hfind =>
      exact ⟨hits, by rw [hfind, Store.drop_of_ne (Ne.symm hc), h]⟩
  | purged now r hfind =>
      have hlive := hc _ h
      exact ⟨hits, by rw [hfind, Store.purge, h]; simp [Option.filter, hlive]⟩
  | expired key => exact ⟨hits, h⟩

/-! ## the path of a code -/

/-- The paths of one segment that are pages of the service. -/
theorem literals_buildRouter : buildRouter.literals =
    ["healthz", "readyz", "version", "swagger-ui", "slow", "slow-blocking", "metrics"] := by decide

section Get

variable {env : AuthEnv} {auth : Option AuthConfig} {site : Site} {req : Incoming config}
  {code : String}

omit [LawfulLinkRepository R] in
/-- A `GET` of an open path is its handler. -/
theorem run_dispatch_get (hmethod : req.method = .get) {e : Endpoint} {captures : List String}
    (h : buildRouter.lookup (pathSegments req.path) = some (⟨false, [(.get, e)]⟩, captures))
    (s : AppState R) : (dispatch crates env auth site req).run s =
      (endpoint crates env auth site req captures e).run s := by
  have hfind : MethodRouter.find ⟨false, [(.get, e)]⟩ req.method = some e := by
    rw [hmethod]
    rfl
  have hhead : req.method ≠ .head := by
    rw [hmethod]
    decide
  have hdispatch : dispatch crates env auth site req =
      methodRouter crates env auth site req ⟨false, [(.get, e)]⟩ captures := by
    simp only [dispatch, h]
    exact if_neg Bool.false_ne_true
  rw [hdispatch, methodRouter, hfind]
  simp only [if_neg hhead, Handler.run_bind]
  cases (endpoint crates env auth site req captures e).run s with
  | mk out s' => cases out <;> rfl

omit [LawfulLinkRepository R] in
/-- A page of the service answers under its own path, and not with a redirect of
a link. -/
theorem respond_reserved (hswagger : ∀ path, (site.swaggerUi path).status ≠ 307)
    (hmethod : req.method = .get) (hsegments : pathSegments req.path = [code])
    (hmem : code ∈ buildRouter.literals) (s : AppState R) :
    ∃ response, (respond crates env auth site req s).1 = some response ∧ response.status ≠ 307 := by
  have hpage : ∃ e response, buildRouter.lookup [code] = some (⟨false, [(.get, e)]⟩, []) ∧
      endpoint crates env auth site req [] e = pure response ∧ response.status ≠ 307 := by
    rw [literals_buildRouter] at hmem
    simp only [List.mem_cons, List.not_mem_nil, or_false] at hmem
    rcases hmem with rfl | rfl | rfl | rfl | rfl | rfl | rfl
    · exact ⟨.healthz, _, Table.lookup_lit rfl, rfl, by decide⟩
    · refine ⟨.readyz, _, Table.lookup_lit rfl, rfl, ?_⟩
      rw [readyz]
      split
      · decide
      · split <;> decide
    · exact ⟨.version, _, Table.lookup_lit rfl, rfl, by decide⟩
    · exact ⟨.swaggerUi, _, Table.lookup_lit rfl, rfl, hswagger req.path⟩
    · exact ⟨.slow, _, Table.lookup_lit rfl, rfl, by decide⟩
    · exact ⟨.slowBlocking, _, Table.lookup_lit rfl, rfl, by decide⟩
    · exact ⟨.metrics, _, Table.lookup_lit rfl, rfl, by simp [metrics]⟩
  obtain ⟨e, response, hlookup, hendpoint, hstatus⟩ := hpage
  rw [← hsegments] at hlookup
  refine ⟨response, ?_, hstatus⟩
  rw [respond, run_dispatch_get hmethod hlookup, hendpoint]
  rfl

omit [LawfulLinkRepository R] in
/-- The root of the service is nowhere. -/
theorem respond_root (hsegments : pathSegments req.path = [""]) (s : AppState R) :
    (respond crates env auth site req s).1 = some (.ofError req.requestId .notFound) := by
  have hlookup : buildRouter.lookup (pathSegments req.path) = none := by
    rw [hsegments]
    exact Table.lookup_empty (by rw [literals_buildRouter]; decide)
  simp only [respond, dispatch, hlookup]
  rfl

/-- A path of one segment that is no page follows the link of that code. -/
theorem respond_code (hmethod : req.method = .get) (hpath : req.path = "/" ++ code)
    (hchars : ∀ c ∈ code.toList, isCodeChar c = true) (hne : code ≠ "")
    (hfree : code ∉ buildRouter.literals) {l : LinkStats} (h : find s.repo code = some l)
    (hexp : l.link.isExpired req.now = false) :
    (respond crates env auth site req s).1 = some (.temporaryRedirect l.link.targetUrl) := by
  have hlookup : buildRouter.lookup (pathSegments req.path) =
      some (⟨false, [(.get, .redirect)]⟩, [code]) := by
    rw [hpath, pathSegments_code hchars]
    exact Table.lookup_param rfl hne hfree
  have hendpoint : endpoint crates env auth site req [code] .redirect = Api.redirect req.now code := by
    simp only [endpoint, withCode, percentDecode_code hchars]
  rw [respond, run_dispatch_get hmethod hlookup, hendpoint, Api.run_redirect_live h hexp]
  rfl

end Get

/-- **Created links and pages**: a link whose creation was answered 201, and that
nothing updates, deletes or purges afterwards, is followed by a `GET` of its code
before it expires exactly when its code is not empty and not a page of the
service. -/
theorem followed_iff (env : AuthEnv) (auth : Option AuthConfig) (site : Site)
    (hswagger : ∀ path, (site.swaggerUi path).status ≠ 307) {now : SystemTime}
    {requestId : Option String} {draw : Nat → Nanoid config.codeLength} {creq : CreateLinkRequest}
    {headers : List (String × String)} {shown : LinkResponse}
    (hcreated : (Api.serve crates now requestId (.createLink draw creq) s).1 =
      some ⟨201, headers, .link shown⟩) {l : LinkStats}
    (hstored : find (Api.serve crates now requestId (.createLink draw creq) s).2.repo shown.code =
      some l) {events : List (Event config)}
    (hspared : Run.Along (step crates) (Spares shown.code)
      (Api.serve crates now requestId (.createLink draw creq) s).2 events)
    {req : Incoming config} (hmethod : req.method = .get) (hpath : req.path = "/" ++ shown.code)
    (hlive : l.link.isExpired req.now = false) :
    (respond crates env auth site req (Run.reach (step crates)
        (Api.serve crates now requestId (.createLink draw creq) s).2 events)).1 =
      some ⟨307, [("location", l.link.targetUrl)], .empty⟩ ↔
    shown.code ≠ "" ∧ shown.code ∉ buildRouter.literals := by
  obtain ⟨l', hstored', _, htarget, hchars⟩ := created_of_serve hcreated
  rw [hstored] at hstored'
  cases hstored'
  obtain ⟨hits, hfind⟩ := Run.reach_of_step (P := Stored shown.code l.link) stored_step
    ⟨l.hits, hstored⟩ hspared
  have hsegments : pathSegments req.path = [shown.code] := by rw [hpath, pathSegments_code hchars]
  constructor
  · intro hfollowed
    constructor
    · intro hempty
      rw [hempty] at hsegments
      rw [respond_root hsegments] at hfollowed
      simp [Response.ofError, AppError.status] at hfollowed
    · intro hmem
      obtain ⟨response, hresponse, hstatus⟩ := respond_reserved hswagger hmethod hsegments hmem
        (Run.reach (step crates) (Api.serve crates now requestId (.createLink draw creq) s).2 events)
      rw [hresponse] at hfollowed
      cases hfollowed
      exact hstatus rfl
  · rintro ⟨hne, hfree⟩
    rw [respond_code hmethod hpath hchars hne hfree hfind hlive, Response.temporaryRedirect,
      if_pos htarget]

/-- The pages of a service without a database. -/
def plainSite : Site where
  cancelled := false
  database := none
  metrics := ""
  swaggerUi _ := ⟨303, [("location", "/swagger-ui/")], .empty⟩
  openapi := .ok .empty

/-- A `GET` of a path. -/
def visit (now : SystemTime) (path : String) : Incoming Service.smallConfig where
  now := now
  requestId := none
  method := .get
  path := path
  params := []
  authorization := none
  createBody := .error (415, "")
  updateBody := .error (415, "")
  loginBody := .error (415, "")
  topQuery := .ok 10
  draw _ := Api.letterA

/-- A new service where a link with a minute to live is created under a code. -/
def createNamed (code : String) : Option Response × AppState InMemoryRepo :=
  Api.serve Api.oneUrl .UNIX_EPOCH none (.createLink (visit .UNIX_EPOCH "/").draw
    ⟨"https://example.com/", some code, some 60⟩) (Service.startDisabled .new .new)

/-- The link that is created under a code. -/
def namedLink (code : String) : LinkStats :=
  ⟨(ShortLink.new .UNIX_EPOCH code "https://example.com/").withExpiresAt (.ofSecs 60), 0⟩

/-- A redirect, and an update of another link. -/
def meanwhile : List (Event Service.smallConfig) := [
  .http ⟨.ofSecs 1, none, .redirect "promo2026"⟩,
  .http ⟨.ofSecs 2, none, .updateLink "other" ⟨"https://example.com/", 1⟩⟩]

/-- A code that is no page is followed, also after it was followed and another
link was updated. -/
theorem followed_promo : (respond Api.oneUrl Auth.strokesEnv none plainSite
    (visit (.ofSecs 59) "/promo2026")
    (Run.reach (step Api.oneUrl) (createNamed "promo2026").2 meanwhile)).1 =
    some ⟨307, [("location", "https://example.com/")], .empty⟩ := by
  have hcreated : (createNamed "promo2026").1 =
      some ⟨201, [("location", "/api/v1/links/promo2026")],
        .link (.ofLinkStats (namedLink "promo2026"))⟩ := by decide
  have hstored : find (createNamed "promo2026").2.repo "promo2026" =
      some (namedLink "promo2026") := by decide
  have hspared : Run.Along (step Api.oneUrl) (Spares "promo2026") (createNamed "promo2026").2
      meanwhile := by
    refine ⟨trivial, ?_, trivial⟩
    have hother : "other" ≠ "promo2026" := by decide
    exact hother
  have hswagger : ∀ path, (plainSite.swaggerUi path).status ≠ 307 := by
    intro path
    have hstatus : (303 : Nat) ≠ 307 := by decide
    exact hstatus
  exact (followed_iff Auth.strokesEnv none plainSite hswagger hcreated hstored hspared rfl rfl
    (by decide)).mpr (by decide)

/-- A link under the code of a page is created and cannot be followed. -/
theorem not_followed_version :
    (createNamed "version").1 = some ⟨201, [("location", "/api/v1/links/version")],
      .link (.ofLinkStats (namedLink "version"))⟩ ∧
    find (createNamed "version").2.repo "version" = some (namedLink "version") ∧
    (namedLink "version").link.isExpired (.ofSecs 1) = false ∧
    (respond Api.oneUrl Auth.strokesEnv none plainSite (visit (.ofSecs 1) "/version")
      (createNamed "version").2).1 = some (.ok (.version "0.1.0")) := by
  decide

end Router

end Shorty
