import Shorty.Grpc.Server
import Shorty.Router.Following

/-!
# Shorty.Router.Anonymous

What callers without an accepted token can do, over both transports.  Every handler
that looks at links is behind `auth_middleware`, but for the redirect; every gRPC
method checks its caller first.  So nothing happens to the links but that redirects
count hits.
-/

namespace Shorty

/-- The handlers anyone may reach. -/
def Endpoint.isOpen : Endpoint → Bool
  | .createLink | .listLinks | .getLink | .updateLink | .deleteLink | .getLinkStats
  | .getTopStats => false
  | _ => true

namespace Router

open Routing
open LawfulLinkRepository (find)

/-! ## the table -/

/-- What is not behind the middleware is open. -/
theorem isOpen_of_unguarded : ∀ r ∈ buildRouter, r.2.guarded = false →
    ∀ p ∈ r.2.methods, p.2.isOpen = true := by decide

theorem mem_methods_of_find {r : MethodRouter} {method : Method} {e : Endpoint}
    (h : MethodRouter.find r method = some e) : ∃ m, (m, e) ∈ r.methods := by
  have hlookup : ∀ m, r.methods.lookup m = some e → ∃ m, (m, e) ∈ r.methods := by
    intro m hm
    obtain ⟨front, back, heq, _⟩ := List.lookup_eq_some_iff.mp hm
    exact ⟨m, by rw [heq]; simp⟩
  rw [MethodRouter.find, Option.or_eq_some_iff] at h
  rcases h with hown | ⟨_, hget⟩
  · exact hlookup method hown
  · split at hget
    · exact hlookup .get hget
    · cases hget

/-- The code a request is redirected by, if it is dispatched to the redirect. -/
def redirectCode {config : Config} (req : Incoming config) : Option String :=
  match buildRouter.lookup (pathSegments req.path) with
  | some (r, [segment]) =>
      if MethodRouter.find r req.method = some .redirect then percentDecode segment else none
  | _ => none

/-! ## one request -/

section Step

variable {config : Config} {crates : Crates} {env : AuthEnv} {auth : Option AuthConfig} {site : Site}
  {req : Incoming config} {R : Type} [LinkRepository R] {s : AppState R}

/-- The state after a request is the state after its handler. -/
theorem snd_run_methodRouter {r : MethodRouter} {captures : List String} {e : Endpoint}
    (h : MethodRouter.find r req.method = some e) :
    ((methodRouter crates env auth site req r captures).run s).2 =
      ((endpoint crates env auth site req captures e).run s).2 := by
  rw [methodRouter, h]
  simp only [Handler.run_bind]
  cases (endpoint crates env auth site req captures e).run s with
  | mk out s' => cases out <;> rfl

/-- A login stores nothing. -/
theorem snd_run_login : ((login env auth req).run s).2 = s := by
  rw [login]
  cases req.loginBody with
  | error rejection => rfl
  | ok body =>
      simp only
      cases Auth.loginHandler env auth req.now body with
      | ok response => rfl
      | error failure => cases failure <;> rfl

/-- A page that is not about links stores nothing. -/
theorem snd_run_page {captures : List String} {e : Endpoint} (hopen : e.isOpen = true)
    (hpage : e ≠ .redirect) : ((endpoint crates env auth site req captures e).run s).2 = s := by
  cases e with
  | login => exact snd_run_login
  | redirect => exact absurd rfl hpage
  | healthz | readyz | version | swaggerUi | openapi | slow | slowBlocking | metrics => rfl
  | createLink | listLinks | getLink | updateLink | deleteLink | getLinkStats | getTopStats =>
      simp [Endpoint.isOpen] at hopen

variable [LawfulLinkRepository R]

/-- Nothing happens to the links, or the one under a code has one hit more. -/
def CountsAt (code : Option String) (s s' : AppState R) : Prop :=
  find s'.repo = find s.repo ∨
    ∃ c l, code = some c ∧ find s.repo c = some l ∧
      find s'.repo = (find s.repo).put c { l with hits := l.hits + 1 }

theorem countsAt_refl (code : Option String) : CountsAt code s s := Or.inl rfl

theorem countsAt_redirect (now : SystemTime) (code : String) :
    CountsAt (some code) s ((Api.redirect now code).run s).2 := by
  cases h : find s.repo code with
  | none =>
      rw [Api.run_redirect_absent h]
      exact countsAt_refl _
  | some l =>
      cases hexp : l.link.isExpired now with
      | true =>
          rw [Api.run_redirect_expired h hexp]
          exact countsAt_refl _
      | false =>
          rw [Api.run_redirect_live h hexp]
          exact Or.inr ⟨code, l, rfl, h, (LawfulLinkRepository.recordHit_found h).2⟩

/-- A request to an open handler counts a hit of its redirect, at most. -/
theorem countsAt_methodRouter {r : MethodRouter} {captures : List String}
    (hlookup : buildRouter.lookup (pathSegments req.path) = some (r, captures))
    (hopen : ∀ p ∈ r.methods, p.2.isOpen = true) :
    CountsAt (redirectCode req) s ((methodRouter crates env auth site req r captures).run s).2 := by
  cases hfind : MethodRouter.find r req.method with
  | none =>
      rw [methodRouter, hfind]
      exact countsAt_refl _
  | some e =>
      rw [snd_run_methodRouter hfind]
      obtain ⟨m, hm⟩ := mem_methods_of_find hfind
      by_cases hredirect : e = .redirect
      · subst hredirect
        cases captures with
        | nil => exact countsAt_refl _
        | cons segment rest =>
            cases rest with
            | cons segment' rest => exact countsAt_refl _
            | nil =>
                have hcode : redirectCode req = percentDecode segment := by
                  simp [redirectCode, hlookup, hfind]
                rw [hcode]
                simp only [endpoint, withCode]
                cases percentDecode segment with
                | none => exact countsAt_refl _
                | some code => exact countsAt_redirect req.now code
      · rw [snd_run_page (hopen _ hm) hredirect]
        exact countsAt_refl _

/-- A request the middleware does not let through counts a hit of its redirect, at
most. -/
theorem countsAt_respond (hrefused : ∀ user, Auth.authMiddleware env auth req.now req.authorization ≠ .ok user) :
    CountsAt (redirectCode req) s (respond crates env auth site req s).2 := by
  rw [respond, dispatch]
  cases hlookup : buildRouter.lookup (pathSegments req.path) with
  | none => exact countsAt_refl _
  | some found =>
      obtain ⟨r, captures⟩ := found
      obtain ⟨pattern, hmem⟩ := Table.mem_of_lookup hlookup
      simp only [guardedRouter]
      cases hguarded : r.guarded with
      | true =>
          cases hauth : Auth.authMiddleware env auth req.now req.authorization with
          | ok user => exact absurd hauth (hrefused user)
          | error e => exact countsAt_refl _
      | false => exact countsAt_methodRouter hlookup (isOpen_of_unguarded (pattern, r) hmem hguarded)

end Step

/-! ## requests and calls -/

/-- What a client sends: a request over HTTP, at a site in some condition, or a call
over gRPC. -/
inductive Contact (config : Config) where
  | http (site : Site) (req : Incoming config)
  | grpc (now : SystemTime) (authorization : Option String) (rpc : Grpc.Rpc)

namespace Contact

variable {config : Config}

def now : Contact config → SystemTime
  | http _ req => req.now
  | grpc now _ _ => now

/-- The `Authorization` header or metadata, where it is text. -/
def authorization : Contact config → Option String
  | http _ req => req.authorization
  | grpc _ authorization _ => authorization

/-- The code it is redirected by, if it is. -/
def redirectCode : Contact config → Option String
  | http _ req => Router.redirectCode req
  | grpc _ _ _ => none

/-- It carries no bearer token that `validate_token` accepts. -/
def Anonymous (env : AuthEnv) (authConfig : AuthConfig) (c : Contact config) : Prop :=
  ¬ ∃ token, c.authorization = some ("Bearer " ++ token) ∧ ∃ keys claims,
    Auth.loadKeys env authConfig = .ok keys ∧ Auth.validateToken env c.now token keys.2 = .ok claims

end Contact

section Run

variable {config : Config} (crates : Crates) (env : AuthEnv) (authConfig : AuthConfig)
  {R : Type} [LinkRepository R]

/-- The state after a request or a call, of a service with authentication. -/
def contact (s : AppState R) : Contact config → AppState R
  | .http site req => (respond crates env (some authConfig) site req s).2
  | .grpc now authorization rpc => ((Grpc.call env ⟨authConfig⟩ now authorization rpc).run s).2

variable [LawfulLinkRepository R] {crates env authConfig} {s s' s'' : AppState R}

/-- A step of an anonymous caller. -/
theorem countsAt_contact (s : AppState R) {c : Contact config} (h : c.Anonymous env authConfig) :
    CountsAt c.redirectCode s (contact crates env authConfig s c) := by
  cases c with
  | http site req =>
      apply countsAt_respond
      intro user huser
      exact h (Auth.passes_iff_validateToken.mp ⟨user, huser⟩)
  | grpc now authorization rpc =>
      have hrefused : ∃ e, Grpc.authenticate env ⟨authConfig⟩ now authorization = .error e := by
        cases hauth : Grpc.authenticate env ⟨authConfig⟩ now authorization with
        | error e => exact ⟨e, rfl⟩
        | ok user => exact absurd (Grpc.authenticate_eq_ok_iff.mp hauth) h
      obtain ⟨e, he⟩ := hrefused
      rw [contact, Grpc.call, he, Handler.run_ofExcept_error_bind]
      exact countsAt_refl _

/-- Between two states the link under a code is the same, with some more hits, at
most. -/
structure OnlyHits (code : String) (most : Nat) (s s' : AppState R) : Prop where
  link_eq : (find s'.repo code).map LinkStats.link = (find s.repo code).map LinkStats.link
  hits_le : ∀ l ∈ find s.repo code, ∀ l' ∈ find s'.repo code, l.hits ≤ l'.hits
  hits_le_add : ∀ l ∈ find s.repo code, ∀ l' ∈ find s'.repo code, l'.hits ≤ l.hits + most

theorem onlyHits_of_find_eq {code : String} (most : Nat) (h : find s'.repo code = find s.repo code) :
    OnlyHits code most s s' := by
  have hsame : ∀ l ∈ find s.repo code, ∀ l' ∈ find s'.repo code, l' = l := by
    intro l hl l' hl'
    rw [h, hl] at hl'
    exact (Option.some.inj hl').symm
  constructor
  · rw [h]
  · intro l hl l' hl'
    rw [hsame l hl l' hl']
  · intro l hl l' hl'
    rw [hsame l hl l' hl']
    omega

theorem OnlyHits.trans {code : String} {m n : Nat} (h : OnlyHits code m s s')
    (h' : OnlyHits code n s' s'') : OnlyHits code (m + n) s s'' := by
  have hbetween : ∀ l ∈ find s.repo code, ∃ l', find s'.repo code = some l' := by
    intro l hl
    have hlink := h.link_eq
    rw [Option.mem_def] at hl
    rw [hl, Option.map_some, Option.map_eq_some_iff] at hlink
    obtain ⟨l', hl', _⟩ := hlink
    exact ⟨l', hl'⟩
  constructor
  · exact h'.link_eq.trans h.link_eq
  · intro l hl l'' hl''
    obtain ⟨l', hl'⟩ := hbetween l hl
    exact (h.hits_le l hl l' hl').trans (h'.hits_le l' hl' l'' hl'')
  · intro l hl l'' hl''
    obtain ⟨l', hl'⟩ := hbetween l hl
    have hfirst := h.hits_le_add l hl l' hl'
    have hsecond := h'.hits_le_add l' hl' l'' hl''
    omega

/-- A counted redirect adds a hit under its code, and none elsewhere. -/
theorem CountsAt.onlyHits {redirected : Option String} (h : CountsAt redirected s s') (code : String) :
    OnlyHits code (if redirected = some code then 1 else 0) s s' := by
  rcases h with hsame | ⟨c, l, hcode, hl, hput⟩
  · exact onlyHits_of_find_eq _ (congrFun hsame code)
  · by_cases heq : c = code
    · subst heq
      have hfind : find s'.repo c = some { l with hits := l.hits + 1 } := by rw [hput, Store.put_self]
      rw [if_pos hcode]
      constructor
      · rw [hfind, hl]
        rfl
      · intro l₀ hl₀ l' hl'
        rw [hl, Option.mem_some_iff] at hl₀
        rw [hfind, Option.mem_some_iff] at hl'
        subst hl₀ hl'
        simp
      · intro l₀ hl₀ l' hl'
        rw [hl, Option.mem_some_iff] at hl₀
        rw [hfind, Option.mem_some_iff] at hl'
        subst hl₀ hl'
        simp
    · apply onlyHits_of_find_eq
      rw [hput, Store.put_of_ne (Ne.symm heq)]

/-- **Anonymous callers**: requests and calls without an accepted token leave every
link as it is, and add to its hits no more than the redirects of its code. -/
theorem onlyHits_reach (s : AppState R) (contacts : List (Contact config))
    (h : ∀ c ∈ contacts, c.Anonymous env authConfig) (code : String) :
    OnlyHits code (contacts.countP (fun c => decide (c.redirectCode = some code))) s
      (Run.reach (contact crates env authConfig) s contacts) := by
  induction contacts generalizing s with
  | nil => exact onlyHits_of_find_eq _ rfl
  | cons c contacts ih =>
      have hstep : OnlyHits code (if c.redirectCode = some code then 1 else 0) s
          (contact crates env authConfig s c) :=
        (countsAt_contact s (h c List.mem_cons_self)).onlyHits code
      have hrest := ih (contact crates env authConfig s c) (fun c' hc' => h c' (List.mem_cons_of_mem c hc'))
      rw [Run.reach_cons, List.countP_cons, Nat.add_comm]
      simp only [decide_eq_true_eq]
      exact hstep.trans hrest

/-- A redirect, a create without a token and a gRPC call without one. -/
def strangers : List (Contact Service.smallConfig) := [
  .http plainSite (visit (.ofSecs 1) "/promo2026"),
  .http plainSite { visit (.ofSecs 2) "/api/v1/links" with method := .post },
  .grpc (.ofSecs 3) none .streamLinks]

theorem onlyHits_reach_strangers :
    OnlyHits "promo2026" 1 (createNamed "promo2026").2
      (Run.reach (contact Api.oneUrl Auth.strokesEnv (Auth.defaultConfig Auth.strokesEnv))
        (createNamed "promo2026").2 strangers) := by
  have hcount : strangers.countP (fun c => decide (c.redirectCode = some "promo2026")) = 1 := by
    decide
  rw [← hcount]
  apply onlyHits_reach
  intro c hc
  simp only [strangers, List.mem_cons, List.not_mem_nil, or_false] at hc
  rcases hc with rfl | rfl | rfl
  · rintro ⟨_, htoken, _⟩
    cases htoken
  · rintro ⟨_, htoken, _⟩
    cases htoken
  · rintro ⟨_, htoken, _⟩
    cases htoken

end Run

end Router

end Shorty
