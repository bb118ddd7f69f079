import Shorty.Repository.PurgeListing
import Shorty.Service

/-!
# Shorty.Service.Purging

Whether a client can tell that the cleaner has just run, with the cache disabled.
A redirect and the statistics of a link look at its expiry themselves; every
other operation takes an expired link for a link until it is purged.  For each
request `SeesPurge` says exactly when that shows.
-/

namespace Shorty

namespace Service

open LawfulLinkRepository (find missing refusal taken)

variable {config : Config} {crates : Crates} {R : Type} [LinkRepository R] [LawfulLinkRepository R]
  {r : R} {now : SystemTime} {code : String}

/-- A request about links, over either transport. -/
inductive LinkRequest (config : Config) where
  | http (requestId : Option String) (req : Api.Request config)
  | grpcGetLink (req : Grpc.GetLinkRequest)
  | grpcCreateLink (generated : Grpc.ShortUuid) (req : Grpc.CreateLinkRequest)
  | grpcListLinks (req : Grpc.ListLinksRequest)

/-- What a client gets. -/
inductive Answer where
  | http (response : Option Response)
  | grpcGetLink (out : Except (Failure Grpc.Status) Grpc.GetLinkResponse)
  | grpcCreateLink (out : Except (Failure Grpc.Status) Grpc.CreateLinkResponse)
  | grpcListLinks (out : Except (Failure Grpc.Status) Grpc.ListLinksResponse)

/-- The answer to a request. -/
def answer (crates : Crates) (now : SystemTime) (s : AppState R) : LinkRequest config → Answer
  | .http requestId req => .http (Api.serve crates now requestId req s).1
  | .grpcGetLink req => .grpcGetLink ((Grpc.getLink req).run s).1
  | .grpcCreateLink generated req => .grpcCreateLink ((Grpc.createLink now generated req).run s).1
  | .grpcListLinks req => .grpcListLinks ((Grpc.listLinks now req).run s).1

/-! ## when a purge shows -/

/-- A code with a link that is expired and not yet purged. -/
def StoresExpired (now : SystemTime) (r : R) (code : String) : Prop :=
  ∃ l, find r code = some l ∧ l.link.isExpired now = true

/-- A code with a link that is not expired. -/
def StoresLive (now : SystemTime) (r : R) (code : String) : Prop :=
  ∃ l, find r code = some l ∧ l.link.isExpired now = false

/-- Of some codes that are tried in turn, the first one without a live link has an
expired one; `link` is the link inserted under a code. -/
def TakesExpired (now : SystemTime) (r : R) (link : String → ShortLink) : List String → Prop
  | [] => False
  | code :: codes => refusal R (link code) = none ∧
      (StoresExpired now r code ∨ StoresLive now r code ∧ TakesExpired now r link codes)

/-- Whether the answer to a request tells that a purge has not just run. -/
def SeesPurge [PurgeListing R] (crates : Crates) (now : SystemTime) (r : R) :
    LinkRequest config → Prop
  | .http _ (.createLink draw req) =>
      ∃ url expiresAt, Api.validateCreate crates now req = .ok (url, expiresAt) ∧
        TakesExpired now r (Api.newLink now url.asStr expiresAt)
          (Api.candidates config draw req.customCode)
  | .http _ (.updateLink code req) =>
      (∃ url, parseTargetUrl crates.url req.targetUrl = .ok url) ∧ StoresExpired now r code
  | .http _ (.getLink code) => StoresExpired now r code
  | .http _ (.listLinks limit cursor) =>
      PurgeListing.SeesPurge now (Api.listLimit limit) (cursor.bind (Api.decodeCursor crates)) r
  | .http _ (.redirect _) => False
  | .http _ (.deleteLink code) => StoresExpired now r code
  | .http _ (.getLinkStats _) => False
  | .http _ (.getTopStats _) => False
  | .grpcGetLink req => StoresExpired now r req.code
  | .grpcCreateLink generated req => req.targetUrl ≠ "" ∧
      TakesExpired now r (fun code => .new now code req.targetUrl)
        [(Grpc.customCode req).getD generated.code]
  | .grpcListLinks req =>
      PurgeListing.SeesPurge now (Grpc.pageSize req.pageSize) (Grpc.tokenCursor req.pageToken) r

/-! ## one code before and after a purge -/

theorem find_purged (now : SystemTime) (r : R) (code : String) :
    find (purged now r) code = (find r code).filter (fun l => !l.link.isExpired now) :=
  congrFun (LawfulLinkRepository.find_purgeExpired now r) code

/-- A code is free, or has a live link, or an expired one that a purge drops. -/
theorem code_cases (now : SystemTime) (r : R) (code : String) :
    (find r code = none ∧ find (purged now r) code = none) ∨
    (∃ l, find r code = some l ∧ l.link.isExpired now = false ∧
      find (purged now r) code = some l) ∨
    ∃ l, find r code = some l ∧ l.link.isExpired now = true ∧ find (purged now r) code = none := by
  rw [find_purged]
  cases h : find r code with
  | none => exact Or.inl ⟨rfl, rfl⟩
  | some l =>
      cases hexp : l.link.isExpired now with
      | false => exact Or.inr (Or.inl ⟨l, rfl, hexp, by simp [Option.filter, hexp]⟩)
      | true => exact Or.inr (Or.inr ⟨l, rfl, hexp, by simp [Option.filter, hexp]⟩)

theorem not_storesExpired_of_absent (h : find r code = none) : ¬ StoresExpired now r code := by
  rintro ⟨l, hl, _⟩
  rw [h] at hl
  cases hl

theorem not_storesLive_of_absent (h : find r code = none) : ¬ StoresLive now r code := by
  rintro ⟨l, hl, _⟩
  rw [h] at hl
  cases hl

theorem not_storesExpired_of_live {l : LinkStats} (h : find r code = some l)
    (hexp : l.link.isExpired now = false) : ¬ StoresExpired now r code := by
  rintro ⟨l', hl', hexp'⟩
  rw [h] at hl'
  cases hl'
  rw [hexp] at hexp'
  cases hexp'

/-- An operation that answers by the link it finds tells a purge exactly at an
expired link. -/
theorem same_iff_not_storesExpired {α : Type} (out : R → α)
    (habsent : ∀ r r' : R, find r code = none → find r' code = none → out r' = out r)
    (hlive : ∀ (r r' : R) l, find r code = some l → find r' code = some l → out r' = out r)
    (hexpired : ∀ (r r' : R) l, find r code = some l → find r' code = none → out r' ≠ out r)
    (r : R) : out (purged now r) = out r ↔ ¬ StoresExpired now r code := by
  rcases code_cases now r code with ⟨h, h'⟩ | ⟨l, h, hexp, h'⟩ | ⟨l, h, hexp, h'⟩
  · exact iff_of_true (habsent r _ h h') (not_storesExpired_of_absent h)
  · exact iff_of_true (hlive r _ l h h') (not_storesExpired_of_live h hexp)
  · exact iff_of_false (hexpired r _ l h h') (not_not_intro ⟨l, h, hexp⟩)

/-! ## reading, deleting and updating -/

section Single

variable {stats : StatsStorage} {requestId : Option String}

/-- The state over a repository, without a cache. -/
def uncached (stats : StatsStorage) (r : R) : AppState R := ⟨r, stats, .disabled⟩

theorem ofRepoError_missing {l : LinkStats} (h : find r code = some l) :
    AppError.ofRepoError (missing R code) = .notFound := by
  rw [LawfulLinkRepository.missing_of_find h]
  rfl

theorem getLink_purged (r : R) :
    (Api.serve crates now requestId (.getLink code : Api.Request config)
        (uncached stats (purged now r))).1 =
      (Api.serve crates now requestId (.getLink code : Api.Request config) (uncached stats r)).1 ↔
    ¬ StoresExpired now r code := by
  have hmiss : ∀ r : R, ((uncached stats r).cache.get (linkKey code)).1 = none := fun _ => rfl
  refine same_iff_not_storesExpired (fun r => (Api.serve crates now requestId
    (.getLink code : Api.Request config) (uncached stats r)).1) ?_ ?_ ?_ r
  · intro r r' h h'
    simp only [Api.serve, Api.handle, Api.run_getLink_absent (hmiss r) h,
      Api.run_getLink_absent (hmiss r') h']
  · intro r r' l h h'
    simp only [Api.serve, Api.handle, Api.run_getLink_miss (hmiss r) h,
      Api.run_getLink_miss (hmiss r') h']
  · intro r r' l h h'
    simp only [Api.serve, Api.handle, Api.run_getLink_miss (hmiss r) h,
      Api.run_getLink_absent (hmiss r') h', ofRepoError_missing h]
    simp [Api.answer, Response.ofError, Response.ok]

theorem deleteLink_purged (r : R) :
    (Api.serve crates now requestId (.deleteLink code : Api.Request config)
        (uncached stats (purged now r))).1 =
      (Api.serve crates now requestId (.deleteLink code : Api.Request config) (uncached stats r)).1 ↔
    ¬ StoresExpired now r code := by
  refine same_iff_not_storesExpired (fun r => (Api.serve crates now requestId
    (.deleteLink code : Api.Request config) (uncached stats r)).1) ?_ ?_ ?_ r
  · intro r r' h h'
    have hs : find (uncached stats r).repo code = none := h
    have hs' : find (uncached stats r').repo code = none := h'
    simp only [Api.serve, Api.handle, Api.run_deleteLink_absent hs, Api.run_deleteLink_absent hs']
  · intro r r' l h h'
    have hs : find (uncached stats r).repo code = some l := h
    have hs' : find (uncached stats r').repo code = some l := h'
    simp only [Api.serve, Api.handle, Api.run_deleteLink_found hs, Api.run_deleteLink_found hs']
  · intro r r' l h h'
    have hs : find (uncached stats r).repo code = some l := h
    have hs' : find (uncached stats r').repo code = none := h'
    simp only [Api.serve, Api.handle, Api.run_deleteLink_found hs, Api.run_deleteLink_absent hs',
      ofRepoError_missing h]
    simp [Api.answer, Response.ofError]

theorem admitsTarget_asStr (url : Url) :
    LawfulLinkRepository.admitsTarget R url.asStr = true :=
  LawfulLinkRepository.admitsTarget_of_isText (isText_asStr url) url.nonempty

/-- The result of an update of a stored link. -/
theorem update_of_find {l : LinkStats} {v : Int64} (url : Url) (h : find r code = some l) :
    (LinkRepository.update now code url.asStr v r).1 =
      if LawfulLinkRepository.checksVersion R = true ∧ l.link.version ≠ v then
        .error .versionConflict
      else match LawfulLinkRepository.exhausted R l.link.version with
        | some e => .error e
        | none => .ok (l.link.updated (LawfulLinkRepository.stamp R now) url.asStr) := by
  split
  · rename_i hv
    rw [LawfulLinkRepository.update_conflict h (admitsTarget_asStr url) hv.1 hv.2]
  · rename_i hv
    simp only [not_and, Classical.not_not] at hv
    cases hlast : LawfulLinkRepository.exhausted R l.link.version with
    | some e => rw [LawfulLinkRepository.update_exhausted h (admitsTarget_asStr url) hv hlast]
    | none => exact (LawfulLinkRepository.update_found h (admitsTarget_asStr url) hv hlast).1

omit [LawfulLinkRepository R] in
/-- The answer to an update is made of its result. -/
theorem updateLink_result {req : UpdateLinkRequest} {url : Url}
    (hurl : parseTargetUrl crates.url req.targetUrl = .ok url) (r : R) :
    ((Api.updateLink crates now code req).run (uncached stats r)).1 =
      match (LinkRepository.update now code url.asStr req.version r).1 with
      | .ok link => .ok (.ok (.link (.ofShortLink link)))
      | .error e => .error (.error (.ofRepoError e)) := by
  cases hup : LinkRepository.update now code url.asStr req.version r with
  | mk out r' =>
      cases out with
      | ok link => rw [Api.run_updateLink_ok hurl hup]
      | error e => rw [Api.run_updateLink_error hurl hup]

theorem updateLink_purged (req : UpdateLinkRequest) (r : R) :
    (Api.serve crates now requestId (.updateLink code req : Api.Request config)
        (uncached stats (purged now r))).1 =
      (Api.serve crates now requestId (.updateLink code req : Api.Request config)
        (uncached stats r)).1 ↔
    ¬ ((∃ url, parseTargetUrl crates.url req.targetUrl = .ok url) ∧ StoresExpired now r code) := by
  cases hurl : parseTargetUrl crates.url req.targetUrl with
  | error e => simp [Api.serve, Api.handle, Api.run_updateLink_invalid hurl]
  | ok url =>
      have hparses : (∃ url', (Except.ok url : Except AppError Url) = .ok url') := ⟨url, rfl⟩
      rw [and_iff_right hparses]
      refine same_iff_not_storesExpired (fun r => (Api.serve crates now requestId
        (.updateLink code req : Api.Request config) (uncached stats r)).1) ?_ ?_ ?_ r
      · intro r r' h h'
        simp only [Api.serve, Api.handle, updateLink_result hurl,
          LawfulLinkRepository.update_missing h, LawfulLinkRepository.update_missing h']
      · intro r r' l h h'
        simp only [Api.serve, Api.handle, updateLink_result hurl, update_of_find url h,
          update_of_find url h']
      · intro r r' l h h'
        have hmissing := LawfulLinkRepository.updateMissing_of_find h
          (admitsTarget_asStr (R := R) url)
        simp only [Api.serve, Api.handle, updateLink_result hurl, update_of_find url h,
          LawfulLinkRepository.update_missing h', hmissing]
        by_cases hv : LawfulLinkRepository.checksVersion R = true ∧ l.link.version ≠ req.version
        · simp only [if_pos hv]
          intro heq
          have hstatus : (404 : Nat) = 409 :=
            congrArg (fun response => (response.map Response.status).getD 0) heq
          omega
        · simp only [if_neg hv]
          intro heq
          cases hlast : LawfulLinkRepository.exhausted R l.link.version with
          | some e =>
              obtain ⟨message, rfl⟩ := LawfulLinkRepository.exhausted_eq hlast
              rw [hlast] at heq
              have hstatus : (404 : Nat) = 500 :=
                congrArg (fun response => (response.map Response.status).getD 0) heq
              omega
          | none =>
              rw [hlast] at heq
              have hstatus : (404 : Nat) = 200 :=
                congrArg (fun response => (response.map Response.status).getD 0) heq
              omega

/-! ## what looks at the expiry -/

theorem redirect_purged (r : R) :
    (Api.serve crates now requestId (.redirect code : Api.Request config)
        (uncached stats (purged now r))).1 =
      (Api.serve crates now requestId (.redirect code : Api.Request config) (uncached stats r)).1 := by
  rcases code_cases now r code with ⟨h, h'⟩ | ⟨l, h, hexp, h'⟩ | ⟨l, h, hexp, h'⟩
  · have hs : find (uncached stats r).repo code = none := h
    have hs' : find (uncached stats (purged now r)).repo code = none := h'
    simp only [Api.serve, Api.handle, Api.run_redirect_absent hs, Api.run_redirect_absent hs']
  · have hs : find (uncached stats r).repo code = some l := h
    have hs' : find (uncached stats (purged now r)).repo code = some l := h'
    simp only [Api.serve, Api.handle, Api.run_redirect_live hs hexp, Api.run_redirect_live hs' hexp]
  · have hs : find (uncached stats r).repo code = some l := h
    have hs' : find (uncached stats (purged now r)).repo code = none := h'
    simp only [Api.serve, Api.handle, Api.run_redirect_expired hs hexp, Api.run_redirect_absent hs',
      ofRepoError_missing h]

theorem getLinkStats_purged (r : R) :
    (Api.serve crates now requestId (.getLinkStats code : Api.Request config)
        (uncached stats (purged now r))).1 =
      (Api.serve crates now requestId (.getLinkStats code : Api.Request config)
        (uncached stats r)).1 := by
  rcases code_cases now r code with ⟨h, h'⟩ | ⟨l, h, hexp, h'⟩ | ⟨l, h, hexp, h'⟩
  · have hs : find (uncached stats r).repo code = none := h
    have hs' : find (uncached stats (purged now r)).repo code = none := h'
    simp only [Api.serve, Api.handle, Api.run_getLinkStats_absent hs, Api.run_getLinkStats_absent hs']
  · have hs : find (uncached stats r).repo code = some l := h
    have hs' : find (uncached stats (purged now r)).repo code = some l := h'
    simp only [Api.serve, Api.handle, Api.run_getLinkStats_live hs hexp,
      Api.run_getLinkStats_live hs' hexp]
    rfl
  · have hs : find (uncached stats r).repo code = some l := h
    have hs' : find (uncached stats (purged now r)).repo code = none := h'
    simp only [Api.serve, Api.handle, Api.run_getLinkStats_expired hs hexp,
      Api.run_getLinkStats_absent hs', ofRepoError_missing h]

/-! ## creating -/

section Create

variable {targetUrl : String} {expiresAt : Option SystemTime}

/-- What a tried code is before and after a purge. -/
theorem takesExpired_cons_of_refused {link : String → ShortLink} {codes : List String}
    {e : RepoError} (hr : refusal R (link code) = some e) :
    ¬ TakesExpired now r link (code :: codes) := by
  rintro ⟨hnone, _⟩
  rw [hr] at hnone
  cases hnone

theorem takesExpired_cons_of_absent {link : String → ShortLink} {codes : List String}
    (h : find r code = none) : ¬ TakesExpired now r link (code :: codes) := by
  rintro ⟨_, hexp | ⟨hlive, _⟩⟩
  · exact not_storesExpired_of_absent h hexp
  · exact not_storesLive_of_absent h hlive

theorem takesExpired_cons_of_live {link : String → ShortLink} {codes : List String} {l : LinkStats}
    (hr : refusal R (link code) = none) (h : find r code = some l)
    (hexp : l.link.isExpired now = false) :
    TakesExpired now r link (code :: codes) ↔ TakesExpired now r link codes := by
  rw [TakesExpired, or_iff_right (not_storesExpired_of_live h hexp)]
  exact ⟨fun htakes => htakes.2.2, fun htakes => ⟨hr, ⟨l, h, hexp⟩, htakes⟩⟩

/-- What storing a link gives after a purge: what it gives before, unless it takes the code
of an expired link. -/
structure StoringPurged (stats : StatsStorage) (now : SystemTime) (r : R)
    (store : Handler AppError String) (takes : Prop) : Prop where
  same : ¬ takes → (store.run (uncached stats (purged now r))).1 = (store.run (uncached stats r)).1
  taken : takes → ∃ code, (store.run (uncached stats (purged now r))).1 = .ok code ∧
    StoresExpired now r code

/-- A code is refused, stored, or left to the codes after it. -/
theorem storingPurged_cons {store : Handler AppError String} {link : String → ShortLink}
    {codes : List String}
    (hrefused : ∀ e, refusal R (link code) = some e → ∀ s s' : AppState R,
      (store.run s).1 = (store.run s').1)
    (hfree : refusal R (link code) = none → ∀ s : AppState R, find s.repo code = none →
      (store.run s).1 = .ok code)
    (hlive : ∀ l, refusal R (link code) = none → find (uncached stats r).repo code = some l →
      find (uncached stats (purged now r)).repo code = some l →
        StoringPurged stats now r store (TakesExpired now r link codes)) :
    StoringPurged stats now r store (TakesExpired now r link (code :: codes)) := by
  cases hr : refusal R (link code) with
  | some e =>
      exact ⟨fun _ => hrefused e hr _ _, fun h => absurd h (takesExpired_cons_of_refused hr)⟩
  | none =>
      rcases code_cases now r code with ⟨h, h'⟩ | ⟨l, h, hexp, h'⟩ | ⟨l, h, hexp, h'⟩
      · refine ⟨fun _ => ?_, fun htakes => absurd htakes (takesExpired_cons_of_absent h)⟩
        exact (hfree hr _ h').trans (hfree hr _ h).symm
      · rw [takesExpired_cons_of_live hr h hexp]
        exact hlive l hr h h'
      · refine ⟨fun hnot => absurd ⟨hr, Or.inl ⟨l, h, hexp⟩⟩ hnot, fun _ => ?_⟩
        exact ⟨code, hfree hr _ h', l, h, hexp⟩

/-- A drawn code is the same before and after a purge, unless the first one
without a live link has an expired one, which is then drawn. -/
theorem tryCodes_purged (stats : StatsStorage) (now : SystemTime) (targetUrl : String)
    (expiresAt : Option SystemTime) (codes : List String) (r : R) :
    StoringPurged stats now r (Api.tryCodes config now targetUrl expiresAt codes)
      (TakesExpired now r (Api.newLink now targetUrl expiresAt) codes) := by
  induction codes with
  | nil => exact ⟨fun _ => rfl, fun h => absurd h id⟩
  | cons code codes ih =>
      apply storingPurged_cons
      · intro e hr s s'
        rw [Api.run_tryCodes_refused hr, Api.run_tryCodes_refused hr]
      · intro hr s hs
        rw [Api.run_tryCodes_free hr hs]
      · intro l hr hs hs'
        constructor
        · rw [Api.run_tryCodes_taken hr hs, Api.run_tryCodes_taken hr hs']
          exact ih.same
        · rw [Api.run_tryCodes_taken hr hs']
          exact ih.taken

/-- The same for the storing of a link, under a chosen code or a drawn one. -/
theorem storeLink_purged (stats : StatsStorage) (now : SystemTime) (targetUrl : String)
    (expiresAt : Option SystemTime) (draw : Nat → Nanoid config.codeLength)
    (customCode : Option String) (r : R) :
    StoringPurged stats now r (Api.storeLink config now draw customCode targetUrl expiresAt)
      (TakesExpired now r (Api.newLink now targetUrl expiresAt)
        (Api.candidates config draw customCode)) := by
  cases customCode with
  | none => exact tryCodes_purged stats now targetUrl expiresAt _ r
  | some code =>
      rw [Api.candidates]
      apply storingPurged_cons
      · intro e hr s s'
        rw [Api.run_storeLink_refused hr, Api.run_storeLink_refused hr]
      · intro hr s hs
        rw [Api.run_storeLink_free hr hs]
      · intro l hr hs hs'
        refine ⟨fun _ => ?_, fun htakes => absurd htakes id⟩
        rw [Api.run_storeLink_taken hr hs, Api.run_storeLink_taken hr hs']

/-- The response to a create request that stored a link under a code. -/
def createdResponse (R : Type) [LinkRepository R] [LawfulLinkRepository R] (now : SystemTime)
    (targetUrl : String) (expiresAt : Option SystemTime) (code : String) : Response :=
  .created ("/api/v1/links/" ++ code) (.link (.ofLinkStats
    ⟨LawfulLinkRepository.recorded R now (Api.newLink now targetUrl expiresAt code), 0⟩))

/-- A create request is answered by what storing its link gives. -/
theorem createLink_result {draw : Nat → Nanoid config.codeLength} {creq : CreateLinkRequest}
    {url : Url} (hv : Api.validateCreate crates now creq = .ok (url, expiresAt)) (r : R) :
    ((Api.createLink config crates now draw creq).run (uncached stats r)).1 =
      match ((Api.storeLink config now draw creq.customCode url.asStr expiresAt).run
        (uncached stats r)).1 with
      | .ok code => .ok (createdResponse R now url.asStr expiresAt code)
      | .error failure => .error failure := by
  rw [Api.run_createLink, hv]
  simp only [Handler.run_bind]
  rcases Api.run_storeLink now draw creq.customCode url.asStr expiresAt (uncached stats r)
    with ⟨code, _, hr, hfree, hrun⟩ | ⟨e, hrun⟩
  · have hstored : find (inserted r now (Api.newLink now url.asStr expiresAt code)) code =
        some (storedLink r now (Api.newLink now url.asStr expiresAt code)) :=
      find_inserted_self now hr hfree
    rw [hrun]
    exact congrArg Prod.fst (Api.run_showCreated
      (l := storedLink r now (Api.newLink now url.asStr expiresAt code)) hstored)
  · rw [hrun]

/-- The code of the link a response shows. -/
def shownCode : Option Response → Option String
  | some ⟨_, _, .link link⟩ => some link.code
  | _ => none

theorem shownCode_createdResponse (h : ∀ c ∈ code.toList, isCodeChar c = true) :
    shownCode (some (createdResponse R now targetUrl expiresAt code)) = some code := by
  have hheader : isHeaderValue ("/api/v1/links/" ++ code) = true := by
    rw [isHeaderValue, String.toList_append, List.all_append, Bool.and_eq_true]
    exact ⟨by decide, Api.isHeaderValue_of_isCodeChar h⟩
  rw [createdResponse, Response.created, if_pos hheader]
  exact congrArg some (LawfulLinkRepository.code_recorded (R := R) now
    (Api.newLink now targetUrl expiresAt code))

theorem createLink_purged (draw : Nat → Nanoid config.codeLength) (creq : CreateLinkRequest)
    (r : R) :
    (Api.serve crates now requestId (.createLink draw creq) (uncached stats (purged now r))).1 =
      (Api.serve crates now requestId (.createLink draw creq) (uncached stats r)).1 ↔
    ¬ ∃ url expiresAt, Api.validateCreate crates now creq = .ok (url, expiresAt) ∧
      TakesExpired now r (Api.newLink now url.asStr expiresAt)
        (Api.candidates config draw creq.customCode) := by
  cases hv : Api.validateCreate crates now creq with
  | error failure =>
      refine iff_of_true ?_ (by simp)
      simp only [Api.serve, Api.handle, Api.run_createLink, hv]
  | ok checked =>
      obtain ⟨url, expiresAt⟩ := checked
      obtain ⟨hsame, hdiffers⟩ :=
        storeLink_purged stats now url.asStr expiresAt draw creq.customCode r
      simp only [Api.serve, Api.handle, createLink_result hv]
      by_cases htakes : TakesExpired now r (Api.newLink now url.asStr expiresAt)
          (Api.candidates config draw creq.customCode)
      · refine iff_of_false ?_ (not_not_intro ⟨url, expiresAt, rfl, htakes⟩)
        obtain ⟨code, hcode, hexpired⟩ := hdiffers htakes
        have hchars : ∀ c ∈ code.toList, isCodeChar c = true := by
          rcases Api.run_storeLink now draw creq.customCode url.asStr expiresAt
            (uncached stats (purged now r)) with ⟨code', hmem, _, _, hrun⟩ | ⟨e, hrun⟩
          · rw [hrun] at hcode
            cases hcode
            exact Api.isCodeChar_of_candidate hv hmem
          · rw [hrun] at hcode
            cases hcode
        rw [hcode]
        intro heq
        have hshown := congrArg shownCode heq
        rw [Api.answer, shownCode_createdResponse hchars] at hshown
        rcases Api.run_storeLink now draw creq.customCode url.asStr expiresAt (uncached stats r)
          with ⟨code', hmem, _, hfree, hrun⟩ | ⟨e, hrun⟩
        · rw [hrun] at hshown
          have hchars' := Api.isCodeChar_of_candidate hv hmem
          have hshown' : some code = shownCode (some (createdResponse R now url.asStr expiresAt code')) :=
            hshown
          rw [shownCode_createdResponse hchars'] at hshown'
          cases hshown'
          exact not_storesExpired_of_absent hfree hexpired
        · rw [hrun] at hshown
          cases hshown
      · refine iff_of_true ?_ ?_
        · rw [hsame htakes]
        · rintro ⟨url', expiresAt', heq, htakes'⟩
          cases heq
          exact htakes htakes'

end Create

/-! ## listings -/

omit [LawfulLinkRepository R] in
/-- An answer that the codes of its page can be read off tells a purge exactly if the
page does. -/
theorem pageAnswer_purged [PurgeListing R] {β : Type} {f : Option (Except RepoError ListPage) → β}
    {codes : β → Option (List String)} (hcodes : ∀ out, codes (f out) = listedCodes out)
    (limit : Nat) (cursor : Option (String × String)) (r : R) :
    f (LinkRepository.list now limit cursor (purged now r)).1 =
      f (LinkRepository.list now limit cursor r).1 ↔ ¬ PurgeListing.SeesPurge now limit cursor r := by
  constructor
  · intro h hsees
    refine PurgeListing.list_differs hsees ?_
    have hread := congrArg codes h
    rwa [hcodes, hcodes] at hread
  · intro hsees
    rw [PurgeListing.list_same hsees]

/-- The codes of the links a response lists. -/
def listedLinks : Option Response → Option (List String)
  | some ⟨_, _, .links listed⟩ => some (listed.links.map LinkResponse.code)
  | _ => none

omit [LawfulLinkRepository R] in
theorem listLinks_purged [PurgeListing R] (limit cursor : Option String) (r : R) :
    (Api.serve crates now requestId (.listLinks limit cursor : Api.Request config)
        (uncached stats (purged now r))).1 =
      (Api.serve crates now requestId (.listLinks limit cursor : Api.Request config)
        (uncached stats r)).1 ↔
    ¬ PurgeListing.SeesPurge now (Api.listLimit limit) (cursor.bind (Api.decodeCursor crates)) r := by
  have hcodes : ∀ out : Option (Except RepoError ListPage),
      listedLinks (Api.answer requestId (Api.pageAnswer crates out)) = listedCodes out := by
    intro out
    cases out with
    | none => rfl
    | some page =>
        cases page with
        | error e => rfl
        | ok page => exact congrArg some (List.map_map ..)
  simp only [Api.serve, Api.handle, Api.run_listLinks, uncached]
  exact pageAnswer_purged (f := fun out => Api.answer requestId (Api.pageAnswer crates out)) hcodes
    _ _ r

/-! ## gRPC -/

theorem grpcGetLink_purged (r : R) :
    ((Grpc.getLink ⟨code⟩).run (uncached stats (purged now r))).1 =
      ((Grpc.getLink ⟨code⟩).run (uncached stats r)).1 ↔ ¬ StoresExpired now r code := by
  have hcall : ∀ r : R, AppState.exec (.stats code) (uncached stats r) =
      (Store.lookup (missing R code) (find r code), uncached stats r) :=
    fun r => AppState.exec_stats (uncached stats r) code
  have habsent : ∀ r : R, find r code = none → ((Grpc.getLink ⟨code⟩).run (uncached stats r)).1 =
      .error (.error (Grpc.mapRepoError code (missing R code))) := by
    intro r h
    simp [Grpc.getLink, hcall, h]
  have hfound : ∀ (r : R) l, find r code = some l →
      ((Grpc.getLink ⟨code⟩).run (uncached stats r)).1 = .ok (.ofLinkStats l) := by
    intro r l h
    simp [Grpc.getLink, hcall, h]
  refine same_iff_not_storesExpired
    (fun r => ((Grpc.getLink ⟨code⟩).run (uncached stats r)).1) ?_ ?_ ?_ r
  · intro r r' h h'
    simp only [habsent r h, habsent r' h']
  · intro r r' l h h'
    simp only [hfound r l h, hfound r' l h']
  · intro r r' l h h'
    simp [habsent, hfound, h, h']

/-- A create request over gRPC, by the case of its code. -/
theorem grpcCreateLink_result (now : SystemTime) (stats : StatsStorage)
    (generated : Grpc.ShortUuid) (req : Grpc.CreateLinkRequest) (hurl : req.targetUrl ≠ "")
    (hcode : (Grpc.customCode req).getD generated.code = code) (r : R) :
    ((Grpc.createLink now generated req).run (uncached stats r)).1 =
      match refusal R (.new now code req.targetUrl) with
      | some e => .error (.error (Grpc.mapRepoError code e))
      | none =>
          match find r code with
          | some _ => .error (.error (Grpc.mapRepoError code (taken R code)))
          | none => .ok (.ofLinkStats
              ⟨LawfulLinkRepository.recorded R now (.new now code req.targetUrl), 0⟩) := by
  subst hcode
  rw [Grpc.createLink, if_neg hurl]
  generalize (Grpc.customCode req).getD generated.code = code
  rw [Handler.run_ask_bind]
  cases hr : refusal R (.new now code req.targetUrl) with
  | some e =>
      rw [AppState.exec_insert_refused now hr]
      rfl
  | none =>
      cases h : find r code with
      | some l =>
          have hs : find (uncached stats r).repo (ShortLink.new now code req.targetUrl).code =
              some l := h
          rw [AppState.exec_insert_taken now hr hs]
          rfl
      | none =>
          have hs : find (uncached stats r).repo (ShortLink.new now code req.targetUrl).code =
              none := h
          have hstored : find (inserted r now (.new now code req.targetUrl)) code =
              some (storedLink r now (.new now code req.targetUrl)) :=
            find_inserted_self now hr hs
          rw [AppState.exec_insert_free now hr hs]
          simp only [Handler.run_ofExcept_ok_bind, Handler.run_ask_bind]
          rw [AppState.exec_stats_of_find (l := storedLink r now (.new now code req.targetUrl)) hstored]
          rfl

theorem grpcCreateLink_purged (generated : Grpc.ShortUuid) (req : Grpc.CreateLinkRequest) (r : R) :
    ((Grpc.createLink now generated req).run (uncached stats (purged now r))).1 =
      ((Grpc.createLink now generated req).run (uncached stats r)).1 ↔
    ¬ (req.targetUrl ≠ "" ∧ TakesExpired now r (fun code => .new now code req.targetUrl)
      [(Grpc.customCode req).getD generated.code]) := by
  by_cases hurl : req.targetUrl = ""
  · refine iff_of_true ?_ (fun h => h.1 hurl)
    rw [Grpc.createLink, if_pos hurl]
    rfl
  · rw [and_iff_right hurl]
    generalize hcode : (Grpc.customCode req).getD generated.code = code
    have hresult := grpcCreateLink_result (R := R) now stats generated req hurl hcode
    cases hr : refusal R (.new now code req.targetUrl) with
    | some e =>
        refine iff_of_true ?_ (takesExpired_cons_of_refused hr)
        simp only [hresult, hr]
    | none =>
        have htakes : TakesExpired now r (fun code => .new now code req.targetUrl) [code] ↔
            StoresExpired now r code := by
          simp [TakesExpired, hr]
        rw [htakes]
        refine same_iff_not_storesExpired
          (fun r => ((Grpc.createLink now generated req).run (uncached stats r)).1) ?_ ?_ ?_ r
        · intro r r' h h'
          simp only [hresult, hr, h, h']
        · intro r r' l h h'
          simp only [hresult, hr, h, h']
        · intro r r' l h h'
          simp only [hresult, hr, h, h']
          simp

/-- The codes of the links a gRPC response lists. -/
def listedMessages : Except (Failure Grpc.Status) Grpc.ListLinksResponse → Option (List String)
  | .ok response => some (response.links.map Grpc.GetLinkResponse.code)
  | .error _ => none

omit [LawfulLinkRepository R] in
theorem grpcListLinks_purged [PurgeListing R] (req : Grpc.ListLinksRequest) (r : R) :
    ((Grpc.listLinks now req).run (uncached stats (purged now r))).1 =
      ((Grpc.listLinks now req).run (uncached stats r)).1 ↔
    ¬ PurgeListing.SeesPurge now (Grpc.pageSize req.pageSize)
      (Grpc.tokenCursor req.pageToken) r := by
  have hcodes : ∀ out : Option (Except RepoError ListPage),
      listedMessages (Grpc.pageAnswer out) = listedCodes out := by
    intro out
    cases out with
    | none => rfl
    | some page =>
        cases page with
        | error e => rfl
        | ok page => exact congrArg some (List.map_map ..)
  simp only [Grpc.run_listLinks, uncached]
  exact pageAnswer_purged hcodes _ _ r

end Single

/-- **Seeing the cleaner**: without a cache, the answer to a request is the same
whether or not a purge has just run exactly when `SeesPurge` does not hold. -/
theorem answer_purged_iff [PurgeListing R] (crates : Crates) (stats : StatsStorage)
    (now : SystemTime) (r : R) (req : LinkRequest config) :
    answer crates now (uncached stats (purged now r)) req =
      answer crates now (uncached stats r) req ↔ ¬ SeesPurge crates now r req := by
  cases req with
  | http requestId req =>
      rw [answer, answer, Answer.http.injEq]
      cases req with
      | createLink draw req => exact createLink_purged draw req r
      | updateLink code req => exact updateLink_purged req r
      | getLink code => exact getLink_purged r
      | listLinks limit cursor => exact listLinks_purged limit cursor r
      | redirect code => exact iff_of_true (redirect_purged r) id
      | deleteLink code => exact deleteLink_purged r
      | getLinkStats code => exact iff_of_true (getLinkStats_purged r) id
      | getTopStats limit => exact iff_of_true rfl id
  | grpcGetLink req =>
      rw [answer, answer, Answer.grpcGetLink.injEq]
      exact grpcGetLink_purged r
  | grpcCreateLink generated req =>
      rw [answer, answer, Answer.grpcCreateLink.injEq]
      exact grpcCreateLink_purged generated req r
  | grpcListLinks req =>
      rw [answer, answer, Answer.grpcListLinks.injEq]
      exact grpcListLinks_purged req r

/-- A store with one link that was created for a minute. -/
def minuteLink : InMemoryRepo :=
  (Api.serve Api.oneUrl .UNIX_EPOCH none (.createLink (fun _ => Api.letterA)
    ⟨"https://example.com/", some "promo2026", some 60⟩ : Api.Request ⟨1, 1⟩)
    (uncached .new .new)).2.repo

/-- A read of that link. -/
def readMinuteLink : Api.Request ⟨1, 1⟩ := .getLink "promo2026"

/-- After that minute a read answers the link until the cleaner has run, and 404
from then on. -/
theorem answer_purged_minuteLink :
    answer Api.oneUrl (.ofSecs 60) (uncached .new (purged (.ofSecs 60) minuteLink))
        (.http none readMinuteLink) ≠
      answer Api.oneUrl (.ofSecs 60) (uncached .new minuteLink) (.http none readMinuteLink) := by
  intro h
  rw [answer, answer, Answer.http.injEq] at h
  have hpurged : (Api.serve Api.oneUrl (.ofSecs 60) none readMinuteLink
      (uncached .new (purged (.ofSecs 60) minuteLink))).1.map Response.status = some 404 := by decide
  have hstored : (Api.serve Api.oneUrl (.ofSecs 60) none readMinuteLink
      (uncached .new minuteLink)).1.map Response.status = some 200 := by decide
  rw [h, hstored] at hpurged
  cases hpurged

end Service

end Shorty
