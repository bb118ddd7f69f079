import Shorty.Api.Handlers

/-!
# Shorty.Api.Spec

What each HTTP handler does over a lawful repository, executed with nothing in
between: its answer and the state it leaves, by the case of the stored link it
meets.  Later proofs cite these lemmas and do not open the handlers again.
-/

namespace Shorty

namespace Api

open LawfulLinkRepository (find missing refusal taken admitsTarget updateMissing)

variable {R : Type} [LinkRepository R] [LawfulLinkRepository R] {config : Config} {crates : Crates}
  {now : SystemTime} {s : AppState R} {code : String} {l : LinkStats}

/-! ## reading a link -/

/-- The state after a `GET` on the cache. -/
def afterGet (s : AppState R) (code : String) : AppState R :=
  { s with cache := (s.cache.get (linkKey code)).2 }

omit [LawfulLinkRepository R] in
theorem run_getLink_hit {cached : LinkResponse}
    (h : (s.cache.get (linkKey code)).1 = some cached) :
    (getLink code).run s = (.ok (.ok (.link cached)), afterGet s code) := by
  have hcall : AppState.exec (.cacheGet (linkKey code)) s = (some cached, afterGet s code) :=
    Prod.ext h rfl
  simp [getLink, hcall]

theorem run_getLink_miss (hmiss : (s.cache.get (linkKey code)).1 = none)
    (h : find s.repo code = some l) :
    (getLink code).run s = (.ok (.ok (.link (.ofLinkStats l))),
      { s with cache := (afterGet s code).cache.set (linkKey code) (.ofLinkStats l) }) := by
  have hcall : AppState.exec (.cacheGet (linkKey code)) s = (none, afterGet s code) :=
    Prod.ext hmiss rfl
  have hstats : AppState.exec (.stats code) (afterGet s code) = (.ok l, afterGet s code) :=
    AppState.exec_stats_of_find h
  simp [getLink, hcall, hstats, ofRepo]
  rfl

theorem run_getLink_absent (hmiss : (s.cache.get (linkKey code)).1 = none)
    (h : find s.repo code = none) :
    (getLink code).run s =
      (.error (.error (.ofRepoError (missing R code))), afterGet s code) := by
  have hcall : AppState.exec (.cacheGet (linkKey code)) s = (none, afterGet s code) :=
    Prod.ext hmiss rfl
  have hstats : AppState.exec (.stats code) (afterGet s code) =
      (.error (missing R code), afterGet s code) := AppState.exec_stats_of_absent h
  simp [getLink, hcall, hstats, ofRepo]

/-! ## following a link -/

theorem run_redirect_absent (h : find s.repo code = none) :
    (redirect now code).run s = (.error (.error (.ofRepoError (missing R code))), s) := by
  simp [redirect, AppState.exec_get_of_absent h, ofRepo]

theorem run_redirect_expired (h : find s.repo code = some l) (hexp : l.link.isExpired now = true) :
    (redirect now code).run s = (.error (.error .notFound), s) := by
  simp [redirect, AppState.exec_get_of_find h, ofRepo, hexp]

theorem run_redirect_live (h : find s.repo code = some l) (hexp : l.link.isExpired now = false) :
    (redirect now code).run s = (.ok (.temporaryRedirect l.link.targetUrl),
      { s with
        repo := (LinkRepository.recordHit now code s.repo).2
        cache := s.cache.invalidate (linkKey code) }) := by
  simp [redirect, AppState.exec_get_of_find h, ofRepo, hexp, AppState.exec_recordHit_of_find now h]
  rfl

/-! ## deleting a link -/

theorem run_deleteLink_absent (h : find s.repo code = none) :
    (deleteLink code).run s = (.error (.error (.ofRepoError (missing R code))), s) := by
  simp [deleteLink, AppState.exec_remove_of_absent h, ofRepo]

theorem run_deleteLink_found (h : find s.repo code = some l) :
    (deleteLink code).run s = (.ok ⟨204, [], .empty⟩,
      { s with
        repo := (LinkRepository.remove code s.repo).2
        cache := s.cache.invalidate (linkKey code) }) := by
  simp [deleteLink, AppState.exec_remove_of_find h, ofRepo]
  rfl

/-! ## updating a link -/

variable {req : UpdateLinkRequest} {url : Url}

omit [LawfulLinkRepository R] in
theorem run_updateLink_invalid {e : AppError}
    (h : parseTargetUrl crates.url req.targetUrl = .error e) :
    (updateLink crates now code req).run s = (.error (.error e), s) := by
  simp [updateLink, h]

omit [LawfulLinkRepository R] in
/-- An update the repository refuses is answered with its error. -/
theorem run_updateLink_error (h : parseTargetUrl crates.url req.targetUrl = .ok url)
    {e : RepoError} {r : R}
    (hup : LinkRepository.update now code url.asStr req.version s.repo = (.error e, r)) :
    (updateLink crates now code req).run s =
      (.error (.error (.ofRepoError e)), { s with repo := r }) := by
  have hcall : AppState.exec (.update now code url.asStr req.version) s =
      (.error e, { s with repo := r }) := by
    rw [AppState.exec, hup]
    rfl
  simp [updateLink, h, hcall, ofRepo]

omit [LawfulLinkRepository R] in
theorem run_updateLink_ok (h : parseTargetUrl crates.url req.targetUrl = .ok url)
    {link : ShortLink} {r : R}
    (hup : LinkRepository.update now code url.asStr req.version s.repo = (.ok link, r)) :
    (updateLink crates now code req).run s = (.ok (.ok (.link (.ofShortLink link))),
      { s with repo := r, cache := s.cache.invalidate (linkKey code) }) := by
  have hcall : AppState.exec (.update now code url.asStr req.version) s =
      (.ok link, { s with repo := r }) := by
    rw [AppState.exec, hup]
    rfl
  simp [updateLink, h, hcall, ofRepo]
  rfl

/-! ## creating a link -/

/-- The link a create request inserts. -/
def newLink (now : SystemTime) (targetUrl : String) (expiresAt : Option SystemTime)
    (code : String) : ShortLink :=
  { ShortLink.new now code targetUrl with expiresAt := expiresAt }

theorem tryInsertLink_eq (targetUrl : String) (expiresAt : Option SystemTime) (code : String) :
    tryInsertLink now targetUrl expiresAt code =
      Handler.ask (.insert now (newLink now targetUrl expiresAt code)) := by
  cases expiresAt <;> rfl

section Insert

variable {targetUrl : String} {expiresAt : Option SystemTime} {codes : List String}

omit [LawfulLinkRepository R] in
/-- An attempt at inserting is one call. -/
theorem run_tryInsertLink {answer : Except RepoError Unit} {s' : AppState R}
    (h : AppState.exec (.insert now (newLink now targetUrl expiresAt code)) s = (answer, s')) :
    (tryInsertLink now targetUrl expiresAt code).run s = (.ok answer, s') := by
  rw [tryInsertLink_eq]
  exact congrArg (fun out => (Except.ok out.1, out.2)) h

theorem run_tryInsertLink_free
    (hr : refusal R (newLink now targetUrl expiresAt code) = none) (h : find s.repo code = none) :
    (tryInsertLink now targetUrl expiresAt code).run s =
      (.ok (.ok ()), { s with repo := inserted s.repo now (newLink now targetUrl expiresAt code) }) := by
  exact run_tryInsertLink (AppState.exec_insert_free now hr h)

theorem run_tryInsertLink_taken
    (hr : refusal R (newLink now targetUrl expiresAt code) = none) (h : find s.repo code = some l) :
    (tryInsertLink now targetUrl expiresAt code).run s = (.ok (.error (taken R code)), s) := by
  exact run_tryInsertLink (AppState.exec_insert_taken now hr h)

theorem run_tryInsertLink_refused {e : RepoError}
    (hr : refusal R (newLink now targetUrl expiresAt code) = some e) :
    (tryInsertLink now targetUrl expiresAt code).run s = (.ok (.error e), s) := by
  exact run_tryInsertLink (AppState.exec_insert_refused now hr)

omit [LawfulLinkRepository R] in
theorem run_tryCodes_nil : (tryCodes config now targetUrl expiresAt []).run s =
    (.error (.error (.internal ("failed to generate a unique code in " ++
      toString config.maxGenerateAttempts ++ " attempts"))), s) := rfl

theorem run_tryCodes_free (hr : refusal R (newLink now targetUrl expiresAt code) = none)
    (h : find s.repo code = none) :
    (tryCodes config now targetUrl expiresAt (code :: codes)).run s =
      (.ok code, { s with repo := inserted s.repo now (newLink now targetUrl expiresAt code) }) := by
  rw [tryCodes, Handler.run_bind, run_tryInsertLink_free hr h]
  rfl

theorem run_tryCodes_taken (hr : refusal R (newLink now targetUrl expiresAt code) = none)
    (h : find s.repo code = some l) :
    (tryCodes config now targetUrl expiresAt (code :: codes)).run s =
      (tryCodes config now targetUrl expiresAt codes).run s := by
  obtain ⟨message, htaken⟩ := LawfulLinkRepository.taken_eq (R := R) code
  rw [tryCodes, Handler.run_bind, run_tryInsertLink_taken hr h, htaken]

theorem run_tryCodes_refused {e : RepoError}
    (hr : refusal R (newLink now targetUrl expiresAt code) = some e) :
    (tryCodes config now targetUrl expiresAt (code :: codes)).run s =
      (.error (.error (.ofRepoError e)), s) := by
  have hne := fun message => LawfulLinkRepository.refusal_ne (R := R) message hr
  rw [tryCodes, Handler.run_bind, run_tryInsertLink_refused hr]
  cases e with
  | codeTaken message => exact absurd rfl (hne message)
  | _ => rfl

/-- Trying codes inserts under the first one, or fails and changes nothing. -/
theorem run_tryCodes (codes : List String) (s : AppState R) :
    (∃ code ∈ codes, refusal R (newLink now targetUrl expiresAt code) = none ∧
      find s.repo code = none ∧ (tryCodes config now targetUrl expiresAt codes).run s =
        (.ok code, { s with repo := inserted s.repo now (newLink now targetUrl expiresAt code) })) ∨
    ∃ e, (tryCodes config now targetUrl expiresAt codes).run s = (.error (.error e), s) := by
  induction codes with
  | nil => exact Or.inr ⟨_, run_tryCodes_nil⟩
  | cons code codes ih =>
      cases hr : refusal R (newLink now targetUrl expiresAt code) with
      | some e => exact Or.inr ⟨_, run_tryCodes_refused hr⟩
      | none =>
          cases h : find s.repo code with
          | none =>
              exact Or.inl ⟨code, List.mem_cons_self, hr, h, run_tryCodes_free hr h⟩
          | some l =>
              rw [run_tryCodes_taken hr h]
              rcases ih with ⟨code', hmem, hcase⟩ | hfail
              · exact Or.inl ⟨code', List.mem_cons_of_mem code hmem, hcase⟩
              · exact Or.inr hfail

/-- Where no link is refused, trying codes of which one is free succeeds. -/
theorem run_tryCodes_of_free
    (hr : ∀ code ∈ codes, refusal R (newLink now targetUrl expiresAt code) = none)
    (hfree : ∃ code ∈ codes, find s.repo code = none) :
    ∃ code ∈ codes, find s.repo code = none ∧ (tryCodes config now targetUrl expiresAt codes).run s =
      (.ok code, { s with repo := inserted s.repo now (newLink now targetUrl expiresAt code) }) := by
  induction codes with
  | nil => simp at hfree
  | cons code codes ih =>
      obtain ⟨hcode, hcodes⟩ := List.forall_mem_cons.mp hr
      cases h : find s.repo code with
      | none => exact ⟨code, List.mem_cons_self, h, run_tryCodes_free hcode h⟩
      | some l =>
          rw [run_tryCodes_taken hcode h]
          have hrest : ∃ code' ∈ codes, find s.repo code' = none := by
            simpa [h] using hfree
          obtain ⟨code', hmem, hnone, hrun⟩ := ih hcodes hrest
          exact ⟨code', List.mem_cons_of_mem code hmem, hnone, hrun⟩

end Insert

/-- What a create request is checked for before the store is touched: its URL,
then its time to live, then its code. -/
def validateCreate (crates : Crates) (now : SystemTime) (req : CreateLinkRequest) :
    Except (Failure AppError) (Url × Option SystemTime) :=
  match parseTargetUrl crates.url req.targetUrl with
  | .error e => .error (.error e)
  | .ok url =>
      match expiresAtFromTtl now req.ttlSeconds with
      | none => .error .panicked
      | some (.error e) => .error (.error e)
      | some (.ok expiresAt) =>
          match req.customCode with
          | none => .ok (url, expiresAt)
          | some code =>
              match validateCustomCode code with
              | .error e => .error (.error e)
              | .ok () => .ok (url, expiresAt)

/-- A create request passes exactly when each of its three checks does. -/
theorem validateCreate_eq_ok_iff {creq : CreateLinkRequest} {checked : Url × Option SystemTime} :
    validateCreate crates now creq = .ok checked ↔
      parseTargetUrl crates.url creq.targetUrl = .ok checked.1 ∧
        expiresAtFromTtl now creq.ttlSeconds = some (.ok checked.2) ∧
        ∀ custom, creq.customCode = some custom → validateCustomCode custom = .ok () := by
  obtain ⟨url, expiresAt⟩ := checked
  unfold validateCreate
  cases parseTargetUrl crates.url creq.targetUrl with
  | error e => simp
  | ok url' =>
      cases expiresAtFromTtl now creq.ttlSeconds with
      | none => simp
      | some expiry =>
          cases expiry with
          | error e => simp
          | ok expiresAt' =>
              cases creq.customCode with
              | none => simp
              | some custom => cases hvalid : validateCustomCode custom <;> simp [hvalid]

/-- A chosen code has passed its check. -/
theorem validateCustomCode_of_validateCreate {creq : CreateLinkRequest}
    {checked : Url × Option SystemTime} {custom : String}
    (h : validateCreate crates now creq = .ok checked) (hcustom : creq.customCode = some custom) :
    validateCustomCode custom = .ok () :=
  (validateCreate_eq_ok_iff.mp h).2.2 custom hcustom

/-- The URL has passed its check. -/
theorem parseTargetUrl_of_validateCreate {creq : CreateLinkRequest}
    {checked : Url × Option SystemTime} (h : validateCreate crates now creq = .ok checked) :
    parseTargetUrl crates.url creq.targetUrl = .ok checked.1 :=
  (validateCreate_eq_ok_iff.mp h).1

/-- The part of a create request that touches the store: the code is stored ... -/
def storeLink (config : Config) (now : SystemTime) (draw : Nat → Nanoid config.codeLength)
    (customCode : Option String) (targetUrl : String) (expiresAt : Option SystemTime) :
    Handler AppError String :=
  match customCode with
  | some code => do
      insertLink now targetUrl expiresAt code
      pure code
  | none => generateCode config now targetUrl expiresAt draw

/-- ... and shown. -/
def showCreated (code : String) : Handler AppError Response := do
  let stats ← ofRepo (← Handler.ask (.stats code))
  return .created ("/api/v1/links/" ++ code) (.link (.ofLinkStats stats))

variable {draw : Nat → Nanoid config.codeLength} {creq : CreateLinkRequest}

/-- A create request is its checks, and then the store. -/
theorem createLink_eq : createLink config crates now draw creq =
    match validateCreate crates now creq with
    | .error failure => throw failure
    | .ok (targetUrl, expiresAt) =>
        storeLink config now draw creq.customCode targetUrl.asStr expiresAt >>= showCreated := by
  rw [createLink, validateCreate]
  cases parseTargetUrl crates.url creq.targetUrl with
  | error e => rfl
  | ok url =>
      cases expiresAtFromTtl now creq.ttlSeconds with
      | none => rfl
      | some expiry =>
          cases expiry with
          | error e => rfl
          | ok expiresAt =>
              cases hcustom : creq.customCode with
              | none => rfl
              | some code =>
                  cases hcode : validateCustomCode code with
                  | error e =>
                      simp only [hcode]
                      rfl
                  | ok u =>
                      simp only [hcode, storeLink, insertLink, tryInsertLink_eq]
                      show Proc.call _ _ = Proc.call _ _
                      congr 1
                      funext answer
                      cases answer <;> rfl

omit [LawfulLinkRepository R] in
theorem run_createLink (s : AppState R) : (createLink config crates now draw creq).run s =
    match validateCreate crates now creq with
    | .error failure => (.error failure, s)
    | .ok (targetUrl, expiresAt) =>
        (storeLink config now draw creq.customCode targetUrl.asStr expiresAt >>= showCreated).run s := by
  rw [createLink_eq]
  cases validateCreate crates now creq with
  | error failure => rfl
  | ok checked => rfl

theorem run_showCreated (h : find s.repo code = some l) : (showCreated code).run s =
    (.ok (.created ("/api/v1/links/" ++ code) (.link (.ofLinkStats l))), s) := by
  simp [showCreated, AppState.exec_stats_of_find h, ofRepo]

/-- The codes a create request tries. -/
def candidates (config : Config) (draw : Nat → Nanoid config.codeLength)
    (customCode : Option String) : List String :=
  match customCode with
  | some code => [code]
  | none => drawn config draw

theorem isCodeChar_of_nanoid {n : Nat} (id : Nanoid n) : ∀ c ∈ id.code.toList, isCodeChar c = true := by
  have halphabet : nanoidAlphabet.all isCodeChar = true := by decide
  exact fun c hc => List.all_eq_true.mp halphabet c (id.alphabet c hc)

theorem isHeaderValue_of_isCodeChar (h : ∀ c ∈ code.toList, isCodeChar c = true) :
    isHeaderValue code = true := by
  rw [isHeaderValue, List.all_eq_true]
  intro c hc
  obtain ⟨hlow, hhigh⟩ := toNat_of_isCodeChar (h c hc)
  have hrange : 0x20 ≤ c.toNat ∧ c.toNat ≠ 0x7f := by omega
  simp [hrange]

/-- The path of a created link can be a location. -/
theorem status_created (h : ∀ c ∈ code.toList, isCodeChar c = true) (body : Body) :
    (Response.created ("/api/v1/links/" ++ code) body).status = 201 := by
  have hprefix : isHeaderValue "/api/v1/links/" = true := by decide
  have hcode : isHeaderValue code = true := isHeaderValue_of_isCodeChar h
  have hvalue : isHeaderValue ("/api/v1/links/" ++ code) = true := by
    unfold isHeaderValue at hprefix hcode ⊢
    rw [String.toList_append, List.all_append, hprefix, hcode]
    rfl
  simp [Response.created, hvalue]

/-- The code a create request stores has code characters only. -/
theorem isCodeChar_of_candidate {checked : Url × Option SystemTime}
    (hv : validateCreate crates now creq = .ok checked)
    (hmem : code ∈ candidates config draw creq.customCode) :
    ∀ c ∈ code.toList, isCodeChar c = true := by
  cases hcustom : creq.customCode with
  | none =>
      rw [hcustom, candidates, drawn] at hmem
      obtain ⟨i, _, rfl⟩ := List.mem_map.mp hmem
      exact isCodeChar_of_nanoid (draw i)
  | some custom =>
      rw [hcustom, candidates, List.mem_singleton] at hmem
      rw [hmem]
      have hvalid := validateCustomCode_of_validateCreate hv hcustom
      exact (validateCustomCode_eq_ok_iff.mp hvalid).2

section Store

variable {targetUrl : String} {expiresAt : Option SystemTime}

theorem run_storeLink_free (hr : refusal R (newLink now targetUrl expiresAt code) = none)
    (h : find s.repo code = none) :
    (storeLink config now draw (some code) targetUrl expiresAt).run s =
      (.ok code, { s with repo := inserted s.repo now (newLink now targetUrl expiresAt code) }) := by
  rw [storeLink, insertLink]
  simp only [Handler.run_bind, run_tryInsertLink_free hr h]
  rfl

theorem run_storeLink_taken (hr : refusal R (newLink now targetUrl expiresAt code) = none)
    (h : find s.repo code = some l) :
    (storeLink config now draw (some code) targetUrl expiresAt).run s =
      (.error (.error (.ofRepoError (taken R code))), s) := by
  rw [storeLink, insertLink]
  simp only [Handler.run_bind, run_tryInsertLink_taken hr h]
  rfl

theorem run_storeLink_refused {e : RepoError}
    (hr : refusal R (newLink now targetUrl expiresAt code) = some e) :
    (storeLink config now draw (some code) targetUrl expiresAt).run s =
      (.error (.error (.ofRepoError e)), s) := by
  rw [storeLink, insertLink]
  simp only [Handler.run_bind, run_tryInsertLink_refused hr]
  rfl

/-- Storing a link stores it under a candidate that was free, or fails and
changes nothing. -/
theorem run_storeLink (now : SystemTime) (draw : Nat → Nanoid config.codeLength)
    (customCode : Option String) (targetUrl : String)
    (expiresAt : Option SystemTime) (s : AppState R) :
    (∃ code ∈ candidates config draw customCode,
      refusal R (newLink now targetUrl expiresAt code) = none ∧ find s.repo code = none ∧
      (storeLink config now draw customCode targetUrl expiresAt).run s =
        (.ok code, { s with repo := inserted s.repo now (newLink now targetUrl expiresAt code) })) ∨
    ∃ e, (storeLink config now draw customCode targetUrl expiresAt).run s =
      (.error (.error e), s) := by
  cases customCode with
  | none => exact run_tryCodes (drawn config draw) s
  | some code =>
      cases hr : refusal R (newLink now targetUrl expiresAt code) with
      | some e => exact Or.inr ⟨_, run_storeLink_refused hr⟩
      | none =>
          cases h : find s.repo code with
          | none =>
              exact Or.inl ⟨code, List.mem_singleton_self code, hr, h, run_storeLink_free hr h⟩
          | some l => exact Or.inr ⟨_, run_storeLink_taken hr h⟩

/-- Where no link is refused, storing a link succeeds if a candidate is free. -/
theorem run_storeLink_of_free (now : SystemTime) (targetUrl : String)
    (expiresAt : Option SystemTime) {customCode : Option String}
    (hr : ∀ code ∈ candidates config draw customCode,
      refusal R (newLink now targetUrl expiresAt code) = none)
    (hfree : ∃ code ∈ candidates config draw customCode, find s.repo code = none) :
    ∃ code ∈ candidates config draw customCode, find s.repo code = none ∧
      (storeLink config now draw customCode targetUrl expiresAt).run s =
        (.ok code, { s with repo := inserted s.repo now (newLink now targetUrl expiresAt code) }) := by
  cases customCode with
  | none => exact run_tryCodes_of_free hr hfree
  | some code =>
      obtain ⟨code', hmem, hnone⟩ := hfree
      obtain rfl := List.mem_singleton.mp hmem
      exact ⟨code', hmem, hnone, run_storeLink_free (hr code' hmem) hnone⟩

end Store

/-- A create request fails and changes nothing, or inserts under a free candidate
and shows what it stored. -/
theorem run_createLink_cases (crates : Crates) (now : SystemTime)
    (draw : Nat → Nanoid config.codeLength) (creq : CreateLinkRequest) (s : AppState R) :
    (∃ targetUrl expiresAt code, validateCreate crates now creq = .ok (targetUrl, expiresAt) ∧
      code ∈ candidates config draw creq.customCode ∧
      refusal R (newLink now targetUrl.asStr expiresAt code) = none ∧ find s.repo code = none ∧
      (createLink config crates now draw creq).run s =
        (.ok (.created ("/api/v1/links/" ++ code)
          (.link (.ofLinkStats (storedLink s.repo now (newLink now targetUrl.asStr expiresAt code))))),
        { s with repo := inserted s.repo now (newLink now targetUrl.asStr expiresAt code) })) ∨
    ∃ failure, (createLink config crates now draw creq).run s = (.error failure, s) := by
  rw [run_createLink]
  cases hv : validateCreate crates now creq with
  | error failure => exact Or.inr ⟨failure, rfl⟩
  | ok checked =>
      obtain ⟨targetUrl, expiresAt⟩ := checked
      simp only [Handler.run_bind]
      rcases run_storeLink now draw creq.customCode targetUrl.asStr expiresAt s
        with ⟨code, hmem, hr, hfree, hrun⟩ | ⟨e, hrun⟩
      · left
        refine ⟨targetUrl, expiresAt, code, rfl, hmem, hr, hfree, ?_⟩
        have hstored : find (inserted s.repo now (newLink now targetUrl.asStr expiresAt code)) code =
            some (storedLink s.repo now (newLink now targetUrl.asStr expiresAt code)) :=
          find_inserted_self now hr hfree
        rw [hrun]
        exact run_showCreated hstored
      · right
        exact ⟨_, by rw [hrun]⟩

/-! ## listings and statistics -/

/-- A cursor comes back from its text where base64 and JSON bring it back. -/
theorem decodeCursor_encodeCursor {cursor : String × String}
    (hbase : ∀ bytes, crates.base64Decode (crates.base64Encode bytes) = some bytes)
    (hjson : crates.jsonFromStr (crates.jsonToString cursor) = some cursor) :
    decodeCursor crates (encodeCursor crates cursor) = some cursor := by
  have htext : String.fromUTF8? (crates.jsonToString cursor).toUTF8 =
      some (crates.jsonToString cursor) := by
    rw [String.fromUTF8?, String.toUTF8_eq_toByteArray,
      dif_pos (crates.jsonToString cursor).isValidUTF8]
    rfl
  unfold decodeCursor encodeCursor
  rw [hbase, Option.bind_eq_bind, Option.bind_some, htext]
  exact hjson

/-- The answer of a listing to a page of the repository. -/
def pageAnswer (crates : Crates) : Option (Except RepoError ListPage) → Except (Failure AppError) Response
  | some (.ok page) => .ok (.ok (.links
      { links := page.1.map LinkResponse.ofShortLink
        nextCursor := page.2.map (encodeCursor crates) }))
  | some (.error e) => .error (.error (.ofRepoError e))
  | none => .error .panicked

omit [LawfulLinkRepository R] in
theorem run_listLinks (crates : Crates) (now : SystemTime) (limit cursor : Option String)
    (s : AppState R) : (listLinks crates now limit cursor).run s =
      (pageAnswer crates
        (LinkRepository.list now (listLimit limit) (cursor.bind (decodeCursor crates)) s.repo).1,
      { s with
        repo := (LinkRepository.list now (listLimit limit) (cursor.bind (decodeCursor crates))
          s.repo).2 }) := by
  have hcall : AppState.exec (.list now (listLimit limit) (cursor.bind (decodeCursor crates))) s =
      s.withRepo (LinkRepository.list now (listLimit limit) (cursor.bind (decodeCursor crates))
        s.repo) := rfl
  rw [listLinks]
  simp only [Handler.run_ask_bind, hcall, AppState.withRepo]
  cases (LinkRepository.list now (listLimit limit) (cursor.bind (decodeCursor crates)) s.repo).1 with
  | none => simp [pageAnswer]
  | some page => cases page <;> simp [ofRepo, pageAnswer]

theorem run_listLinks_state (limit cursor : Option String) :
    ((listLinks crates now limit cursor).run s).2 = s := by
  rw [run_listLinks, LawfulLinkRepository.list_unchanged]

theorem run_getLinkStats_absent (h : find s.repo code = none) :
    (getLinkStats now code).run s = (.error (.error (.ofRepoError (missing R code))), s) := by
  simp [getLinkStats, AppState.exec_get_of_absent h, ofRepo]

theorem run_getLinkStats_expired (h : find s.repo code = some l)
    (hexp : l.link.isExpired now = true) :
    (getLinkStats now code).run s = (.error (.error .notFound), s) := by
  simp [getLinkStats, AppState.exec_get_of_find h, ofRepo, hexp]

theorem run_getLinkStats_live (h : find s.repo code = some l)
    (hexp : l.link.isExpired now = false) :
    (getLinkStats now code).run s = (.ok (.ok (.linkStats
      { code := code
        totalHits := ((s.statsStorage.get code).map SlidingWindowStats.getTotal).getD 0
        hitsLast60s := ((s.statsStorage.get code).map
          (SlidingWindowStats.getLast60s · now)).getD 0 })), s) := by
  have hwindow : AppState.exec (.window code) s = (s.statsStorage.get code, s) := rfl
  simp [getLinkStats, AppState.exec_get_of_find h, ofRepo, hexp, hwindow]

theorem run_getLinkStats_state : ((getLinkStats now code).run s).2 = s := by
  cases h : find s.repo code with
  | none => rw [run_getLinkStats_absent h]
  | some l =>
      cases hexp : l.link.isExpired now with
      | true => rw [run_getLinkStats_expired h hexp]
      | false => rw [run_getLinkStats_live h hexp]

omit [LawfulLinkRepository R] in
theorem run_getTopStats_state (limit : Nat) : ((getTopStats limit).run s).2 = s := by
  simp [getTopStats, AppState.exec]

end Api

end Shorty
