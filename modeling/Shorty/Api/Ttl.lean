import Shorty.Api.Spec

/-!
# Shorty.Api.Ttl

Create requests with a time to live, over the in-memory store.  A request may ask for
any 64-bit number of seconds, and the handler adds it to the clock unchecked: the
request is served exactly when the sum is an instant of the clock, or the number is too
small to be added at all.
-/

namespace Shorty

namespace Api

open LawfulLinkRepository (find refusal)

variable {config : Config} {crates : Crates} {now : SystemTime}
  {draw : Nat → Nanoid config.codeLength} {req : CreateLinkRequest} {url : Url} {ttl : Nat}
  {s : AppState InMemoryRepo}

/-! ## the time to live -/

/-- The checks of a request that is valid up to its time to live. -/
theorem validateCreate_of_valid (now : SystemTime)
    (hurl : parseTargetUrl crates.url req.targetUrl = .ok url)
    (hcode : ∀ code, req.customCode = some code → validateCustomCode code = .ok ()) :
    validateCreate crates now req =
      match expiresAtFromTtl now req.ttlSeconds with
      | none => .error .panicked
      | some (.error e) => .error (.error e)
      | some (.ok expiresAt) => .ok (url, expiresAt) := by
  rw [validateCreate, hurl]
  cases expiresAtFromTtl now req.ttlSeconds with
  | none => rfl
  | some expiry =>
      cases expiry with
      | error e => rfl
      | ok expiresAt =>
          cases hcustom : req.customCode with
          | none => rfl
          | some code => simp only [hcode code hcustom]

/-! ## creating a link -/

/-- How a request with a time to live has to end: in a validation error that stores
nothing, or with a link under a code that was free, expiring `ttl` seconds from now. -/
def ServesTtl (config : Config) (crates : Crates) (now : SystemTime)
    (draw : Nat → Nanoid config.codeLength) (req : CreateLinkRequest) (ttl : Nat)
    (s : AppState InMemoryRepo) : Prop :=
  let out := (createLink config crates now draw req).run s
  (∃ message details, out = (.error (.error (.validation message details)), s)) ∨
    ∃ response, out.1 = .ok response ∧ response.status = 201 ∧
      ∃ code ∈ candidates config draw req.customCode, find s.repo code = none ∧
        ∃ l, find out.2.repo code = some l ∧
          ∃ t, l.link.expiresAt = some t ∧ t.ns = now.ns + ttl * 10 ^ 9

/-- A request that passes its checks is stored with the expiry they computed. -/
theorem run_createLink_of_free {expiresAt : Option SystemTime}
    (hv : validateCreate crates now req = .ok (url, expiresAt))
    (hfree : ∃ code ∈ candidates config draw req.customCode, find s.repo code = none) :
    ∃ response s', (createLink config crates now draw req).run s = (.ok response, s') ∧
      response.status = 201 ∧
      ∃ code ∈ candidates config draw req.customCode, find s.repo code = none ∧
        ∃ l, find s'.repo code = some l ∧ l.link.expiresAt = expiresAt := by
  obtain ⟨code, hmem, hnone, hrun⟩ := run_storeLink_of_free now url.asStr expiresAt
    (fun _ _ => rfl) hfree
  have hr : refusal InMemoryRepo (newLink now url.asStr expiresAt code) = none := rfl
  have hstored : find (inserted s.repo now (newLink now url.asStr expiresAt code)) code =
      some (storedLink s.repo now (newLink now url.asStr expiresAt code)) :=
    find_inserted_self now hr hnone
  have hexp : (storedLink s.repo now (newLink now url.asStr expiresAt code)).link.expiresAt =
      expiresAt := rfl
  have hcreate : (createLink config crates now draw req).run s =
      (.ok (.created ("/api/v1/links/" ++ code)
        (.link (.ofLinkStats (storedLink s.repo now (newLink now url.asStr expiresAt code))))),
      { s with repo := inserted s.repo now (newLink now url.asStr expiresAt code) }) := by
    rw [run_createLink, hv]
    simp only [Handler.run_bind, hrun]
    exact run_showCreated hstored
  exact ⟨_, _, hcreate, status_created (isCodeChar_of_candidate hv hmem) _, code, hmem, hnone, _,
    hstored, hexp⟩

/-- **Time to live**: a request that is valid otherwise and has a free code is served
exactly when its time to live is refused or can be added to the clock. -/
theorem servesTtl_iff (config : Config) (crates : Crates) (now : SystemTime)
    (draw : Nat → Nanoid config.codeLength) (req : CreateLinkRequest) (ttl : Nat)
    (s : AppState InMemoryRepo) (url : Url) (httl : req.ttlSeconds = some ttl)
    (hurl : parseTargetUrl crates.url req.targetUrl = .ok url)
    (hcode : ∀ code, req.customCode = some code → validateCustomCode code = .ok ())
    (hfree : ∃ code ∈ candidates config draw req.customCode, find s.repo code = none) :
    ServesTtl config crates now draw req ttl s ↔
      ttl < 60 ∨ now.ns + ttl * 10 ^ 9 < 2 ^ 63 * 10 ^ 9 := by
  have hchecks := validateCreate_of_valid now hurl hcode
  rw [httl] at hchecks
  by_cases hshort : ttl < 60
  · obtain ⟨message, details, herr⟩ := expiresAtFromTtl_short now hshort
    rw [herr] at hchecks
    refine iff_of_true (Or.inl ⟨message, details, ?_⟩) (Or.inl hshort)
    rw [run_createLink, hchecks]
  · rw [expiresAtFromTtl_long hshort] at hchecks
    by_cases hsum : now.ns + ttl * 10 ^ 9 < 2 ^ 63 * 10 ^ 9
    · rw [SystemTime.addSecs, dif_pos hsum] at hchecks
      refine iff_of_true (Or.inr ?_) (Or.inr hsum)
      obtain ⟨response, s', hrun, hstatus, code, hmem, hnone, l, hl, hexp⟩ :=
        run_createLink_of_free hchecks hfree
      simp only [hrun]
      exact ⟨response, rfl, hstatus, code, hmem, hnone, l, hl, _, hexp, rfl⟩
    · rw [SystemTime.addSecs, dif_neg hsum] at hchecks
      have hrun : (createLink config crates now draw req).run s = (.error .panicked, s) := by
        rw [run_createLink, hchecks]
        rfl
      refine iff_of_false ?_ (not_or.mpr ⟨hshort, hsum⟩)
      rintro (⟨message, details, hout⟩ | ⟨response, hout, _⟩)
      · rw [hrun] at hout
        cases hout
      · rw [hrun] at hout
        cases hout

/-! ## at the ends of the range -/

/-- A request for a promotional code with a time to live. -/
def promoRequest (ttl : Nat) : CreateLinkRequest := ⟨"https://example.com/", some "promo2026", some ttl⟩

/-- The state of a server that has just started. -/
def freshState : AppState InMemoryRepo := ⟨.new, .new, .disabled⟩

theorem servesTtl_iff_minute :
    ServesTtl ⟨1, 1⟩ oneUrl .UNIX_EPOCH (fun _ => letterA) (promoRequest 60) 60 freshState ↔
      60 < 60 ∨ SystemTime.UNIX_EPOCH.ns + (60 : Nat) * 10 ^ 9 < 2 ^ 63 * 10 ^ 9 :=
  servesTtl_iff ⟨1, 1⟩ oneUrl .UNIX_EPOCH (fun _ => letterA) (promoRequest 60) 60 freshState
    _ rfl rfl (by rintro code hcode; cases hcode; rfl) ⟨"promo2026", by decide, rfl⟩

/-- The greatest time to live a request can ask for brings the handler down. -/
theorem not_servesTtl :
    ¬ ∀ (config : Config) (crates : Crates) (now : SystemTime)
      (draw : Nat → Nanoid config.codeLength) (req : CreateLinkRequest) (ttl : Nat)
      (s : AppState InMemoryRepo) (url : Url), ttl < 2 ^ 64 → req.ttlSeconds = some ttl →
      parseTargetUrl crates.url req.targetUrl = .ok url →
      (∀ code, req.customCode = some code → validateCustomCode code = .ok ()) →
      (∃ code ∈ candidates config draw req.customCode, find s.repo code = none) →
      ServesTtl config crates now draw req ttl s := by
  intro h
  have hserved := h ⟨1, 1⟩ oneUrl .UNIX_EPOCH (fun _ => letterA) (promoRequest (2 ^ 64 - 1))
    (2 ^ 64 - 1) freshState _ (by decide) rfl rfl (by rintro code hcode; cases hcode; rfl)
    ⟨"promo2026", by decide, rfl⟩
  have hrun : (createLink ⟨1, 1⟩ oneUrl .UNIX_EPOCH (fun _ => letterA)
      (promoRequest (2 ^ 64 - 1))).run freshState = (.error .panicked, freshState) := rfl
  rcases hserved with ⟨message, details, hout⟩ | ⟨response, hout, _⟩
  · rw [hrun] at hout
    cases hout
  · rw [hrun] at hout
    cases hout

end Api

end Shorty
