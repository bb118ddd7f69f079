import Shorty.Service

/-!
# Shorty.Service.Transports

The two ways to create a link under a chosen code, compared.  HTTP stores the
serialization of the URL it has parsed and the expiry of the time to live; gRPC
stores the URL as it is spelled and no expiry.
-/

namespace Shorty

/-- What a store does with a link whose code and target have been checked. -/
class AdmitsChecked (R : Type) [LinkRepository R] [LawfulLinkRepository R] : Prop where
  refusal_of_checked : ∀ link : ShortLink, isText link.code = true → isText link.targetUrl = true →
    4 ≤ link.code.length → link.code.length ≤ 32 → 0 < link.targetUrl.length →
    LawfulLinkRepository.refusal R link = none
  expiresAt_recorded : ∀ (now : SystemTime) (link : ShortLink),
    (LawfulLinkRepository.recorded R now link).expiresAt.isSome = link.expiresAt.isSome

instance : AdmitsChecked InMemoryRepo where
  refusal_of_checked _ _ _ _ _ _ := rfl
  expiresAt_recorded _ _ := rfl

instance (db : Database) : AdmitsChecked (PostgresRepo db) where
  refusal_of_checked := by
    intro link hcode htarget hmin hmax hne
    show PostgresRepo.insertRefusal link = none
    have hchecks : passesChecks link.code link.targetUrl = true := decide_eq_true ⟨hmin, hmax, hne⟩
    rw [PostgresRepo.insertRefusal, if_pos ⟨hcode, htarget⟩, if_pos hchecks]
  expiresAt_recorded := by
    intro now link
    show (link.expiresAt.map (PostgresRepo.expiresColumn now)).isSome = link.expiresAt.isSome
    rw [Option.isSome_map]

namespace Service

open LawfulLinkRepository (find)

variable {config : Config} {crates : Crates} {R : Type} [LinkRepository R] [LawfulLinkRepository R]
  {s : AppState R} {now : SystemTime} {draw : Nat → Nanoid config.codeLength}
  {generated : Grpc.ShortUuid} {raw code : String} {ttl : Option Nat}

/-- A create request with a chosen code, over HTTP ... -/
def httpCreate (crates : Crates) (now : SystemTime) (draw : Nat → Nanoid config.codeLength)
    (raw code : String) (ttl : Option Nat) (s : AppState R) :
    Except (Failure AppError) Response × AppState R :=
  (Api.createLink config crates now draw ⟨raw, some code, ttl⟩).run s

/-- ... and over gRPC, with the same values. -/
def grpcCreate (now : SystemTime) (generated : Grpc.ShortUuid) (raw code : String)
    (ttl : Option Nat) (s : AppState R) :
    Except (Failure Grpc.Status) Grpc.CreateLinkResponse × AppState R :=
  (Grpc.createLink now generated ⟨raw, some code, ttl.map Int.ofNat⟩).run s

/-- Both succeed or neither, and if they do they store the same link. -/
structure SameCreate (crates : Crates) (now : SystemTime) (draw : Nat → Nanoid config.codeLength)
    (generated : Grpc.ShortUuid) (raw code : String) (ttl : Option Nat) (s : AppState R) : Prop where
  success : (∃ response, (httpCreate crates now draw raw code ttl s).1 = .ok response ∧
      response.status = 201) ↔
    ∃ response, (grpcCreate now generated raw code ttl s).1 = .ok response
  stored : (∃ response, (httpCreate crates now draw raw code ttl s).1 = .ok response ∧
      response.status = 201) →
    ∃ l l', find (httpCreate crates now draw raw code ttl s).2.repo code = some l ∧
      find (grpcCreate now generated raw code ttl s).2.repo code = some l' ∧
      l.link.code = l'.link.code ∧ l.link.targetUrl = l'.link.targetUrl ∧
      l.link.expiresAt = l'.link.expiresAt

/-! ## what the checks say -/

/-- A create request with a chosen code that passes its checks. -/
theorem validateCreate_eq_ok {url : Url} {expiresAt : Option SystemTime}
    (h : Api.validateCreate crates now ⟨raw, some code, ttl⟩ = .ok (url, expiresAt)) :
    parseTargetUrl crates.url raw = .ok url ∧ expiresAt.isSome = ttl.isSome ∧
      validateCustomCode code = .ok () := by
  obtain ⟨hurl, hexpiry, hcode⟩ := Api.validateCreate_eq_ok_iff.mp h
  exact ⟨hurl, isSome_of_expiresAtFromTtl hexpiry, hcode code rfl⟩

/-- A checked code can be stored with any URL that has been parsed. -/
theorem refusal_newLink [AdmitsChecked R] (url : Url) (expiresAt : Option SystemTime)
    (h : validateCustomCode code = .ok ()) :
    LawfulLinkRepository.refusal R (Api.newLink now url.asStr expiresAt code) = none := by
  obtain ⟨hmin, hmax⟩ := length_of_validateCustomCode h
  have hchars := (validateCustomCode_eq_ok_iff.mp h).2
  have htext : isText code = true := by
    refine decide_eq_true (fun hmem => ?_)
    exact absurd (hchars _ hmem) (by decide)
  exact AdmitsChecked.refusal_of_checked _ htext (isText_asStr url) hmin hmax url.nonempty

/-- A text of code characters can be chosen over gRPC as it is. -/
theorem customCode_of_validateCustomCode {ttlSeconds : Option Int}
    (h : validateCustomCode code = .ok ()) : Grpc.customCode ⟨raw, some code, ttlSeconds⟩ = some code := by
  simp [Grpc.customCode, ne_empty_of_validateCustomCode h]

/-! ## the two creates -/

section Runs

variable {url : Url} {expiresAt : Option SystemTime}

/-- Over HTTP a request that passes its checks stores its link where the code is
free. -/
theorem httpCreate_free [AdmitsChecked R] (draw : Nat → Nanoid config.codeLength)
    (hv : Api.validateCreate crates now ⟨raw, some code, ttl⟩ = .ok (url, expiresAt))
    (hfree : find s.repo code = none) :
    httpCreate crates now draw raw code ttl s =
      (.ok (.created ("/api/v1/links/" ++ code)
        (.link (.ofLinkStats (storedLink s.repo now (Api.newLink now url.asStr expiresAt code))))),
      { s with repo := inserted s.repo now (Api.newLink now url.asStr expiresAt code) }) := by
  obtain ⟨_, _, hcode⟩ := validateCreate_eq_ok hv
  have hr : LawfulLinkRepository.refusal R (Api.newLink now url.asStr expiresAt code) = none :=
    refusal_newLink url expiresAt hcode
  have hstored : find (inserted s.repo now (Api.newLink now url.asStr expiresAt code)) code =
      some (storedLink s.repo now (Api.newLink now url.asStr expiresAt code)) :=
    find_inserted_self now hr hfree
  rw [httpCreate, Api.run_createLink, hv]
  simp only [Handler.run_bind, Api.run_storeLink_free hr hfree]
  exact Api.run_showCreated hstored

theorem httpCreate_taken [AdmitsChecked R] {l : LinkStats} (draw : Nat → Nanoid config.codeLength)
    (hv : Api.validateCreate crates now ⟨raw, some code, ttl⟩ = .ok (url, expiresAt))
    (htaken : find s.repo code = some l) :
    ∃ failure, httpCreate crates now draw raw code ttl s = (.error failure, s) := by
  obtain ⟨_, _, hcode⟩ := validateCreate_eq_ok hv
  have hr : LawfulLinkRepository.refusal R (Api.newLink now url.asStr expiresAt code) = none :=
    refusal_newLink url expiresAt hcode
  rw [httpCreate, Api.run_createLink, hv]
  simp only [Handler.run_bind, Api.run_storeLink_taken hr htaken]
  exact ⟨_, rfl⟩

/-- Over gRPC a link that is stored is spelled as in the request and has no expiry. -/
theorem grpcCreate_cases (now : SystemTime) (generated : Grpc.ShortUuid) (raw : String)
    (ttl : Option Nat) (hcode : validateCustomCode code = .ok ()) (s : AppState R) :
    (raw ≠ "" ∧ LawfulLinkRepository.refusal R (.new now code raw) = none ∧
      find s.repo code = none ∧ grpcCreate now generated raw code ttl s =
        (.ok (.ofLinkStats (storedLink s.repo now (.new now code raw))),
          { s with repo := inserted s.repo now (.new now code raw) })) ∨
    (raw = "" ∨ LawfulLinkRepository.refusal R (.new now code raw) ≠ none ∨
      find s.repo code ≠ none) ∧
      ∃ failure, grpcCreate now generated raw code ttl s = (.error failure, s) := by
  have hlink : grpcLink now generated ⟨raw, some code, ttl.map Int.ofNat⟩ = .new now code raw := by
    simp [grpcLink, customCode_of_validateCustomCode hcode]
  rw [grpcCreate, ← hlink]
  by_cases h : raw ≠ "" ∧
      LawfulLinkRepository.refusal R (grpcLink now generated ⟨raw, some code, ttl.map Int.ofNat⟩) = none ∧
      find s.repo (grpcLink now generated ⟨raw, some code, ttl.map Int.ofNat⟩).code = none
  · obtain ⟨hne, hr, hfree⟩ := h
    refine Or.inl ⟨hne, hr, ?_, run_grpcCreateLink_free hne hr hfree⟩
    rwa [hlink] at hfree
  · refine Or.inr ⟨?_, run_grpcCreateLink_error h⟩
    rw [hlink] at h ⊢
    have hcode' : (ShortLink.new now code raw).code = code := rfl
    rw [hcode'] at h
    tauto

end Runs

section Comparison

variable {url : Url} {expiresAt : Option SystemTime}

/-- Where the code is free, a create that differs in its spelling or its expiry
shows. -/
theorem not_sameCreate [AdmitsChecked R]
    (hv : Api.validateCreate crates now ⟨raw, some code, ttl⟩ = .ok (url, expiresAt))
    (hfree : find s.repo code = none) (hdiffer : raw ≠ url.asStr ∨ ttl ≠ none) :
    ¬ SameCreate crates now draw generated raw code ttl s := by
  intro h
  obtain ⟨_, hexpiry, hcode⟩ := validateCreate_eq_ok hv
  have hhttp := httpCreate_free draw hv hfree
  have hcreated : ∃ response, (httpCreate crates now draw raw code ttl s).1 = .ok response ∧
      response.status = 201 := by
    rw [hhttp]
    exact ⟨_, rfl, Api.status_created (isCodeChar_of_validateCustomCode hcode) _⟩
  obtain ⟨response, hresponse⟩ := h.success.mp hcreated
  rcases grpcCreate_cases now generated raw ttl hcode s with
    ⟨hne, hr, _, hgrpc⟩ | ⟨_, failure, hgrpc⟩
  · obtain ⟨l, l', hl, hl', _, htarget, hexpires⟩ := h.stored hcreated
    have hr' : LawfulLinkRepository.refusal R (Api.newLink now url.asStr expiresAt code) = none :=
      refusal_newLink url expiresAt hcode
    rw [hhttp] at hl
    rw [hgrpc] at hl'
    simp only [find_inserted now hr' hfree] at hl
    simp only [find_inserted now hr hfree] at hl'
    obtain rfl := Option.some.inj (Store.put_self.symm.trans hl)
    obtain rfl := Option.some.inj (Store.put_self.symm.trans hl')
    rcases hdiffer with hraw | httl
    · have hurl : url.asStr = raw := by
        have hleft := LawfulLinkRepository.targetUrl_recorded (R := R) now
          (Api.newLink now url.asStr expiresAt code)
        have hright := LawfulLinkRepository.targetUrl_recorded (R := R) now (.new now code raw)
        exact hleft.symm.trans (htarget.trans hright)
      exact hraw hurl.symm
    · have hleft := AdmitsChecked.expiresAt_recorded (R := R) now
        (Api.newLink now url.asStr expiresAt code)
      have hright := AdmitsChecked.expiresAt_recorded (R := R) now (.new now code raw)
      have hsome : expiresAt.isSome = (none : Option SystemTime).isSome :=
        hleft.symm.trans ((congrArg Option.isSome hexpires).trans hright)
      rw [hexpiry] at hsome
      exact httl (Option.not_isSome_iff_eq_none.mp (by simp [hsome]))
  · rw [hgrpc] at hresponse
    cases hresponse

/-- Where the code is taken, both refuse. -/
theorem sameCreate_of_taken [AdmitsChecked R] {l : LinkStats}
    (hv : Api.validateCreate crates now ⟨raw, some code, ttl⟩ = .ok (url, expiresAt))
    (htaken : find s.repo code = some l) :
    SameCreate crates now draw generated raw code ttl s := by
  obtain ⟨_, _, hcode⟩ := validateCreate_eq_ok hv
  obtain ⟨failure, hhttp⟩ := httpCreate_taken draw hv htaken
  have hnot : ¬ ∃ response, (httpCreate crates now draw raw code ttl s).1 = .ok response ∧
      response.status = 201 := by
    rw [hhttp]
    rintro ⟨response, hresponse, _⟩
    cases hresponse
  refine ⟨iff_of_false hnot ?_, fun h => absurd h hnot⟩
  rcases grpcCreate_cases now generated raw ttl hcode s with
    ⟨_, _, hfree, _⟩ | ⟨_, failure', hgrpc⟩
  · rw [htaken] at hfree
    cases hfree
  · rw [hgrpc]
    rintro ⟨response, hresponse⟩
    cases hresponse

/-- Where the code is free, a URL in its own spelling without a time to live is
stored alike. -/
theorem sameCreate_of_plain [AdmitsChecked R]
    (hv : Api.validateCreate crates now ⟨url.asStr, some code, none⟩ = .ok (url, expiresAt))
    (hfree : find s.repo code = none) :
    SameCreate crates now draw generated url.asStr code none s := by
  obtain ⟨_, hexpiry, hcode⟩ := validateCreate_eq_ok hv
  have hnone : expiresAt = none := Option.not_isSome_iff_eq_none.mp (by simp [hexpiry])
  subst hnone
  have hr : LawfulLinkRepository.refusal R (.new now code url.asStr) = none :=
    refusal_newLink url none hcode
  have hhttp := httpCreate_free draw hv hfree
  have hgrpc : grpcCreate now generated url.asStr code none s =
      (.ok (.ofLinkStats (storedLink s.repo now (.new now code url.asStr))),
        { s with repo := inserted s.repo now (.new now code url.asStr) }) := by
    rcases grpcCreate_cases now generated url.asStr none hcode s with
      ⟨_, _, _, hgrpc⟩ | ⟨hrefused, _⟩
    · exact hgrpc
    · exfalso
      rcases hrefused with hempty | hrefused | htaken
      · have hpos := url.nonempty
        rw [hempty] at hpos
        exact absurd hpos (by decide)
      · exact hrefused hr
      · exact htaken hfree
  constructor
  · rw [hhttp, hgrpc]
    exact iff_of_true ⟨_, rfl, Api.status_created (isCodeChar_of_validateCustomCode hcode) _⟩ ⟨_, rfl⟩
  · intro _
    have hstored : find (inserted s.repo now (.new now code url.asStr)) code =
        some (storedLink s.repo now (.new now code url.asStr)) :=
      find_inserted_self now hr hfree
    rw [hhttp, hgrpc]
    exact ⟨_, _, hstored, hstored, rfl, rfl, rfl⟩

/-- **Two transports, one link**: a create request that passes the checks of HTTP
does the same over gRPC exactly when the code is taken, or the URL is in its own
spelling and there is no time to live. -/
theorem sameCreate_iff [AdmitsChecked R]
    (hv : Api.validateCreate crates now ⟨raw, some code, ttl⟩ = .ok (url, expiresAt)) :
    SameCreate crates now draw generated raw code ttl s ↔
      (∃ l, find s.repo code = some l) ∨ (raw = url.asStr ∧ ttl = none) := by
  cases h : find s.repo code with
  | some l => exact iff_of_true (sameCreate_of_taken hv h) (Or.inl ⟨l, rfl⟩)
  | none =>
      by_cases hplain : raw = url.asStr ∧ ttl = none
      · obtain ⟨rfl, rfl⟩ := hplain
        exact iff_of_true (sameCreate_of_plain hv h) (Or.inr ⟨rfl, rfl⟩)
      · refine iff_of_false (not_sameCreate hv h ?_) ?_
        · by_cases hraw : raw = url.asStr
          · exact Or.inr (fun httl => hplain ⟨hraw, httl⟩)
          · exact Or.inl hraw
        · rintro (⟨l, hl⟩ | hboth)
          · cases hl
          · exact hplain hboth

/-- Generated codes of one character. -/
def shortDraw : Nat → Nanoid (Config.mk 1 1).codeLength := fun _ => Api.letterA

/-- A generated code of the gRPC service. -/
def shortUuid : Grpc.ShortUuid := ⟨"0a1b2c3d", rfl, by simp⟩

/-- A service that holds no link. -/
def emptyState : AppState InMemoryRepo := ⟨.new, .new, .disabled⟩

/-- A URL in its own spelling, and no time to live. -/
theorem sameCreate_iff_plain :
    SameCreate Api.oneUrl .UNIX_EPOCH shortDraw shortUuid "https://example.com/" "promo2026" none
        emptyState ↔
      (∃ l, find emptyState.repo "promo2026" = some l) ∨
        ("https://example.com/" = "https://example.com/" ∧ (none : Option Nat) = none) := by
  have hv : Api.validateCreate Api.oneUrl .UNIX_EPOCH ⟨"https://example.com/", some "promo2026", none⟩ =
      .ok (Api.plainUrl "https" "https://example.com/" (by decide) (by simp), none) := rfl
  exact sameCreate_iff hv

/-- With a time to live of a minute the link that HTTP stores expires, and the one
that gRPC stores does not. -/
theorem not_sameCreate_minute :
    ¬ SameCreate Api.oneUrl .UNIX_EPOCH shortDraw shortUuid "https://example.com/" "promo2026"
      (some 60) emptyState := by
  have hv : Api.validateCreate Api.oneUrl .UNIX_EPOCH
      ⟨"https://example.com/", some "promo2026", some 60⟩ =
      .ok (Api.plainUrl "https" "https://example.com/" (by decide) (by simp), some (.ofSecs 60)) := by
    rfl
  exact not_sameCreate hv rfl (Or.inr (by simp))

end Comparison

end Service

end Shorty
