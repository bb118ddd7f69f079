import Shorty.Service.Transports

/-!
# Shorty.Service.Outages

Creating a link while single calls of the repository fail.  A `Flaky` repository
answers some of its calls, chosen by their number, with an outage and without
effect.  A create makes its attempts at inserting and then one call that reads the
new link back; the link that an outage of that last call hides stays stored.
-/

namespace Shorty

/-- How a call fails for reasons of the infrastructure. -/
inductive Outage where
  | unavailable
  | internal (message : String)
deriving DecidableEq

def Outage.toRepoError : Outage → RepoError
  | unavailable => .unavailable
  | internal message => .internal message

/-- A repository, the number of calls it has had, and the outages by call. -/
structure Flaky (R : Type) where
  inner : R
  calls : Nat
  outage : Nat → Option Outage

namespace Flaky

variable {R : Type}

/-- The repository after a call that left `inner`. -/
def answered (r : Flaky R) (inner : R) : Flaky R :=
  { r with inner := inner, calls := r.calls + 1 }

/-- One call: it fails without effect, or reaches the repository. -/
def call {α : Type} (r : Flaky R) (f : R → Except RepoError α × R) : Except RepoError α × Flaky R :=
  match r.outage r.calls with
  | some o => (.error o.toRepoError, r.answered r.inner)
  | none => ((f r.inner).1, r.answered (f r.inner).2)

def callList (r : Flaky R) (f : R → Option (Except RepoError ListPage) × R) :
    Option (Except RepoError ListPage) × Flaky R :=
  match r.outage r.calls with
  | some o => (some (.error o.toRepoError), r.answered r.inner)
  | none => ((f r.inner).1, r.answered (f r.inner).2)

theorem call_down {α : Type} {r : Flaky R} {o : Outage} (h : r.outage r.calls = some o)
    (f : R → Except RepoError α × R) : r.call f = (.error o.toRepoError, r.answered r.inner) := by
  simp [call, h]

theorem call_up {α : Type} {r : Flaky R} (h : r.outage r.calls = none)
    (f : R → Except RepoError α × R) : r.call f = ((f r.inner).1, r.answered (f r.inner).2) := by
  simp [call, h]

end Flaky

instance (R : Type) [LinkRepository R] : LinkRepository (Flaky R) where
  insert now link r := r.call (LinkRepository.insert now link)
  get code r := r.call (LinkRepository.get code)
  update now code targetUrl version r := r.call (LinkRepository.update now code targetUrl version)
  remove code r := r.call (LinkRepository.remove code)
  recordHit now code r := r.call (LinkRepository.recordHit now code)
  stats code r := r.call (LinkRepository.stats code)
  list now limit cursor r := r.callList (LinkRepository.list now limit cursor)
  purgeExpired now r :=
    ((LinkRepository.purgeExpired now r.inner).1, r.answered (LinkRepository.purgeExpired now r.inner).2)

namespace Service

open LawfulLinkRepository (find refusal)

variable {config : Config} {crates : Crates} {R : Type} [LinkRepository R] [LawfulLinkRepository R]

/-- A request to create a link, over either transport. -/
inductive Create (config : Config) where
  | http (now : SystemTime) (requestId : Option String) (draw : Nat → Nanoid config.codeLength)
      (req : CreateLinkRequest)
  | grpc (now : SystemTime) (generated : Grpc.ShortUuid) (req : Grpc.CreateLinkRequest)

namespace Create

/-- Whether the request is answered with an error. -/
def AnswersError (crates : Crates) (s : AppState (Flaky R)) : Create config → Prop
  | http now requestId draw req =>
      ∃ response, (Api.serve crates now requestId (.createLink draw req) s).1 = some response ∧
        400 ≤ response.status
  | grpc now generated req => ∃ status, ((Grpc.createLink now generated req).run s).1 = .error status

/-- The state after the request. -/
def after (crates : Crates) (s : AppState (Flaky R)) : Create config → AppState (Flaky R)
  | http now requestId draw req => (Api.serve crates now requestId (.createLink draw req) s).2
  | grpc now generated req => ((Grpc.createLink now generated req).run s).2

def time : Create config → SystemTime
  | http now _ _ _ => now
  | grpc now _ _ => now

/-- The links the request tries to insert, in order; none if it fails its checks. -/
def attempts (crates : Crates) : Create config → List ShortLink
  | http now _ draw req =>
      match Api.validateCreate crates now req with
      | .ok (url, expiresAt) =>
          (Api.candidates config draw req.customCode).map (Api.newLink now url.asStr expiresAt)
      | .error _ => []
  | grpc now generated req => if req.targetUrl = "" then [] else [grpcLink now generated req]

end Create

/-- Tried in order from call `n` on, the first of some links that is not taken is
`link`, none of these calls fails, and the next call is `m`. -/
inductive FirstFree (r : Flaky R) : Nat → List ShortLink → ShortLink → Nat → Prop where
  | here {n : Nat} {link : ShortLink} {rest : List ShortLink} (hup : r.outage n = none)
      (hr : refusal R link = none) (hfree : find r.inner link.code = none) :
      FirstFree r n (link :: rest) link (n + 1)
  | next {n m : Nat} {link link' : ShortLink} {rest : List ShortLink} (hup : r.outage n = none)
      (hr : refusal R link = none) (htaken : find r.inner link.code ≠ none)
      (hrest : FirstFree r (n + 1) rest link' m) : FirstFree r n (link :: rest) link' m

/-- The call after the insert, which reads the new link back, fails. -/
def ReadBackFails (r : Flaky R) (links : List ShortLink) : Prop :=
  ∃ link m, FirstFree r r.calls links link m ∧ r.outage m ≠ none

/-! ## single calls -/

section Calls

variable {s : AppState (Flaky R)} {now : SystemTime} {link : ShortLink} {code : String}

/-- The state after a call that left `inner`. -/
def answered (s : AppState (Flaky R)) (inner : R) : AppState (Flaky R) :=
  { s with repo := s.repo.answered inner }

omit [LawfulLinkRepository R] in
theorem exec_insert_down {o : Outage} (h : s.repo.outage s.repo.calls = some o) :
    AppState.exec (.insert now link) s = (.error o.toRepoError, answered s s.repo.inner) := by
  show s.withRepo (s.repo.call (LinkRepository.insert now link)) = _
  rw [Flaky.call_down h]
  rfl

omit [LawfulLinkRepository R] in
theorem exec_insert_up (h : s.repo.outage s.repo.calls = none) :
    AppState.exec (.insert now link) s = ((LinkRepository.insert now link s.repo.inner).1,
      answered s (LinkRepository.insert now link s.repo.inner).2) := by
  show s.withRepo (s.repo.call (LinkRepository.insert now link)) = _
  rw [Flaky.call_up h]
  rfl

omit [LawfulLinkRepository R] in
theorem exec_stats_down {o : Outage} (h : s.repo.outage s.repo.calls = some o) :
    AppState.exec (.stats code) s = (.error o.toRepoError, answered s s.repo.inner) := by
  show s.withRepo (s.repo.call (LinkRepository.stats code)) = _
  rw [Flaky.call_down h]
  rfl

theorem exec_stats_up {l : LinkStats} (h : s.repo.outage s.repo.calls = none)
    (hl : find s.repo.inner code = some l) :
    AppState.exec (.stats code) s = (.ok l, answered s s.repo.inner) := by
  show s.withRepo (s.repo.call (LinkRepository.stats code)) = _
  rw [Flaky.call_up h, LawfulLinkRepository.stats_eq, hl]
  rfl

end Calls

/-! ## attempts -/

section Attempts

variable {s : AppState (Flaky R)} {now : SystemTime} {link : ShortLink} {links : List ShortLink}
  {n m : Nat}

/-- An attempt at inserting fails, meets a taken code, or stores the link. -/
theorem exec_insert_cases (now : SystemTime) (link : ShortLink) (s : AppState (Flaky R)) :
    (∃ e, (∀ message, e ≠ .codeTaken message) ∧
      (s.repo.outage s.repo.calls ≠ none ∨ refusal R link ≠ none) ∧
      AppState.exec (.insert now link) s = (.error e, answered s s.repo.inner)) ∨
    (s.repo.outage s.repo.calls = none ∧ refusal R link = none ∧
      find s.repo.inner link.code ≠ none ∧
      ∃ message, AppState.exec (.insert now link) s =
        (.error (.codeTaken message), answered s s.repo.inner)) ∨
    (s.repo.outage s.repo.calls = none ∧ refusal R link = none ∧
      find s.repo.inner link.code = none ∧
      AppState.exec (.insert now link) s = (.ok (), answered s (inserted s.repo.inner now link))) := by
  cases hup : s.repo.outage s.repo.calls with
  | some o =>
      left
      refine ⟨_, ?_, Or.inl (by simp), exec_insert_down hup⟩
      cases o <;> simp [Outage.toRepoError]
  | none =>
      rw [exec_insert_up hup]
      cases hr : refusal R link with
      | some e =>
          left
          rw [LawfulLinkRepository.insert_refused hr]
          exact ⟨e, fun message => LawfulLinkRepository.refusal_ne message hr, Or.inr (by simp), rfl⟩
      | none =>
          right
          cases hfind : find s.repo.inner link.code with
          | some l =>
              left
              obtain ⟨message, htaken⟩ := LawfulLinkRepository.taken_eq (R := R) link.code
              rw [LawfulLinkRepository.insert_taken hr hfind, htaken]
              exact ⟨rfl, rfl, by simp, message, rfl⟩
          | none =>
              right
              refine ⟨rfl, rfl, rfl, ?_⟩
              rw [(LawfulLinkRepository.insert_free hr hfind).1]
              rfl

/-- The first free link is decided by the first attempt. -/
theorem firstFree_cons_iff {r : Flaky R} {link' : ShortLink} :
    FirstFree r n (link :: links) link' m ↔ r.outage n = none ∧ refusal R link = none ∧
      ((find r.inner link.code = none ∧ link' = link ∧ m = n + 1) ∨
        (find r.inner link.code ≠ none ∧ FirstFree r (n + 1) links link' m)) := by
  constructor
  · intro h
    cases h with
    | here hup hr hfree => exact ⟨hup, hr, Or.inl ⟨hfree, rfl, rfl⟩⟩
    | next hup hr htaken hrest => exact ⟨hup, hr, Or.inr ⟨htaken, hrest⟩⟩
  · rintro ⟨hup, hr, ⟨hfree, rfl, rfl⟩ | ⟨htaken, hrest⟩⟩
    · exact .here hup hr hfree
    · exact .next hup hr htaken hrest

/-- A call without effect leaves the first free link the same. -/
theorem firstFree_answered {link' : ShortLink} :
    FirstFree (answered s s.repo.inner).repo n links link' m ↔ FirstFree s.repo n links link' m := by
  have hinner : (answered s s.repo.inner).repo.inner = s.repo.inner := rfl
  have houtage : (answered s s.repo.inner).repo.outage = s.repo.outage := rfl
  induction links generalizing n with
  | nil =>
      constructor <;> intro h <;> cases h
  | cons link links ih => simp only [firstFree_cons_iff, ih, hinner, houtage]

/-- Where the first attempt fails there is no first free link. -/
theorem not_firstFree_of_failed {r : Flaky R} {link' : ShortLink}
    (h : r.outage n ≠ none ∨ refusal R link ≠ none) : ¬ FirstFree r n (link :: links) link' m := by
  intro hfirst
  obtain ⟨hup, hr, _⟩ := firstFree_cons_iff.mp hfirst
  rcases h with hdown | hrefused
  · exact hdown hup
  · exact hrefused hr

theorem not_firstFree_nil {r : Flaky R} : ¬ FirstFree r n [] link m := by
  intro h
  cases h

/-- Where the only attempt meets a taken code there is none either. -/
theorem not_firstFree_of_taken {r : Flaky R} {link' : ShortLink}
    (h : find r.inner link.code ≠ none) : ¬ FirstFree r n [link] link' m := by
  intro hfirst
  obtain ⟨_, _, ⟨hfree, _⟩ | ⟨_, hrest⟩⟩ := firstFree_cons_iff.mp hfirst
  · exact h hfree
  · exact not_firstFree_nil hrest

end Attempts

/-! ## HTTP -/

section Http

variable {s : AppState (Flaky R)} {now : SystemTime} {targetUrl : String}
  {expiresAt : Option SystemTime} {code : String} {codes : List String}
  {draw : Nat → Nanoid config.codeLength}

/-- A part of a handler that tries to store one of some links: it stores the first
free one, or stores nothing and answers an error. -/
structure StoresFirst (s : AppState (Flaky R)) (now : SystemTime) (link : String → ShortLink)
    (codes : List String) (out : Except (Failure AppError) String × AppState (Flaky R)) : Prop where
  stored : ∀ code, out.1 = .ok code → ∃ m, FirstFree s.repo s.repo.calls (codes.map link) (link code) m ∧
    out.2.repo = ⟨inserted s.repo.inner now (link code), m, s.repo.outage⟩
  failed : ∀ failure, out.1 = .error failure → out.2.repo.inner = s.repo.inner ∧
    ∀ link' m, ¬ FirstFree s.repo s.repo.calls (codes.map link) link' m

theorem storesFirst_tryCodes (codes : List String) (s : AppState (Flaky R)) :
    StoresFirst s now (Api.newLink now targetUrl expiresAt) codes
      ((Api.tryCodes config now targetUrl expiresAt codes).run s) := by
  induction codes generalizing s with
  | nil =>
      constructor
      · intro code h
        cases h
      · intro failure _
        exact ⟨rfl, fun _ _ => not_firstFree_nil⟩
  | cons code codes ih =>
      rw [Api.tryCodes, Handler.run_bind]
      rcases exec_insert_cases now (Api.newLink now targetUrl expiresAt code) s with
        ⟨e, hne, hwhy, hexec⟩ | ⟨hup, hr, htaken, message, hexec⟩ | ⟨hup, hr, hfree, hexec⟩
      · rw [Api.run_tryInsertLink hexec]
        cases e with
        | codeTaken message => exact absurd rfl (hne message)
        | _ => exact ⟨fun _ h => (by cases h), fun _ _ =>
            ⟨rfl, fun _ _ => not_firstFree_of_failed hwhy⟩⟩
      · rw [Api.run_tryInsertLink hexec]
        have hnext : ∀ link' m, FirstFree s.repo s.repo.calls
            ((code :: codes).map (Api.newLink now targetUrl expiresAt)) link' m ↔
              FirstFree s.repo (s.repo.calls + 1)
                (codes.map (Api.newLink now targetUrl expiresAt)) link' m := by
          intro link' m
          rw [List.map_cons, firstFree_cons_iff]
          simp [hup, hr, htaken]
        have hrest := ih (answered s s.repo.inner)
        constructor
        · intro code' h
          obtain ⟨m, hfirst, hrepo⟩ := hrest.stored code' h
          exact ⟨m, (hnext _ _).mpr (firstFree_answered.mp hfirst), hrepo⟩
        · intro failure h
          obtain ⟨hinner, hnone⟩ := hrest.failed failure h
          exact ⟨hinner, fun link' m hfirst =>
            hnone link' m (firstFree_answered.mpr ((hnext _ _).mp hfirst))⟩
      · rw [Api.run_tryInsertLink hexec]
        constructor
        · intro code' h
          cases h
          refine ⟨s.repo.calls + 1, ?_, rfl⟩
          exact firstFree_cons_iff.mpr ⟨hup, hr, Or.inl ⟨hfree, rfl, rfl⟩⟩
        · intro failure h
          cases h

theorem storesFirst_storeLink (customCode : Option String) (s : AppState (Flaky R)) :
    StoresFirst s now (Api.newLink now targetUrl expiresAt) (Api.candidates config draw customCode)
      ((Api.storeLink config now draw customCode targetUrl expiresAt).run s) := by
  cases customCode with
  | none => exact storesFirst_tryCodes (Api.drawn config draw) s
  | some code =>
      rw [Api.storeLink, Api.candidates, Api.insertLink]
      simp only [Handler.run_bind]
      rcases exec_insert_cases now (Api.newLink now targetUrl expiresAt code) s with
        ⟨e, hne, hwhy, hexec⟩ | ⟨hup, hr, htaken, message, hexec⟩ | ⟨hup, hr, hfree, hexec⟩
      · rw [Api.run_tryInsertLink hexec]
        exact ⟨fun _ h => (by cases h), fun _ _ =>
          ⟨rfl, fun _ _ => not_firstFree_of_failed hwhy⟩⟩
      · rw [Api.run_tryInsertLink hexec]
        exact ⟨fun _ h => (by cases h), fun _ _ =>
          ⟨rfl, fun _ _ => not_firstFree_of_taken htaken⟩⟩
      · rw [Api.run_tryInsertLink hexec]
        refine ⟨?_, fun _ h => (by cases h)⟩
        intro code' h
        cases h
        refine ⟨s.repo.calls + 1, ?_, rfl⟩
        exact firstFree_cons_iff.mpr ⟨hup, hr, Or.inl ⟨hfree, rfl, rfl⟩⟩

end Http

/-! ## both transports -/

/-- What a create does: it stores nothing, or it stores the first free link and
reads it back, or it stores it and cannot. -/
inductive Outcome (s : AppState (Flaky R)) (now : SystemTime) (links : List ShortLink)
    (answersError : Prop) (inner : R) : Prop where
  | refused (hinner : inner = s.repo.inner)
      (hnone : ∀ link m, ¬ FirstFree s.repo s.repo.calls links link m)
  | shown (link : ShortLink) (m : Nat) (hinner : inner = inserted s.repo.inner now link)
      (h : FirstFree s.repo s.repo.calls links link m) (hup : s.repo.outage m = none)
      (hok : ¬ answersError)
  | hidden (link : ShortLink) (m : Nat) (hinner : inner = inserted s.repo.inner now link)
      (h : FirstFree s.repo s.repo.calls links link m) (hdown : s.repo.outage m ≠ none)
      (herror : answersError)

section Outcome

variable {s : AppState (Flaky R)} {now : SystemTime} {links : List ShortLink} {link : ShortLink}
  {n m : Nat} {answersError : Prop} {inner : R}

theorem FirstFree.spec {r : Flaky R} (h : FirstFree r n links link m) :
    link ∈ links ∧ refusal R link = none ∧ find r.inner link.code = none := by
  induction h with
  | here _ hr hfree => exact ⟨List.mem_cons_self, hr, hfree⟩
  | next _ _ _ _ ih => exact ⟨List.mem_cons_of_mem _ ih.1, ih.2⟩

/-- There is one first free link. -/
theorem FirstFree.unique {r : Flaky R} {link' : ShortLink} {m' : Nat}
    (h : FirstFree r n links link m) (h' : FirstFree r n links link' m') : link' = link ∧ m' = m := by
  induction h with
  | here _ _ hfree =>
      obtain ⟨_, _, ⟨_, hlink, hm⟩ | ⟨htaken, _⟩⟩ := firstFree_cons_iff.mp h'
      · exact ⟨hlink, hm⟩
      · exact absurd hfree htaken
  | next _ _ htaken _ ih =>
      obtain ⟨_, _, ⟨hfree, _⟩ | ⟨_, hrest⟩⟩ := firstFree_cons_iff.mp h'
      · exact absurd hfree htaken
      · exact ih hrest

/-- An error leaves the store as it was exactly when it is not the read-back that
failed. -/
theorem Outcome.kept_iff (h : Outcome s now links answersError inner) :
    (answersError → find inner = find s.repo.inner) ↔ ¬ ReadBackFails s.repo links := by
  cases h with
  | refused hinner hnone =>
      refine iff_of_true (fun _ => by rw [hinner]) ?_
      rintro ⟨link, m, h, _⟩
      exact hnone link m h
  | shown link m hinner h hup hok =>
      refine iff_of_true (fun herror => absurd herror hok) ?_
      rintro ⟨link', m', h', hdown⟩
      obtain ⟨_, rfl⟩ := h.unique h'
      exact hdown hup
  | hidden link m hinner h hdown herror =>
      refine iff_of_false ?_ (fun hnot => hnot ⟨link, m, h, hdown⟩)
      intro hkept
      obtain ⟨_, hr, hfree⟩ := h.spec
      have hfind := congrFun (hkept herror) link.code
      rw [hinner, find_inserted now hr hfree, Store.put_self, hfree] at hfind
      cases hfind

end Outcome

section Outcomes

variable {s : AppState (Flaky R)} {now : SystemTime} {code : String}

theorem status_ofOutage (o : Outage) : 400 ≤ (AppError.ofRepoError o.toRepoError).status := by
  cases o <;> simp [Outage.toRepoError, AppError.ofRepoError, AppError.status]

omit [LawfulLinkRepository R] in
theorem run_showCreated_down {o : Outage} (h : s.repo.outage s.repo.calls = some o) :
    (Api.showCreated code).run s =
      (.error (.error (.ofRepoError o.toRepoError)), answered s s.repo.inner) := by
  simp [Api.showCreated, exec_stats_down h, Api.ofRepo]

theorem run_showCreated_up {l : LinkStats} (h : s.repo.outage s.repo.calls = none)
    (hl : find s.repo.inner code = some l) : (Api.showCreated code).run s =
      (.ok (.created ("/api/v1/links/" ++ code) (.link (.ofLinkStats l))),
        answered s s.repo.inner) := by
  simp [Api.showCreated, exec_stats_up h hl, Api.ofRepo]

/-- The code of an attempt over HTTP has code characters only. -/
theorem isCodeChar_of_attempt {draw : Nat → Nanoid config.codeLength} {req : CreateLinkRequest}
    {checked : Url × Option SystemTime} (hv : Api.validateCreate crates now req = .ok checked)
    {targetUrl : String} {expiresAt : Option SystemTime}
    (hmem : Api.newLink now targetUrl expiresAt code ∈
      (Api.candidates config draw req.customCode).map (Api.newLink now targetUrl expiresAt)) :
    ∀ c ∈ code.toList, isCodeChar c = true := by
  obtain ⟨code', hcode', heq⟩ := List.mem_map.mp hmem
  have hsame : code' = code := congrArg ShortLink.code heq
  exact Api.isCodeChar_of_candidate hv (hsame ▸ hcode')

theorem outcome_http (now : SystemTime) (requestId : Option String)
    (draw : Nat → Nanoid config.codeLength) (req : CreateLinkRequest) (s : AppState (Flaky R)) :
    Outcome s now ((Create.http now requestId draw req).attempts crates)
      ((Create.http now requestId draw req).AnswersError crates s)
      ((Create.http now requestId draw req).after crates s).repo.inner := by
  show Outcome s now
    (match Api.validateCreate crates now req with
      | .ok (url, expiresAt) =>
          (Api.candidates config draw req.customCode).map (Api.newLink now url.asStr expiresAt)
      | .error _ => [])
    (∃ response, Api.answer requestId ((Api.createLink config crates now draw req).run s).1 =
      some response ∧ 400 ≤ response.status)
    ((Api.createLink config crates now draw req).run s).2.repo.inner
  rw [Api.run_createLink]
  cases hv : Api.validateCreate crates now req with
  | error failure => exact .refused rfl (fun _ _ => not_firstFree_nil)
  | ok checked =>
      obtain ⟨url, expiresAt⟩ := checked
      simp only [Handler.run_bind]
      have hstores : StoresFirst s now (Api.newLink now url.asStr expiresAt)
          (Api.candidates config draw req.customCode)
          ((Api.storeLink config now draw req.customCode url.asStr expiresAt).run s) :=
        storesFirst_storeLink req.customCode s
      generalize (Api.storeLink config now draw req.customCode url.asStr expiresAt).run s = out
        at hstores ⊢
      obtain ⟨result, s'⟩ := out
      cases result with
      | error failure =>
          obtain ⟨hinner, hnone⟩ := hstores.failed failure rfl
          exact .refused hinner hnone
      | ok code =>
          obtain ⟨m, hfirst, hrepo⟩ := hstores.stored code rfl
          dsimp only at hrepo ⊢
          obtain ⟨hmem, hr, hfree⟩ := hfirst.spec
          have hinner : s'.repo.inner =
              inserted s.repo.inner now (Api.newLink now url.asStr expiresAt code) :=
            congrArg Flaky.inner hrepo
          have hstored : find s'.repo.inner code =
              some (storedLink s.repo.inner now (Api.newLink now url.asStr expiresAt code)) := by
            rw [hinner]
            exact find_inserted_self now hr hfree
          have hcalls : s'.repo.outage s'.repo.calls = s.repo.outage m := by simp [hrepo]
          cases hup : s.repo.outage m with
          | some o =>
              rw [run_showCreated_down (hcalls.trans hup)]
              refine .hidden _ m hinner hfirst (by simp [hup]) ?_
              exact ⟨_, rfl, status_ofOutage o⟩
          | none =>
              rw [run_showCreated_up (hcalls.trans hup) hstored]
              refine .shown _ m hinner hfirst hup ?_
              rintro ⟨response, hresponse, hstatus⟩
              cases hresponse
              rw [Api.status_created (isCodeChar_of_attempt hv hmem)] at hstatus
              omega

theorem outcome_grpc (now : SystemTime) (generated : Grpc.ShortUuid)
    (req : Grpc.CreateLinkRequest) (s : AppState (Flaky R)) :
    Outcome s now ((Create.grpc now generated req : Create config).attempts crates)
      ((Create.grpc now generated req : Create config).AnswersError crates s)
      ((Create.grpc now generated req : Create config).after crates s).repo.inner := by
  show Outcome s now (if req.targetUrl = "" then [] else [grpcLink now generated req])
    (∃ failure, ((Grpc.createLink now generated req).run s).1 = .error failure)
    ((Grpc.createLink now generated req).run s).2.repo.inner
  unfold grpcLink Grpc.createLink
  by_cases hurl : req.targetUrl = ""
  · rw [if_pos hurl, if_pos hurl]
    exact .refused rfl (fun _ _ => not_firstFree_nil)
  · rw [if_neg hurl, if_neg hurl]
    generalize (Grpc.customCode req).getD generated.code = code
    rw [Handler.run_ask_bind]
    rcases exec_insert_cases now (.new now code req.targetUrl) s with
      ⟨e, _, hwhy, hexec⟩ | ⟨hup, hr, htaken, message, hexec⟩ | ⟨hup, hr, hfree, hexec⟩
    · rw [hexec, Handler.run_ofExcept_error_bind]
      exact .refused rfl (fun _ _ => not_firstFree_of_failed hwhy)
    · rw [hexec, Handler.run_ofExcept_error_bind]
      exact .refused rfl (fun _ _ => not_firstFree_of_taken htaken)
    · have hfirst : FirstFree s.repo s.repo.calls [.new now code req.targetUrl]
          (.new now code req.targetUrl) (s.repo.calls + 1) := .here hup hr hfree
      have hstored : find (inserted s.repo.inner now (.new now code req.targetUrl)) code =
          some (storedLink s.repo.inner now (.new now code req.targetUrl)) :=
        find_inserted_self now hr hfree
      rw [hexec, Handler.run_ofExcept_ok_bind, Handler.run_ask_bind]
      cases hdown : s.repo.outage (s.repo.calls + 1) with
      | some o =>
          rw [exec_stats_down hdown, Handler.run_ofExcept_error_bind]
          exact .hidden _ _ rfl hfirst (by simp [hdown]) ⟨_, rfl⟩
      | none =>
          rw [exec_stats_up hdown hstored, Handler.run_ofExcept_ok_bind]
          refine .shown _ _ rfl hfirst hdown ?_
          rintro ⟨failure, h⟩
          cases h

/-- **A failed create**: a create that is answered with an error leaves the links as
they were exactly when it is not the call after its insert that fails. -/
theorem errorKeeps_iff (create : Create config) (crates : Crates) (s : AppState (Flaky R)) :
    (create.AnswersError crates s → find (create.after crates s).repo.inner = find s.repo.inner) ↔
      ¬ ReadBackFails s.repo (create.attempts crates) := by
  cases create with
  | http now requestId draw req => exact (outcome_http now requestId draw req s).kept_iff
  | grpc now generated req =>
      have h : Outcome s now ((Create.grpc now generated req : Create config).attempts crates) _ _ :=
        outcome_grpc now generated req s
      exact h.kept_iff

end Outcomes

/-- A store without links whose second call fails. -/
def secondCallDown : AppState (Flaky InMemoryRepo) :=
  ⟨⟨.new, 0, fun n => if n = 1 then some .unavailable else none⟩, .new, .disabled⟩

/-- A create over HTTP. -/
def promo : Create (Config.mk 1 1) :=
  .http .UNIX_EPOCH none shortDraw ⟨"https://example.com/", some "promo2026", none⟩

/-- The link is stored, and the client is told that the storage is unavailable. -/
theorem not_errorKeeps_promo :
    ¬ (promo.AnswersError Api.oneUrl secondCallDown →
      find (promo.after Api.oneUrl secondCallDown).repo.inner = find secondCallDown.repo.inner) := by
  intro h
  have hout : Outcome secondCallDown .UNIX_EPOCH (promo.attempts Api.oneUrl)
      (promo.AnswersError Api.oneUrl secondCallDown)
      (promo.after Api.oneUrl secondCallDown).repo.inner :=
    outcome_http .UNIX_EPOCH none shortDraw ⟨"https://example.com/", some "promo2026", none⟩ secondCallDown
  refine hout.kept_iff.mp h ?_
  have hattempts : promo.attempts Api.oneUrl =
      [Api.newLink .UNIX_EPOCH "https://example.com/" none "promo2026"] := rfl
  rw [hattempts]
  exact ⟨_, 1, .here rfl rfl rfl, by simp [secondCallDown]⟩

end Service

end Shorty
