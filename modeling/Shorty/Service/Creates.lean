import Shorty.Lib.Pool
import Shorty.Api.Calls
import Shorty.InMemory.Listing

/-!
# Shorty.Service.Creates

Creates of many clients on the in-memory store, interleaved at their calls.  An
insert is one call, so of the requests that try a free code the first gets it, and
nothing that is stored is ever touched: all that is said about a finished run is
read off the moments of the inserts (`stored?`).

A create that has finished was invalid, got a code, or found all its candidates
taken (`Outcome`).
-/

namespace Shorty

namespace Creates

open LawfulLinkRepository (find)

/-- A create request. -/
structure CreateRequest (config : Config) where
  now : SystemTime
  requestId : Option String
  draw : Nat → Nanoid config.codeLength
  req : CreateLinkRequest

variable {config : Config} (crates : Crates)

/-- What is done for a create, a call at a time. -/
def program (q : CreateRequest config) : Proc Call.Resp (Option Response) :=
  Api.program crates ⟨q.now, q.requestId, .createLink q.draw q.req⟩

/-- The clients of the service. -/
abbrev Clients (config : Config) :=
  Pool (CreateRequest config) Call.Resp (Option Response) (AppState InMemoryRepo)

abbrev ClientTask (config : Config) :=
  Pool.Task (CreateRequest config) Call.Resp (Option Response) (AppState InMemoryRepo)

/-- One move of the clients. -/
def step : Clients config → Pool.Move (CreateRequest config) Empty → Clients config :=
  Pool.step AppState.exec (program crates) (fun e => e.elim)

/-- A request that passes its checks. -/
def CreateRequest.Valid (q : CreateRequest config) : Prop :=
  ∃ checked, Api.validateCreate crates q.now q.req = .ok checked

/-- The code of a 201 response. -/
def createdCode? (t : ClientTask config) : Option String :=
  match t.rest with
  | .done (some ⟨201, _, .link link⟩) => some link.code
  | _ => none

/-- A request has been answered with a status. -/
def Answers (t : ClientTask config) (status : Nat) : Prop :=
  ∃ response : Response, t.rest = .done (some response) ∧ response.status = status

/-- A code was tried and taken. -/
def FoundTaken (code : String) (t : ClientTask config) : Prop :=
  ∃ d ∈ t.deeds, (∃ now link, d.call = .insert now link ∧ link.code = code) ∧
    find d.before.repo code ≠ none

/-- A code was tried and free. -/
def FoundFree (code : String) (t : ClientTask config) : Prop :=
  ∃ d ∈ t.deeds, (∃ now link, d.call = .insert now link ∧ link.code = code) ∧
    find d.before.repo code = none

/-- The calls of a request left the state as it was. -/
def StoredNothing (t : ClientTask config) : Prop :=
  ∀ d ∈ t.deeds, (AppState.exec d.call d.before).2 = d.before

/-- A request with a generated code got the first draw that was free, or found all
its draws taken. -/
def GotFirstFree (t : ClientTask config) : Prop :=
  (∃ n < config.maxGenerateAttempts, createdCode? t = some (t.request.draw n).code ∧
    FoundFree (t.request.draw n).code t ∧ ∀ m < n, FoundTaken (t.request.draw m).code t) ∨
  ((∀ m < config.maxGenerateAttempts, FoundTaken (t.request.draw m).code t) ∧ Answers t 500 ∧
    StoredNothing t)

/-- What holds when all creates have finished. -/
structure Settled (s : AppState InMemoryRepo) (p : Clients config) : Prop where
  /-- The codes of the 201 responses are distinct ... -/
  distinct : (p.tasks.filterMap createdCode?).Nodup
  /-- ... and new. -/
  fresh : ∀ code ∈ p.tasks.filterMap createdCode?, find s.repo code = none
  /-- A custom code that was free has one link. -/
  oneLink : ∀ t ∈ p.tasks, t.request.Valid crates → ∀ code, t.request.req.customCode = some code →
    find s.repo code = none → ∃! link, link ∈ p.state.repo.links ∧ link.code = code
  /-- Who did not get its code is told so. -/
  losers : ∀ t ∈ p.tasks, t.request.Valid crates → ∀ code, t.request.req.customCode = some code →
    createdCode? t ≠ some code → Answers t 409
  generated : ∀ t ∈ p.tasks, t.request.Valid crates → t.request.req.customCode = none → GotFirstFree t
  /-- A request that fails its checks makes no call. -/
  invalid : ∀ t ∈ p.tasks, ¬ t.request.Valid crates → createdCode? t = none ∧ t.deeds = []
  /-- No link that was there is changed. -/
  unchanged : ∀ code l, find s.repo code = some l → find p.state.repo code = some l

/-! ## the calls of a create -/

section Calls

variable {crates} {now : SystemTime} {targetUrl : String} {expiresAt : Option SystemTime}
  {ds : List (Pool.Deed Call (AppState InMemoryRepo))}

/-- The insert of a candidate. -/
def Inserts (now : SystemTime) (targetUrl : String) (expiresAt : Option SystemTime) (code : String)
    (d : Pool.Deed Call (AppState InMemoryRepo)) : Prop :=
  d.call = .insert now (Api.newLink now targetUrl expiresAt code)

/-- The insert of a candidate that was taken. -/
def Refused (now : SystemTime) (targetUrl : String) (expiresAt : Option SystemTime) (code : String)
    (d : Pool.Deed Call (AppState InMemoryRepo)) : Prop :=
  Inserts now targetUrl expiresAt code d ∧ find d.before.repo code ≠ none

/-- Some candidates were taken and the next was free. -/
def Got (now : SystemTime) (targetUrl : String) (expiresAt : Option SystemTime) (codes : List String)
    (ds : List (Pool.Deed Call (AppState InMemoryRepo))) (code : String) : Prop :=
  ∃ before after taken d, codes = before ++ code :: after ∧ ds = taken ++ [d] ∧
    List.Forall₂ (Refused now targetUrl expiresAt) before taken ∧
      Inserts now targetUrl expiresAt code d ∧ find d.before.repo code = none

/-- What a create answers that found its candidates taken. -/
def exhausted (config : Config) : Option String → AppError
  | some _ => .codeTaken
  | none => .internal ("failed to generate a unique code in " ++
      toString config.maxGenerateAttempts ++ " attempts")

theorem exec_insert_free {code : String} {s : AppState InMemoryRepo} (h : find s.repo code = none) :
    AppState.exec (.insert now (Api.newLink now targetUrl expiresAt code)) s =
      (.ok (), { s with repo := inserted s.repo now (Api.newLink now targetUrl expiresAt code) }) :=
  AppState.exec_insert_free now rfl h

theorem exec_insert_taken {code : String} {s : AppState InMemoryRepo} {l : LinkStats}
    (h : find s.repo code = some l) :
    AppState.exec (.insert now (Api.newLink now targetUrl expiresAt code)) s =
      (.error (.codeTaken code), s) :=
  AppState.exec_insert_taken now rfl h

theorem follows_tryCodes {codes : List String} {out : Except (Failure AppError) String}
    (h : Pool.Follows AppState.exec
      (ExceptT.run (Api.tryCodes config now targetUrl expiresAt codes)) ds (.done out)) :
    (∃ code, out = .ok code ∧ Got now targetUrl expiresAt codes ds code) ∨
      (out = .error (.error (exhausted config none)) ∧
        List.Forall₂ (Refused now targetUrl expiresAt) codes ds) := by
  induction codes generalizing ds with
  | nil =>
      obtain ⟨rfl, hdone⟩ := Pool.follows_done_iff.mp h
      cases hdone
      exact Or.inr ⟨rfl, .nil⟩
  | cons code codes ih =>
      rw [Api.tryCodes, Api.tryInsertLink_eq] at h
      rcases Pool.follows_call_iff.mp h with ⟨_, hcall⟩ | ⟨time, s, ds', rfl, hnext⟩
      · cases hcall
      · cases hfind : find s.repo code with
        | none =>
            rw [exec_insert_free hfind] at hnext
            obtain ⟨rfl, hdone⟩ := Pool.follows_done_iff.mp hnext
            cases hdone
            exact Or.inl ⟨code, rfl, [], codes, [], _, rfl, rfl, .nil, rfl, hfind⟩
        | some l =>
            rw [exec_insert_taken hfind] at hnext
            have hrefused : Refused now targetUrl expiresAt code
                ⟨time, .insert now (Api.newLink now targetUrl expiresAt code), s⟩ :=
              ⟨rfl, by simp [hfind]⟩
            rcases ih hnext with ⟨code', hout, before, after, taken, d, rfl, rfl, htaken, hd⟩ | ⟨hout, htaken⟩
            · exact Or.inl ⟨code', hout, code :: before, after, _ :: taken, d, rfl, rfl,
                .cons hrefused htaken, hd⟩
            · exact Or.inr ⟨hout, .cons hrefused htaken⟩

theorem follows_storeLink {draw : Nat → Nanoid config.codeLength} {customCode : Option String}
    {out : Except (Failure AppError) String}
    (h : Pool.Follows AppState.exec
      (ExceptT.run (Api.storeLink config now draw customCode targetUrl expiresAt)) ds (.done out)) :
    (∃ code, out = .ok code ∧
      Got now targetUrl expiresAt (Api.candidates config draw customCode) ds code) ∨
      (out = .error (.error (exhausted config customCode)) ∧
        List.Forall₂ (Refused now targetUrl expiresAt) (Api.candidates config draw customCode) ds) := by
  cases customCode with
  | none => exact follows_tryCodes h
  | some code =>
      rw [Api.storeLink, Api.insertLink, Api.tryInsertLink_eq] at h
      rcases Pool.follows_call_iff.mp h with ⟨_, hcall⟩ | ⟨time, s, ds', rfl, hnext⟩
      · cases hcall
      · cases hfind : find s.repo code with
        | none =>
            rw [exec_insert_free hfind] at hnext
            obtain ⟨rfl, hdone⟩ := Pool.follows_done_iff.mp hnext
            cases hdone
            exact Or.inl ⟨code, rfl, [], [], [], _, rfl, rfl, .nil, rfl, hfind⟩
        | some l =>
            rw [exec_insert_taken hfind] at hnext
            obtain ⟨rfl, hdone⟩ := Pool.follows_done_iff.mp hnext
            cases hdone
            exact Or.inr ⟨rfl, .cons ⟨rfl, by simp [hfind]⟩ .nil⟩

end Calls

/-! ## what is stored stays -/

section History

variable {crates} {p : Clients config} {t : ClientTask config}

abbrev Sound (crates : Crates) (p : Clients config) : Prop :=
  Pool.Sound AppState.exec (program crates) (fun e : Empty => e.elim) p

/-- Every link of one state is in the other as it was. -/
def Keeps (s s' : AppState InMemoryRepo) : Prop :=
  ∀ code l, find s.repo code = some l → find s'.repo code = some l

theorem find_insert (now : SystemTime) (link : ShortLink) (s : AppState InMemoryRepo) :
    find (AppState.exec (.insert now link) s).2.repo link.code ≠ none ∧
      Keeps s (AppState.exec (.insert now link) s).2 := by
  cases h : find s.repo link.code with
  | none =>
      have hinserted := find_inserted now (rfl : LawfulLinkRepository.refusal InMemoryRepo link = none) h
      rw [AppState.exec_insert_free now rfl h]
      refine ⟨by simp [hinserted], fun code l hl => ?_⟩
      have hne : code ≠ link.code := by
        rintro rfl
        rw [h] at hl
        cases hl
      rw [hinserted, Store.put_of_ne hne]
      exact hl
  | some l =>
      rw [AppState.exec_insert_taken now rfl h]
      exact ⟨by simp [h], fun code l hl => hl⟩

/-- The calls of a create. -/
theorem makes_of_mem (hsound : Sound crates p) (ht : t ∈ p.tasks)
    {d : Pool.Deed Call (AppState InMemoryRepo)} (hd : d ∈ t.deeds) :
    Api.Makes (.createLink t.request.draw t.request.req) d.call :=
  (Pool.only_of_follows (hsound.follows t ht) (Api.only_program crates _)).2 d hd

theorem keeps_deed (hsound : Sound crates p) {d : Pool.Deed Call (AppState InMemoryRepo)}
    (hd : d ∈ p.deeds) : Keeps d.before (AppState.exec d.call d.before).2 := by
  obtain ⟨t, ht, hdt⟩ := Pool.mem_deeds.mp hd
  have hmakes := makes_of_mem hsound ht hdt
  obtain ⟨time, c, s⟩ := d
  cases hmakes with
  | insert draw req now link => exact (find_insert now link s).2
  | showCreated draw req code =>
      intro code' l hl
      rw [AppState.exec_stats]
      exact hl

/-- **What is stored stays.** -/
theorem keeps_stateAt (hsound : Sound crates p) {time time' : Nat} (hle : time ≤ time') :
    Keeps (p.stateAt time) (p.stateAt time') :=
  hsound.rel_stateAt (fun _ _ _ h => h) (fun h h' code l hl => h' code l (h code l hl))
    (fun _ hd => keeps_deed hsound hd) (fun e _ => e.elim) hle

/-- A code that was tried is taken from then on. -/
theorem find_of_tried (hsound : Sound crates p) (ht : t ∈ p.tasks)
    {d : Pool.Deed Call (AppState InMemoryRepo)} (hd : d ∈ t.deeds) {now : SystemTime}
    {link : ShortLink} (hcall : d.call = .insert now link) {time : Nat} (hlt : d.time < time) :
    find (p.stateAt time).repo link.code ≠ none := by
  obtain ⟨_, _, _, hafter⟩ := hsound.applied t ht d hd
  have hfound := (find_insert now link d.before).1
  rw [← hcall, ← hafter] at hfound
  obtain ⟨l, hl⟩ := Option.ne_none_iff_exists'.mp hfound
  rw [keeps_stateAt hsound hlt link.code l hl]
  exact Option.some_ne_none l

/-! ## finished creates -/

/-- How a create has finished. -/
inductive Outcome (crates : Crates) (t : ClientTask config) : Prop where
  /-- It failed its checks. -/
  | invalid (failure : Failure AppError)
      (hchecked : Api.validateCreate crates t.request.now t.request.req = .error failure)
      (hdeeds : t.deeds = [])
      (hrest : t.rest = .done (Api.answer t.request.requestId (.error failure)))
  /-- It got a code. -/
  | created (url : Url) (expiresAt : Option SystemTime) (code : String)
      (ds : List (Pool.Deed Call (AppState InMemoryRepo))) (e : Pool.Deed Call (AppState InMemoryRepo))
      (l : LinkStats)
      (hchecked : Api.validateCreate crates t.request.now t.request.req = .ok (url, expiresAt))
      (hgot : Got t.request.now url.asStr expiresAt
        (Api.candidates config t.request.draw t.request.req.customCode) ds code)
      (hdeeds : t.deeds = ds ++ [e]) (hstats : e.call = .stats code)
      (hfound : find e.before.repo code = some l)
      (hrest : t.rest = .done (some (.created ("/api/v1/links/" ++ code)
        (.link (.ofLinkStats l)))))
  /-- All its candidates were taken. -/
  | exhausted (url : Url) (expiresAt : Option SystemTime)
      (hchecked : Api.validateCreate crates t.request.now t.request.req = .ok (url, expiresAt))
      (htaken : List.Forall₂ (Refused t.request.now url.asStr expiresAt)
        (Api.candidates config t.request.draw t.request.req.customCode) t.deeds)
      (hrest : t.rest = .done (Api.answer t.request.requestId
        (.error (.error (exhausted config t.request.req.customCode)))))

/-- The code a create got is there from then on. -/
theorem find_of_got (hsound : Sound crates p) (ht : t ∈ p.tasks)
    {ds ds' : List (Pool.Deed Call (AppState InMemoryRepo))} (hdeeds : t.deeds = ds ++ ds')
    {now : SystemTime} {targetUrl : String} {expiresAt : Option SystemTime} {codes : List String}
    {code : String} (hgot : Got now targetUrl expiresAt codes ds code)
    {e : Pool.Deed Call (AppState InMemoryRepo)} (he : e ∈ ds') : find e.before.repo code ≠ none := by
  obtain ⟨before, after, taken, d, _, rfl, _, hinsert, _⟩ := hgot
  have hordered := hsound.ordered t ht
  rw [hdeeds, List.pairwise_append] at hordered
  have hlt : d.time < e.time := hordered.2.2 d (by simp) e he
  obtain ⟨_, _, hbefore, _⟩ := hsound.applied t ht e (by simp [hdeeds, he])
  rw [← hbefore]
  exact find_of_tried hsound ht (by simp [hdeeds]) hinsert hlt

theorem outcome (hsound : Sound crates p) (ht : t ∈ p.tasks) (hended : t.rest.result?.isSome) :
    Outcome crates t := by
  cases hrest : t.rest with
  | call c k => simp [hrest, Proc.result?] at hended
  | done out =>
      have hfollows := hsound.follows t ht
      rw [hrest] at hfollows
      obtain ⟨result, hcalls, rfl⟩ := Pool.follows_map hfollows
      change Pool.Follows AppState.exec (ExceptT.run (Api.createLink config crates t.request.now
        t.request.draw t.request.req)) t.deeds (.done result) at hcalls
      rw [Api.createLink_eq] at hcalls
      cases hchecked : Api.validateCreate crates t.request.now t.request.req with
      | error failure =>
          rw [hchecked] at hcalls
          obtain ⟨hdeeds, hdone⟩ := Pool.follows_done_iff.mp hcalls
          cases hdone
          exact .invalid failure hchecked hdeeds hrest
      | ok checked =>
          obtain ⟨url, expiresAt⟩ := checked
          rw [hchecked] at hcalls
          dsimp only at hcalls
          rw [ExceptT.run_bind] at hcalls
          obtain ⟨stored, ds₁, ds₂, hdeeds, hstore, hshow⟩ := Pool.follows_bind hcalls
          rcases follows_storeLink hstore with ⟨code, rfl, hgot⟩ | ⟨rfl, htaken⟩
          · rcases Pool.follows_call_iff.mp hshow with ⟨_, hcall⟩ | ⟨time, s, ds', rfl, hlast⟩
            · cases hcall
            · have hpresent := find_of_got hsound ht hdeeds hgot (List.mem_cons_self)
              obtain ⟨l, hfound⟩ := Option.ne_none_iff_exists'.mp hpresent
              rw [AppState.exec_stats_of_find hfound] at hlast
              obtain ⟨rfl, hdone⟩ := Pool.follows_done_iff.mp hlast
              cases hdone
              exact .created url expiresAt code ds₁ _ l hchecked hgot hdeeds rfl hfound hrest
          · obtain ⟨rfl, hdone⟩ := Pool.follows_done_iff.mp hshow
            cases hdone
            rw [List.append_nil] at hdeeds
            rw [← hdeeds] at htaken
            exact .exhausted url expiresAt hchecked htaken hrest

/-! ## who got what -/

/-- The code an insert stored its link under. -/
def stored? (d : Pool.Deed Call (AppState InMemoryRepo)) : Option String :=
  match d.call with
  | .insert _ link => if (find d.before.repo link.code).isNone then some link.code else none
  | _ => none

theorem stored?_eq_some {d : Pool.Deed Call (AppState InMemoryRepo)} {code : String}
    (h : stored? d = some code) :
    ∃ now link, d.call = .insert now link ∧ link.code = code ∧ find d.before.repo code = none := by
  unfold stored? at h
  split at h
  · rename_i now link hcall
    split at h
    · cases h
      exact ⟨now, link, hcall, rfl, by rwa [← Option.isNone_iff_eq_none]⟩
    · cases h
  · cases h

theorem stored?_ne_of_lt (hsound : Sound crates p) {d d' : Pool.Deed Call (AppState InMemoryRepo)}
    (hd : d ∈ p.deeds) (hd' : d' ∈ p.deeds) (hlt : d.time < d'.time) {code : String}
    (h : stored? d = some code) : stored? d' ≠ some code := by
  intro h'
  obtain ⟨now, link, hcall, rfl, _⟩ := stored?_eq_some h
  obtain ⟨_, _, _, _, hfree⟩ := stored?_eq_some h'
  obtain ⟨t, ht, hdt⟩ := Pool.mem_deeds.mp hd
  obtain ⟨t', ht', hdt'⟩ := Pool.mem_deeds.mp hd'
  obtain ⟨_, _, hbefore, _⟩ := hsound.applied t' ht' d' hdt'
  have htaken := find_of_tried hsound ht hdt hcall hlt
  rw [hbefore] at htaken
  exact htaken hfree

/-- **A code is stored once.** -/
theorem nodup_stored (hsound : Sound crates p) : (p.deeds.filterMap stored?).Nodup := by
  have htimes : p.deeds.Pairwise (fun d d' => d.time ≠ d'.time) := List.pairwise_map.mp hsound.distinct
  refine (List.pairwise_filterMap).mpr (htimes.imp_of_mem ?_)
  intro d d' hd hd' hne code hcode code' hcode' hsame
  subst hsame
  rcases Nat.lt_or_gt_of_ne hne with hlt | hgt
  · exact stored?_ne_of_lt hsound hd hd' hlt hcode hcode'
  · exact stored?_ne_of_lt hsound hd' hd hgt hcode' hcode

/-- A code that is stored was not there before. -/
theorem fresh_stored (hsound : Sound crates p) {code : String} (h : code ∈ p.deeds.filterMap stored?) :
    find (p.stateAt 0).repo code = none := by
  obtain ⟨d, hd, hstored⟩ := List.mem_filterMap.mp h
  obtain ⟨now, link, _, _, hfree⟩ := stored?_eq_some hstored
  obtain ⟨t, ht, hdt⟩ := Pool.mem_deeds.mp hd
  obtain ⟨_, _, hbefore, _⟩ := hsound.applied t ht d hdt
  cases hfind : find (p.stateAt 0).repo code with
  | none => rfl
  | some l =>
      have hkept := keeps_stateAt hsound (Nat.zero_le d.time) code l hfind
      rw [hbefore, hfree] at hkept
      cases hkept

theorem stored?_of_refused {now : SystemTime} {targetUrl : String} {expiresAt : Option SystemTime}
    {code : String} {d : Pool.Deed Call (AppState InMemoryRepo)}
    (h : Refused now targetUrl expiresAt code d) : stored? d = none := by
  obtain ⟨hcall, htaken⟩ := h
  have hinsert : d.call = .insert now (Api.newLink now targetUrl expiresAt code) := hcall
  obtain ⟨l, hl⟩ := Option.ne_none_iff_exists'.mp htaken
  have hfound : find d.before.repo (Api.newLink now targetUrl expiresAt code).code = some l := hl
  simp [stored?, hinsert, hfound]

theorem filterMap_refused {now : SystemTime} {targetUrl : String} {expiresAt : Option SystemTime}
    {codes : List String} {ds : List (Pool.Deed Call (AppState InMemoryRepo))}
    (h : List.Forall₂ (Refused now targetUrl expiresAt) codes ds) : ds.filterMap stored? = [] := by
  induction h with
  | nil => rfl
  | cons hrefused _ ih => rw [List.filterMap_cons_none (stored?_of_refused hrefused), ih]

theorem filterMap_got {now : SystemTime} {targetUrl : String} {expiresAt : Option SystemTime}
    {codes : List String} {ds : List (Pool.Deed Call (AppState InMemoryRepo))} {code : String}
    (h : Got now targetUrl expiresAt codes ds code) : ds.filterMap stored? = [code] := by
  obtain ⟨before, after, taken, d, _, rfl, htaken, hcall, hfree⟩ := h
  have hinsert : d.call = .insert now (Api.newLink now targetUrl expiresAt code) := hcall
  have hnone : find d.before.repo (Api.newLink now targetUrl expiresAt code).code = none := hfree
  have hstored : stored? d = some code := by
    simp [stored?, hinsert, hnone]
    rfl
  rw [List.filterMap_append, filterMap_refused htaken]
  simp [hstored]

/-- The code of a create that got one. -/
theorem createdCode?_of_created {code : String} {l : LinkStats}
    (hchars : ∀ c ∈ code.toList, isCodeChar c = true) (hcode : l.link.code = code)
    (hrest : t.rest = .done (some (.created ("/api/v1/links/" ++ code)
      (.link (.ofLinkStats l))))) : createdCode? t = some code := by
  have hstatus := Api.status_created hchars (.link (.ofLinkStats l))
  unfold Response.created at hstatus hrest
  split at hstatus
  · rename_i hvalue
    rw [if_pos hvalue] at hrest
    simp only [createdCode?, hrest, Option.some.injEq]
    exact hcode
  · cases hstatus

theorem createdCode?_of_error {requestId : Option String} {failure : Failure AppError}
    (hrest : t.rest = .done (Api.answer requestId (.error failure))) : createdCode? t = none := by
  unfold createdCode?
  split
  · rename_i h
    rw [hrest] at h
    cases failure with
    | error e => simp [Api.answer, Response.ofError] at h
    | panicked => cases h
  · rfl

/-- A create got a code exactly when it stored it. -/
theorem createdCode?_of_got {url : Url} {expiresAt : Option SystemTime} {code : String}
    {ds : List (Pool.Deed Call (AppState InMemoryRepo))} {e : Pool.Deed Call (AppState InMemoryRepo)}
    {l : LinkStats}
    (hchecked : Api.validateCreate crates t.request.now t.request.req = .ok (url, expiresAt))
    (hgot : Got t.request.now url.asStr expiresAt
      (Api.candidates config t.request.draw t.request.req.customCode) ds code)
    (hfound : find e.before.repo code = some l)
    (hrest : t.rest = .done (some (.created ("/api/v1/links/" ++ code)
      (.link (.ofLinkStats l))))) : createdCode? t = some code := by
  obtain ⟨before, after, _, _, hcodes, _⟩ := hgot
  have hmem : code ∈ Api.candidates config t.request.draw t.request.req.customCode := by simp [hcodes]
  exact createdCode?_of_created (Api.isCodeChar_of_candidate hchecked hmem)
    (LawfulLinkRepository.code_of_find hfound) hrest

/-- A create that has finished shows the code it stored. -/
theorem filterMap_task (hsound : Sound crates p) (ht : t ∈ p.tasks) (hended : t.rest.result?.isSome) :
    t.deeds.filterMap stored? = (createdCode? t).toList := by
  cases outcome hsound ht hended with
  | invalid failure hchecked hdeeds hrest =>
      rw [hdeeds, createdCode?_of_error hrest]
      rfl
  | created url expiresAt code ds e l hchecked hgot hdeeds hstats hfound hrest =>
      have he : stored? e = none := by simp [stored?, hstats]
      rw [hdeeds, List.filterMap_append, filterMap_got hgot, createdCode?_of_got hchecked hgot hfound hrest]
      simp [he]
  | exhausted url expiresAt hchecked htaken hrest =>
      rw [filterMap_refused htaken, createdCode?_of_error hrest]
      rfl

/-- The candidates that were refused were found taken. -/
theorem exists_refused {now : SystemTime} {targetUrl : String} {expiresAt : Option SystemTime}
    {codes : List String} {ds : List (Pool.Deed Call (AppState InMemoryRepo))}
    (h : List.Forall₂ (Refused now targetUrl expiresAt) codes ds) {code : String} (hcode : code ∈ codes) :
    ∃ d ∈ ds, Refused now targetUrl expiresAt code d := by
  induction h with
  | nil => cases hcode
  | cons hrefused _ ih =>
      rcases List.mem_cons.mp hcode with rfl | hcode
      · exact ⟨_, List.mem_cons_self, hrefused⟩
      · obtain ⟨d, hd, hrefused'⟩ := ih hcode
        exact ⟨d, List.mem_cons_of_mem _ hd, hrefused'⟩

theorem foundTaken_of_refused {now : SystemTime} {targetUrl : String} {expiresAt : Option SystemTime}
    {codes : List String} {ds : List (Pool.Deed Call (AppState InMemoryRepo))}
    (h : List.Forall₂ (Refused now targetUrl expiresAt) codes ds) (hds : ∀ d ∈ ds, d ∈ t.deeds)
    {code : String} (hcode : code ∈ codes) : FoundTaken code t := by
  obtain ⟨d, hd, hcall, htaken⟩ := exists_refused h hcode
  exact ⟨d, hds d hd, ⟨now, _, hcall, rfl⟩, htaken⟩

theorem foundFree_of_got {now : SystemTime} {targetUrl : String} {expiresAt : Option SystemTime}
    {codes : List String} {ds ds' : List (Pool.Deed Call (AppState InMemoryRepo))} {code : String}
    (h : Got now targetUrl expiresAt codes ds code) (hdeeds : t.deeds = ds ++ ds') : FoundFree code t := by
  obtain ⟨before, after, taken, d, _, rfl, _, hcall, hfree⟩ := h
  exact ⟨d, by simp [hdeeds], ⟨now, _, hcall, rfl⟩, hfree⟩

/-- The code before which some of the draws lie is the draw after them. -/
theorem drawn_eq_append {draw : Nat → Nanoid config.codeLength} {before after : List String}
    {code : String} (h : Api.drawn config draw = before ++ code :: after) :
    before.length < config.maxGenerateAttempts ∧ code = (draw before.length).code ∧
      ∀ m < before.length, (draw m).code ∈ before := by
  have hlength : config.maxGenerateAttempts = before.length + (after.length + 1) := by
    simpa [Api.drawn] using congrArg List.length h
  have hget : ∀ m < config.maxGenerateAttempts,
      (before ++ code :: after)[m]? = some (draw m).code := by
    intro m hm
    rw [← h]
    simp [Api.drawn, hm]
  refine ⟨by omega, ?_, fun m hm => ?_⟩
  · simpa using hget before.length (by omega)
  · have hm' := hget m (by omega)
    rw [List.getElem?_append_left hm] at hm'
    exact List.mem_of_getElem? hm'

theorem mem_drawn {draw : Nat → Nanoid config.codeLength} {m : Nat}
    (h : m < config.maxGenerateAttempts) : (draw m).code ∈ Api.drawn config draw :=
  List.mem_map.mpr ⟨m, List.mem_range.mpr h, rfl⟩

theorem exec_of_refused {now : SystemTime} {targetUrl : String} {expiresAt : Option SystemTime}
    {code : String} {d : Pool.Deed Call (AppState InMemoryRepo)}
    (h : Refused now targetUrl expiresAt code d) : (AppState.exec d.call d.before).2 = d.before := by
  obtain ⟨hcall, htaken⟩ := h
  have hinsert : d.call = .insert now (Api.newLink now targetUrl expiresAt code) := hcall
  obtain ⟨l, hl⟩ := Option.ne_none_iff_exists'.mp htaken
  rw [hinsert, exec_insert_taken hl]

theorem kept_of_refused {now : SystemTime} {targetUrl : String} {expiresAt : Option SystemTime}
    {codes : List String} {ds : List (Pool.Deed Call (AppState InMemoryRepo))}
    (h : List.Forall₂ (Refused now targetUrl expiresAt) codes ds) :
    ∀ d ∈ ds, (AppState.exec d.call d.before).2 = d.before := by
  induction h with
  | nil => simp
  | cons hrefused _ ih =>
      simp only [List.mem_cons, forall_eq_or_imp]
      exact ⟨exec_of_refused hrefused, ih⟩

/-- A request with a generated code gets the first draw that is free. -/
theorem gotFirstFree (hsound : Sound crates p) (ht : t ∈ p.tasks) (hended : t.rest.result?.isSome)
    (hvalid : t.request.Valid crates) (hcustom : t.request.req.customCode = none) : GotFirstFree t := by
  obtain ⟨checked, hvalid⟩ := hvalid
  cases outcome hsound ht hended with
  | invalid failure hchecked hdeeds hrest =>
      rw [hvalid] at hchecked
      cases hchecked
  | created url expiresAt code ds e l hchecked hgot hdeeds hstats hfound hrest =>
      have hcreated := createdCode?_of_got hchecked hgot hfound hrest
      have hfree := foundFree_of_got hgot hdeeds
      obtain ⟨before, after, taken, d, hcodes, hds, htaken, _⟩ := hgot
      rw [hcustom] at hcodes
      obtain ⟨hlt, rfl, hbefore⟩ := drawn_eq_append hcodes
      refine Or.inl ⟨before.length, hlt, hcreated, hfree, fun m hm => ?_⟩
      exact foundTaken_of_refused htaken (fun d hd => by simp [hdeeds, hds, hd]) (hbefore m hm)
  | exhausted url expiresAt hchecked htaken hrest =>
      rw [hcustom] at htaken hrest
      refine Or.inr ⟨fun m hm => ?_, ⟨_, hrest, rfl⟩, kept_of_refused htaken⟩
      exact foundTaken_of_refused htaken (fun d hd => hd) (mem_drawn hm)

/-- A request with a code of its own gets it, or is told that it is taken. -/
theorem custom_cases (hsound : Sound crates p) (ht : t ∈ p.tasks) (hended : t.rest.result?.isSome)
    (hvalid : t.request.Valid crates) {code : String} (hcustom : t.request.req.customCode = some code) :
    (createdCode? t = some code ∧ FoundFree code t) ∨ (Answers t 409 ∧ FoundTaken code t) := by
  obtain ⟨checked, hvalid⟩ := hvalid
  cases outcome hsound ht hended with
  | invalid failure hchecked hdeeds hrest =>
      rw [hvalid] at hchecked
      cases hchecked
  | created url expiresAt code' ds e l hchecked hgot hdeeds hstats hfound hrest =>
      have hcreated := createdCode?_of_got hchecked hgot hfound hrest
      have hfree := foundFree_of_got hgot hdeeds
      obtain ⟨before, after, taken, d, hcodes, _⟩ := hgot
      have hmem : code' ∈ Api.candidates config t.request.draw t.request.req.customCode := by simp [hcodes]
      rw [hcustom] at hmem
      rw [List.mem_singleton.mp hmem] at hcreated hfree
      exact Or.inl ⟨hcreated, hfree⟩
  | exhausted url expiresAt hchecked htaken hrest =>
      rw [hcustom] at htaken hrest
      exact Or.inr ⟨⟨_, hrest, rfl⟩, foundTaken_of_refused htaken (fun d hd => hd) List.mem_cons_self⟩

end History

/-- Every request has been answered. -/
def Finished (p : Clients config) : Prop := ∀ t ∈ p.tasks, t.rest.result?.isSome

/-- A code that is taken has one link. -/
theorem existsUnique_link {r : InMemoryRepo} {code : String} (h : find r code ≠ none) :
    ∃! link, link ∈ r.links ∧ link.code = code := by
  obtain ⟨l, hl⟩ := Option.ne_none_iff_exists'.mp h
  have hget := InMemoryRepo.find_eq_some_iff.mp hl
  have hcode := InMemoryRepo.code_of_get? hget
  refine ⟨l.link, ⟨InMemoryRepo.link_mem_links hget, hcode⟩, ?_⟩
  rintro link ⟨hlink, rfl⟩
  exact InMemoryRepo.eq_of_code_eq hlink (InMemoryRepo.link_mem_links hget) hcode.symm

theorem settled_of_sound {crates : Crates} {p : Clients config} (hsound : Sound crates p)
    (hfinished : Finished p) : Settled crates (p.stateAt 0) p := by
  have hstored : p.deeds.filterMap stored? = p.tasks.filterMap createdCode? :=
    Pool.filterMap_deeds fun t ht => filterMap_task hsound ht (hfinished t ht)
  have hnow : ∀ time, p.clock ≤ time → p.stateAt time = p.state := fun _ h => Pool.stateAt_of_clock_le h
  constructor
  · rw [← hstored]
    exact nodup_stored hsound
  · rw [← hstored]
    exact fun code h => fresh_stored hsound h
  · intro t ht hvalid code hcustom _
    have htried : ∃ d ∈ t.deeds, ∃ now link, d.call = .insert now link ∧ link.code = code := by
      rcases custom_cases hsound ht (hfinished t ht) hvalid hcustom with
        ⟨_, d, hd, hcall, _⟩ | ⟨_, d, hd, hcall, _⟩ <;> exact ⟨d, hd, hcall⟩
    obtain ⟨d, hd, now, link, hcall, rfl⟩ := htried
    have hpresent := find_of_tried hsound ht hd hcall (hsound.applied t ht d hd).2.1
    rw [hnow _ (Nat.le_refl _)] at hpresent
    exact existsUnique_link hpresent
  · intro t ht hvalid code hcustom hlost
    rcases custom_cases hsound ht (hfinished t ht) hvalid hcustom with ⟨hcreated, _⟩ | ⟨hconflict, _⟩
    · exact absurd hcreated hlost
    · exact hconflict
  · exact fun t ht hvalid hcustom => gotFirstFree hsound ht (hfinished t ht) hvalid hcustom
  · intro t ht hinvalid
    cases outcome hsound ht (hfinished t ht) with
    | invalid failure hchecked hdeeds hrest => exact ⟨createdCode?_of_error hrest, hdeeds⟩
    | created url expiresAt code ds e l hchecked => exact absurd ⟨_, hchecked⟩ hinvalid
    | exhausted url expiresAt hchecked => exact absurd ⟨_, hchecked⟩ hinvalid
  · rw [← hnow p.clock (Nat.le_refl _)]
    exact keeps_stateAt hsound (Nat.zero_le _)

/-- **Creates never collide**: whatever the order of their calls and the codes they
draw, once all have finished every code has the link of one of them. -/
theorem settled_reach (crates : Crates) (s : AppState InMemoryRepo)
    (moves : List (Pool.Move (CreateRequest config) Empty))
    (h : Finished (Run.reach (step crates) (Pool.new s) moves)) :
    Settled crates s (Run.reach (step crates) (Pool.new s) moves) := by
  have hsettled := settled_of_sound (Pool.sound_reach s moves) h
  rwa [Pool.stateAt_zero_reach] at hsettled

/-- A service without links. -/
def empty : AppState InMemoryRepo := ⟨.new, .new, .disabled⟩

/-- A request for a code of its own. -/
def custom (code : String) : CreateRequest (Config.mk 1 1) :=
  ⟨.UNIX_EPOCH, none, fun _ => Api.letterA, ⟨"https://example.com/", some code, none⟩⟩

/-- Two requests for one code, and one for any. -/
theorem settled_race : Settled Api.oneUrl empty (Run.reach (step Api.oneUrl) (Pool.new empty)
    [.start (custom "promo2026"), .start (custom "promo2026"),
      .start ⟨.UNIX_EPOCH, none, fun _ => Api.letterA, ⟨"https://example.com/", none, none⟩⟩,
      .advance 1, .advance 2, .advance 0, .advance 2, .advance 1]) := by
  refine settled_reach Api.oneUrl empty _ ?_
  have hall : (Run.reach (step Api.oneUrl) (Pool.new empty)
    [.start (custom "promo2026"), .start (custom "promo2026"),
      .start ⟨.UNIX_EPOCH, none, fun _ => Api.letterA, ⟨"https://example.com/", none, none⟩⟩,
      .advance 1, .advance 2, .advance 0, .advance 2, .advance 1]).tasks.all
        (fun t => t.rest.result?.isSome) = true := by rfl
  exact List.all_eq_true.mp hall

/-- Every request for a code of its own that did not get it is told that it is taken. -/
def LosersConflict (p : Clients config) : Prop :=
  ∀ t ∈ p.tasks, ∀ code, t.request.req.customCode = some code → createdCode? t ≠ some code → Answers t 409

/-- A request for a code that is too short is told so. -/
theorem not_losersConflict_short :
    ¬ (Finished (Run.reach (step Api.oneUrl) (Pool.new empty) [.start (custom "abc")]) →
      LosersConflict (Run.reach (step Api.oneUrl) (Pool.new empty) [.start (custom "abc")])) := by
  intro h
  have hfinished : Finished (Run.reach (step Api.oneUrl) (Pool.new empty) [.start (custom "abc")]) := by
    intro t ht
    rw [List.mem_singleton.mp ht]
    rfl
  obtain ⟨response, hrest, hstatus⟩ := h hfinished _ (List.mem_singleton_self _) "abc" rfl (by
    intro hcreated
    cases hcreated)
  cases hrest
  cases hstatus

end Creates

end Shorty
