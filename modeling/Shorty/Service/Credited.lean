import Mathlib.Data.List.Count
import Shorty.Lib.Pool
import Shorty.Api.Calls
import Shorty.Service

/-!
# Shorty.Service.Credited

Whose hits a redirect counts.  A redirect reads the link and counts the hit in two
calls that know the link by its code, so the link that is counted may be another
one than the link that is followed: one that was created in between.  The links a
code has had are told apart by the inserts that made them.
-/

namespace Shorty

namespace Credited

open LawfulLinkRepository (find)

variable {config : Config} (crates : Crates) {R : Type} [LinkRepository R]

/-- The clients of the service. -/
abbrev Clients (config : Config) (R : Type) :=
  Pool (Api.Arrival config) Call.Resp (Option Response) (AppState R)

abbrev ClientTask (config : Config) (R : Type) :=
  Pool.Task (Api.Arrival config) Call.Resp (Option Response) (AppState R)

/-- One move of the clients, or a tick of the cleaner. -/
def step : Clients config R → Pool.Move (Api.Arrival config) SystemTime → Clients config R :=
  Pool.step AppState.exec (Api.program crates) Service.tick

/-- The call stored a link under the code. -/
def inserts (code : String) (d : Pool.Deed Call (AppState R)) : Bool :=
  match d.call with
  | .insert now link => decide (link.code = code) && (LinkRepository.insert now link d.before.repo).1.isOk
  | _ => false

/-- The call counted a hit of the code. -/
def counts (code : String) (d : Pool.Deed Call (AppState R)) : Bool :=
  match d.call with
  | .recordHit now code' =>
      decide (code' = code) && (LinkRepository.recordHit now code' d.before.repo).1.isOk
  | _ => false

/-- The call read the link of the code. -/
def reads (code : String) (d : Pool.Deed Call (AppState R)) : Bool :=
  match d.call with
  | .get code' => decide (code' = code)
  | _ => false

/-- The call read the link of the code, with a target. -/
def readsTarget (code target : String) (d : Pool.Deed Call (AppState R)) : Bool :=
  match d.call with
  | .get code' => decide (code' = code) &&
      (match (LinkRepository.get code d.before.repo).1 with
        | .ok link => decide (link.targetUrl = target)
        | .error _ => false)
  | _ => false

/-- Which of the links a code has had is there at a moment, by the inserts before
it. -/
def incarnation (p : Clients config R) (code : String) (time : Nat) : Nat :=
  p.deeds.countP (fun d => inserts code d && decide (d.time < time))

/-- The link a call counted a hit of. -/
def credited? (p : Clients config R) (code : String) (d : Pool.Deed Call (AppState R)) : Option Nat :=
  if counts code d then some (incarnation p code d.time) else none

/-- The link a redirect has sent its client to: the one whose target is the location of its
response. -/
def followed? (p : Clients config R) (code : String) (t : ClientTask config R) : Option Nat :=
  match t.request.req, t.rest with
  | .redirect code', .done (some response) =>
      if code' = code then
        response.location?.bind (fun location =>
          (t.deeds.find? (readsTarget code location)).map (fun d => incarnation p code d.time))
      else none
  | _, _ => none

/-- When no request is in progress, every link the code has had has as many hits as
redirects have sent their clients to it. -/
def EachCredited (code : String) (p : Clients config R) : Prop :=
  (∀ t ∈ p.tasks, t.rest.result?.isSome) →
    ∀ link, (p.deeds.filterMap (credited? p code)).count link =
      (p.tasks.filterMap (followed? p code)).count link

variable [LawfulLinkRepository R]

/-- A redirect that is about to count a hit has read the link that is there, and its
target can be a location. -/
def CountsWhatItRead (code : String) (p : Clients config R) :
    Pool.Move (Api.Arrival config) SystemTime → Prop
  | .advance i => ∀ t, p.tasks[i]? = some t → ∀ now k, t.rest = .call (.recordHit now code) k →
      find p.state.repo code ≠ none → ∀ d ∈ t.deeds, reads code d →
        (∀ e ∈ p.deeds, inserts code e → e.time < d.time) ∧
          ∀ l, find d.before.repo code = some l → isHeaderValue l.link.targetUrl = true
  | _ => True

/-! ## the calls of a redirect -/

section Redirect

variable {crates} {code : String} {now : SystemTime} {ds : List (Pool.Deed Call (AppState R))}
  {out : Option Response}

omit [LawfulLinkRepository R] in
theorem calls_redirect (now : SystemTime) (code : String) :
    ExceptT.run (Api.redirect now code) =
      .call (.get code) (fun (link : Except RepoError ShortLink) => match link with
        | .error e => .done (.error (.error (.ofRepoError e)))
        | .ok link =>
            if link.isExpired now then .done (.error (.error .notFound))
            else .call (.recordHit now code) (fun (hits : Except RepoError Nat) => match hits with
              | .error e => .done (.error (.error (.ofRepoError e)))
              | .ok _ => .call (.cacheInvalidate (linkKey code))
                  (fun _ => .done (.ok (.temporaryRedirect link.targetUrl))))) := by
  show Proc.call _ _ = Proc.call _ _
  congr 1
  funext link
  cases link with
  | error e => rfl
  | ok link =>
      show ExceptT.run (ite _ _ _) = ite _ _ _
      by_cases hexp : link.isExpired now = true
      · rw [if_pos hexp, if_pos hexp]
        rfl
      · rw [if_neg hexp, if_neg hexp]
        show Proc.call _ _ = Proc.call _ _
        congr 1
        funext hits
        cases hits <;> rfl

theorem status_ne_of_error {requestId : Option String} {e : AppError} (h : 400 ≤ e.status)
    (response : Response) (hout : Api.answer requestId (.error (.error e)) = some response) :
    response.status ≠ 307 := by
  cases hout
  show e.status ≠ 307
  omega

theorem counts_recordHit {time : Nat} {s : AppState R} {l : LinkStats} (h : find s.repo code = some l) :
    counts code ⟨time, .recordHit now code, s⟩ = true := by
  simp [counts, (LawfulLinkRepository.recordHit_found h).1, Except.isOk, Except.toBool]

theorem exec_recordHit_of_absent {s : AppState R} (h : find s.repo code = none) :
    AppState.exec (.recordHit now code) s = (.error (LawfulLinkRepository.missing R code), s) := by
  rw [AppState.exec, LawfulLinkRepository.recordHit_missing h]
  rfl

theorem counts_recordHit_of_absent {time : Nat} {s : AppState R} (h : find s.repo code = none) :
    counts code ⟨time, .recordHit now code, s⟩ = false := by
  simp [counts, LawfulLinkRepository.recordHit_missing h, Except.isOk, Except.toBool]

omit [LawfulLinkRepository R] in
theorem counts_get {time : Nat} {s : AppState R} {code' : String} :
    counts code ⟨time, .get code', s⟩ = false := rfl

/-- A redirect that has ended has counted no hit and sent its client nowhere, or has
read the link, counted a hit of the code and sent its client to the target. -/
theorem follows_redirect {a : Api.Arrival config} (ha : a.req = .redirect code)
    (h : Pool.Follows AppState.exec (Api.program crates a) ds (.done out)) :
    ((∀ d ∈ ds, counts code d = false) ∧ ∀ response, out = some response → response.status ≠ 307) ∨
    ∃ d e i l, ds = [d, e, i] ∧ d.call = .get code ∧ find d.before.repo code = some l ∧
      e.call = .recordHit a.now code ∧ counts code e = true ∧
      i.call = .cacheInvalidate (linkKey code) ∧
      out = some (.temporaryRedirect l.link.targetUrl) := by
  rw [Api.program, ha, Api.handle, calls_redirect] at h
  obtain ⟨result, hcalls, rfl⟩ := Pool.follows_map h
  rcases Pool.follows_call_iff.mp hcalls with ⟨_, hcall⟩ | ⟨time, s, ds', rfl, hread⟩
  · cases hcall
  · cases hfind : find s.repo code with
    | none =>
        rw [AppState.exec_get_of_absent hfind] at hread
        obtain ⟨rfl, hdone⟩ := Pool.follows_done_iff.mp hread
        cases hdone
        exact Or.inl ⟨by simp [counts], status_ne_of_error (AppError.le_status_ofRepoError _)⟩
    | some l =>
        rw [AppState.exec_get_of_find hfind] at hread
        by_cases hexp : l.link.isExpired a.now = true
        · simp only [if_pos hexp] at hread
          obtain ⟨rfl, hdone⟩ := Pool.follows_done_iff.mp hread
          cases hdone
          exact Or.inl ⟨by simp [counts], status_ne_of_error (by simp [AppError.status])⟩
        · simp only [if_neg hexp] at hread
          rcases Pool.follows_call_iff.mp hread with ⟨_, hcall⟩ | ⟨time', s', ds'', rfl, hcount⟩
          · cases hcall
          · cases hfind' : find s'.repo code with
            | none =>
                rw [exec_recordHit_of_absent hfind'] at hcount
                obtain ⟨rfl, hdone⟩ := Pool.follows_done_iff.mp hcount
                cases hdone
                refine Or.inl ⟨?_, status_ne_of_error (AppError.le_status_ofRepoError _)⟩
                simp [counts_get, counts_recordHit_of_absent hfind']
            | some l' =>
                rw [AppState.exec_recordHit_of_find a.now hfind'] at hcount
                rcases Pool.follows_call_iff.mp hcount with ⟨_, hcall⟩ | ⟨time'', s'', ds₃, rfl, hlast⟩
                · cases hcall
                · obtain ⟨rfl, hdone⟩ := Pool.follows_done_iff.mp hlast
                  cases hdone
                  exact Or.inr ⟨_, _, _, l, rfl, rfl, hfind, rfl, counts_recordHit hfind', rfl, rfl⟩

/-- A call that counts a hit of the code finds its link. -/
theorem exists_of_counts {d : Pool.Deed Call (AppState R)} (h : counts code d = true) :
    ∃ now, d.call = .recordHit now code ∧ find d.before.repo code ≠ none := by
  obtain ⟨time, c, s⟩ := d
  cases c with
  | recordHit now code' =>
      simp only [counts, Bool.and_eq_true, decide_eq_true_eq] at h
      obtain ⟨rfl, hok⟩ := h
      refine ⟨now, rfl, fun hnone => ?_⟩
      rw [LawfulLinkRepository.recordHit_missing hnone] at hok
      cases hok
  | _ => cases h

end Redirect

/-! ## schedules -/

variable {crates} {code : String} {p : Clients config R}

abbrev Sound (crates : Crates) (p : Clients config R) : Prop :=
  Pool.Sound AppState.exec (Api.program crates) Service.tick p

/-- Every hit was counted on the link that was read, and the target of that can be a
location. -/
def Matched (code : String) (p : Clients config R) : Prop :=
  ∀ t ∈ p.tasks, ∀ d ∈ t.deeds, reads code d → ∀ e ∈ t.deeds, counts code e → d.time < e.time →
    (∀ i ∈ p.deeds, inserts code i → i.time < d.time ∨ e.time < i.time) ∧
      ∀ l, find d.before.repo code = some l → isHeaderValue l.link.targetUrl = true

/-- A move that makes no call makes no match. -/
theorem Matched.of_quiet (h : Matched code p) {p' : Clients config R}
    (hq : Pool.Quiet (Api.program crates) p p') : Matched code p' := by
  intro t ht d hd hreads e he hcounts hlt
  rcases hq.tasks t ht with hold | ⟨_, hnil, _⟩
  · rw [hq.deeds]
    exact h t hold d hd hreads e he hcounts hlt
  · simp [hnil] at hd

theorem matched_step (hsound : Sound crates p) (h : Matched code p)
    (m : Pool.Move (Api.Arrival config) SystemTime) (hread : CountsWhatItRead code p m) :
    Matched code (step crates p m) := by
  refine Pool.step_rule (P := Matched code) m (fun _ hq => h.of_quiet hq) h ?_
  rintro i u c k rfl hu hr
  have hmem : u ∈ p.tasks := List.mem_of_getElem? hu
  have hold : ∀ t ∈ p.tasks, ∀ d ∈ t.deeds, reads code d → ∀ e ∈ t.deeds, counts code e →
      d.time < e.time →
        (∀ i' ∈ (p.called AppState.exec i u c k).deeds, inserts code i' →
          i'.time < d.time ∨ e.time < i'.time) ∧
        ∀ l, find d.before.repo code = some l → isHeaderValue l.link.targetUrl = true := by
    intro t ht d hd hreads e he hcounts hlt
    obtain ⟨hinserts, hvalue⟩ := h t ht d hd hreads e he hcounts hlt
    refine ⟨fun i' hi' => ?_, hvalue⟩
    rcases List.mem_cons.mp ((Pool.deeds_called hu).mem_iff.mp hi') with rfl | hi'
    · exact fun _ => Or.inr (hsound.applied t ht e he).2.1
    · exact hinserts i' hi'
  intro t ht d hd hreads e he hcounts hlt
  rcases Pool.mem_tasks_called ht with ht | rfl
  · exact hold t ht d hd hreads e he hcounts hlt
  · rcases List.mem_append.mp hd with hd' | hnew
    · rcases List.mem_append.mp he with he' | hnew
      · exact hold u hmem d hd' hreads e he' hcounts hlt
      · rw [List.mem_singleton.mp hnew] at hcounts ⊢
        obtain ⟨now, hcall, hfound⟩ := exists_of_counts hcounts
        have hcall' : c = .recordHit now code := hcall
        subst hcall'
        obtain ⟨hinserts, hvalue⟩ := hread u hu now k hr hfound d hd' hreads
        refine ⟨fun i' hi' hinsert => Or.inl ?_, hvalue⟩
        rcases List.mem_cons.mp ((Pool.deeds_called hu).mem_iff.mp hi') with rfl | hi'
        · cases hinsert
        · exact hinserts i' hi' hinsert
    · -- nothing comes after the call just made
      rw [List.mem_singleton.mp hnew] at hlt
      exact absurd hlt (Nat.not_lt.mpr (hsound.time_le hmem he))

/-- Only a redirect of the code counts its hits. -/
theorem request_of_counts (hsound : Sound crates p) {t : ClientTask config R} (ht : t ∈ p.tasks)
    {d : Pool.Deed Call (AppState R)} (hd : d ∈ t.deeds) (h : counts code d = true) :
    t.request.req = .redirect code := by
  have hmakes := (Pool.only_of_follows (hsound.follows t ht) (Api.only_program crates t.request)).2 d hd
  obtain ⟨now, hcall, _⟩ := exists_of_counts h
  rw [hcall] at hmakes
  generalize t.request.req = req at hmakes
  cases hmakes
  rfl

omit [LawfulLinkRepository R] in
theorem followed?_eq_none {t : ClientTask config R}
    (h : t.request.req = .redirect code → ∀ response, t.rest = .done (some response) →
      response.status ≠ 307) : followed? p code t = none := by
  unfold followed?
  split
  · rename_i code' response hreq hrest
    split
    · rename_i hcode
      subst hcode
      rw [Response.location?_of_status (h hreq response hrest)]
      rfl
    · rfl
  · rfl

omit [LawfulLinkRepository R] in
/-- Between two moments with no insert under the code there is one link. -/
theorem incarnation_eq {time time' : Nat} (hle : time ≤ time')
    (h : ∀ d ∈ p.deeds, inserts code d → d.time < time ∨ time' < d.time) :
    incarnation p code time = incarnation p code time' := by
  unfold incarnation
  apply List.countP_congr
  intro d hd
  simp only [Bool.and_eq_true, decide_eq_true_eq]
  constructor
  · rintro ⟨hinserts, hlt⟩
    exact ⟨hinserts, by omega⟩
  · rintro ⟨hinserts, hlt⟩
    have hside := h d hd hinserts
    exact ⟨hinserts, by omega⟩

/-- A redirect that read the link, counted a hit and ended. -/
structure Follower (p : Clients config R) (code : String) (t : ClientTask config R)
    (d e i : Pool.Deed Call (AppState R)) (l : LinkStats) : Prop where
  deeds : t.deeds = [d, e, i]
  read : d.call = .get code
  found : find d.before.repo code = some l
  recordHit : ∃ now, e.call = .recordHit now code
  counted : counts code e = true
  invalidate : i.call = .cacheInvalidate (linkKey code)
  before : d.time < e.time
  followed : followed? p code t =
    if isHeaderValue l.link.targetUrl then some (incarnation p code d.time) else none

/-- A request that has ended has counted no hit and sent its client nowhere, or has
followed the link. -/
theorem ended_cases (code : String) (hsound : Sound crates p) {t : ClientTask config R} (ht : t ∈ p.tasks)
    (hended : t.rest.result?.isSome) :
    ((∀ d ∈ t.deeds, counts code d = false) ∧ followed? p code t = none) ∨
      ∃ d e i l, Follower p code t d e i l := by
  by_cases hreq : t.request.req = .redirect code
  · cases hrest : t.rest with
    | call c k => simp [hrest, Proc.result?] at hended
    | done out =>
        have hfollows := hsound.follows t ht
        rw [hrest] at hfollows
        rcases follows_redirect hreq hfollows with
          ⟨hnone, hstatus⟩ | ⟨d, e, i, l, hdeeds, hget, hfind, hrecord, hcounts, hinvalidate, rfl⟩
        · refine Or.inl ⟨hnone, followed?_eq_none fun _ response hresponse => ?_⟩
          rw [hrest] at hresponse
          exact hstatus response (Proc.done.inj hresponse)
        · have hreads : readsTarget code l.link.targetUrl d = true := by
            simp [readsTarget, hget, LawfulLinkRepository.get_eq, hfind, Store.lookup, Except.map]
          have hordered := hsound.ordered t ht
          rw [hdeeds] at hordered
          refine Or.inr ⟨d, e, i, l, hdeeds, hget, hfind, ⟨_, hrecord⟩, hcounts, hinvalidate,
            List.rel_of_pairwise_cons hordered (by simp), ?_⟩
          unfold followed?
          rw [hreq, hrest]
          cases hvalue : isHeaderValue l.link.targetUrl <;>
            simp [Response.location?_temporaryRedirect, hvalue, hdeeds, hreads]
  · refine Or.inl ⟨fun d hd => ?_, followed?_eq_none fun hredirect => absurd hredirect hreq⟩
    exact Bool.eq_false_iff.mpr fun hcounts => hreq (request_of_counts hsound ht hd hcounts)

omit [LawfulLinkRepository R] in
theorem credited?_of_not_counts {d : Pool.Deed Call (AppState R)} (h : counts code d = false) :
    credited? p code d = none := by
  simp [credited?, h]

/-- A follower has counted one hit. -/
theorem Follower.credited {t : ClientTask config R} {d e i : Pool.Deed Call (AppState R)} {l : LinkStats}
    (h : Follower p code t d e i l) :
    t.deeds.filterMap (credited? p code) = [incarnation p code e.time] := by
  have hd : counts code d = false := by simp [counts, h.read]
  have hi : counts code i = false := by simp [counts, h.invalidate]
  simp [h.deeds, credited?, hd, h.counted, hi]

/-- The calls of a follower that read and count are its first and its second. -/
theorem Follower.eq_of_reads {t : ClientTask config R} {d e i d' : Pool.Deed Call (AppState R)}
    {l : LinkStats} (h : Follower p code t d e i l) (hd' : d' ∈ t.deeds) (hreads : reads code d') :
    d' = d := by
  obtain ⟨now, hrecord⟩ := h.recordHit
  simp only [h.deeds, List.mem_cons, List.not_mem_nil, or_false] at hd'
  rcases hd' with rfl | rfl | rfl
  · rfl
  · simp [reads, hrecord] at hreads
  · simp [reads, h.invalidate] at hreads

theorem Follower.eq_of_counts {t : ClientTask config R} {d e i e' : Pool.Deed Call (AppState R)}
    {l : LinkStats} (h : Follower p code t d e i l) (he' : e' ∈ t.deeds) (hcounts : counts code e') :
    e' = e := by
  simp only [h.deeds, List.mem_cons, List.not_mem_nil, or_false] at he'
  rcases he' with rfl | rfl | rfl
  · simp [counts, h.read] at hcounts
  · rfl
  · simp [counts, h.invalidate] at hcounts

omit [LawfulLinkRepository R] in
theorem incarnation_le {time time' : Nat} (hle : time ≤ time') :
    incarnation p code time ≤ incarnation p code time' := by
  unfold incarnation
  apply List.countP_mono_left
  intro d _
  simp only [Bool.and_eq_true, decide_eq_true_eq]
  exact fun ⟨hinserts, hlt⟩ => ⟨hinserts, by omega⟩

/-- A request that has ended has credited the link it has followed. -/
theorem filterMap_task (hsound : Sound crates p) (h : Matched code p) {t : ClientTask config R}
    (ht : t ∈ p.tasks) (hended : t.rest.result?.isSome) :
    t.deeds.filterMap (credited? p code) = (followed? p code t).toList := by
  rcases ended_cases code hsound ht hended with ⟨hnone, hfollowed⟩ | ⟨d, e, i, l, hfollower⟩
  · rw [List.filterMap_eq_nil_iff.mpr fun d hd => credited?_of_not_counts (hnone d hd), hfollowed]
    rfl
  · have hreads : reads code d = true := by simp [reads, hfollower.read]
    obtain ⟨hinserts, hvalue⟩ := h t ht d (by simp [hfollower.deeds]) hreads e
      (by simp [hfollower.deeds]) hfollower.counted hfollower.before
    rw [hfollower.credited, hfollower.followed, if_pos (hvalue l hfollower.found),
      incarnation_eq (Nat.le_of_lt hfollower.before) hinserts]
    rfl

/-! ## the condition is exact -/

omit [LawfulLinkRepository R] in
theorem matched_of_step [LawfulLinkRepository R] (m : Pool.Move (Api.Arrival config) SystemTime)
    (h : Matched code (step crates p m)) : Matched code p := by
  intro t ht d hd hreads e he hcounts hlt
  obtain ⟨t', ht', hgrown⟩ := Pool.exists_task_step m ht
  obtain ⟨hinserts, hvalue⟩ := h t' ht' d (hgrown.subset hd) hreads e (hgrown.subset he) hcounts hlt
  exact ⟨fun i hi => hinserts i (Pool.mem_deeds_step m hi), hvalue⟩

theorem countsWhatItRead_of_step (hsound : Sound crates p) (m : Pool.Move (Api.Arrival config) SystemTime)
    (h : Matched code (step crates p m)) : CountsWhatItRead code p m := by
  cases m with
  | env now => trivial
  | start q => trivial
  | advance i =>
      intro t ht now k hr hfound d hd hreads
      have hmem : t ∈ p.tasks := List.mem_of_getElem? ht
      have hstep : step crates p (.advance i) = p.called AppState.exec i t (.recordHit now code) k := by
        simp only [step, Pool.step, ht, hr]
      rw [hstep] at h
      obtain ⟨l, hl⟩ := Option.ne_none_iff_exists'.mp hfound
      obtain ⟨hinserts, hvalue⟩ := h _ (List.mem_set (List.getElem?_eq_some_iff.mp ht).1 _) d
        (List.mem_append_left _ hd) hreads ⟨p.clock, .recordHit now code, p.state⟩ (by simp)
        (counts_recordHit hl) (hsound.applied t hmem d hd).2.1
      refine ⟨fun e he hinsert => ?_, hvalue⟩
      obtain ⟨u, hu, heu⟩ := Pool.mem_deeds.mp he
      have hlt : e.time < p.clock := (hsound.applied u hu e heu).2.1
      rcases hinserts e ((Pool.deeds_called ht).mem_iff.mpr (List.mem_cons_of_mem _ he)) hinsert with
        hbefore | hafter
      · exact hbefore
      · exact absurd hafter (Nat.lt_asymm hlt)

/-- What is counted no later than it is credited, and as often, is counted where it is
credited. -/
theorem eq_of_perm_filterMap {τ : Type} {f g : τ → Option Nat} {l : List τ}
    (hle : ∀ t ∈ l, ∀ b, g t = some b → ∃ a, f t = some a ∧ b ≤ a)
    (h : (l.filterMap f).Perm (l.filterMap g)) : ∀ t ∈ l, f t = g t := by
  have hbounds : ∀ l : List τ, (∀ t ∈ l, ∀ b, g t = some b → ∃ a, f t = some a ∧ b ≤ a) →
      (l.filterMap g).length ≤ (l.filterMap f).length ∧ (l.filterMap g).sum ≤ (l.filterMap f).sum ∧
        ((l.filterMap g).length = (l.filterMap f).length →
          (l.filterMap g).sum = (l.filterMap f).sum → ∀ t ∈ l, f t = g t) := by
    intro l hle
    induction l with
    | nil => simp
    | cons t l ih =>
        simp only [List.mem_cons, forall_eq_or_imp] at hle ⊢
        obtain ⟨hlength, hsum, heq⟩ := ih hle.2
        cases hg : g t with
        | some b =>
            obtain ⟨a, hf, hba⟩ := hle.1 b hg
            rw [List.filterMap_cons_some hg, List.filterMap_cons_some hf, hf]
            simp only [List.length_cons, List.sum_cons]
            refine ⟨by omega, by omega, fun hl hs => ?_⟩
            have hab : a = b := by omega
            exact ⟨by rw [hab], heq (by omega) (by omega)⟩
        | none =>
            rw [List.filterMap_cons_none hg]
            cases hf : f t with
            | none =>
                rw [List.filterMap_cons_none hf]
                exact ⟨hlength, hsum, fun hl hs => ⟨rfl, heq hl hs⟩⟩
            | some a =>
                rw [List.filterMap_cons_some hf]
                simp only [List.length_cons, List.sum_cons]
                exact ⟨by omega, by omega, fun hl _ => by omega⟩
  exact (hbounds l hle).2.2 h.length_eq.symm h.sum_nat.symm

omit [LawfulLinkRepository R] in
/-- Where there is one link, nothing was inserted in between. -/
theorem inserts_of_incarnation_eq {time time' : Nat} (hle : time ≤ time')
    (h : incarnation p code time = incarnation p code time') {d : Pool.Deed Call (AppState R)}
    (hd : d ∈ p.deeds) (hinserts : inserts code d) : d.time < time ∨ time' ≤ d.time := by
  unfold incarnation at h
  rw [List.countP_eq_length_filter, List.countP_eq_length_filter] at h
  have hsub : (p.deeds.filter fun d => inserts code d && decide (d.time < time)).Sublist
      (p.deeds.filter fun d => inserts code d && decide (d.time < time')) := by
    apply List.monotone_filter_right
    intro d
    simp only [Bool.and_eq_true, decide_eq_true_eq]
    exact fun ⟨hinserts, hlt⟩ => ⟨hinserts, by omega⟩
  have hsame := hsub.eq_of_length h
  by_cases hlt : d.time < time'
  · have hmem : d ∈ p.deeds.filter fun d => inserts code d && decide (d.time < time') := by
      simp [hd, hinserts, hlt]
    rw [← hsame] at hmem
    simp only [List.mem_filter, Bool.and_eq_true, decide_eq_true_eq] at hmem
    exact Or.inl hmem.2.2
  · exact Or.inr (Nat.le_of_not_lt hlt)

/-- The link a request has counted a hit of. -/
def counted? (p : Clients config R) (code : String) (t : ClientTask config R) : Option Nat :=
  (t.deeds.find? (counts code)).map (fun d => incarnation p code d.time)

theorem Follower.counted?_eq {t : ClientTask config R} {d e i : Pool.Deed Call (AppState R)}
    {l : LinkStats} (h : Follower p code t d e i l) :
    counted? p code t = some (incarnation p code e.time) := by
  have hd : counts code d = false := by simp [counts, h.read]
  simp [counted?, h.deeds, hd, h.counted]

omit [LawfulLinkRepository R] in
theorem counted?_eq_none {t : ClientTask config R} (h : ∀ d ∈ t.deeds, counts code d = false) :
    counted? p code t = none := by
  rw [counted?, List.find?_eq_none.mpr (by simpa using h)]
  rfl

/-- Where every link is credited, every request has followed the link it counted. -/
theorem counted?_of_eachCredited (hsound : Sound crates p)
    (hended : ∀ t ∈ p.tasks, t.rest.result?.isSome) (h : EachCredited code p) :
    ∀ t ∈ p.tasks, counted? p code t = followed? p code t := by
  have hcounted : ∀ t ∈ p.tasks, t.deeds.filterMap (credited? p code) = (counted? p code t).toList := by
    intro t ht
    rcases ended_cases code hsound ht (hended t ht) with ⟨hnone, _⟩ | ⟨d, e, i, l, hfollower⟩
    · rw [List.filterMap_eq_nil_iff.mpr fun d hd => credited?_of_not_counts (hnone d hd),
        counted?_eq_none hnone]
      rfl
    · rw [hfollower.credited, hfollower.counted?_eq]
      rfl
  have hperm : (p.tasks.filterMap (counted? p code)).Perm (p.tasks.filterMap (followed? p code)) := by
    rw [← Pool.filterMap_deeds hcounted]
    exact List.perm_iff_count.mpr (h hended)
  refine eq_of_perm_filterMap (fun t ht b hb => ?_) hperm
  rcases ended_cases code hsound ht (hended t ht) with ⟨_, hnone⟩ | ⟨d, e, i, l, hfollower⟩
  · rw [hnone] at hb
    cases hb
  · refine ⟨_, hfollower.counted?_eq, ?_⟩
    rw [hfollower.followed] at hb
    split at hb
    · cases hb
      exact incarnation_le (Nat.le_of_lt hfollower.before)
    · cases hb

/-- Where every link is credited, every hit was counted on the link that was read. -/
theorem matched_of_eachCredited (hsound : Sound crates p) (hended : ∀ t ∈ p.tasks, t.rest.result?.isSome)
    (h : EachCredited code p) : Matched code p := by
  intro t ht d' hd' hreads e' he' hcounts _
  have hsame := counted?_of_eachCredited hsound hended h t ht
  rcases ended_cases code hsound ht (hended t ht) with ⟨hnone, _⟩ | ⟨d, e, i, l, hfollower⟩
  · rw [hnone e' he'] at hcounts
    cases hcounts
  · obtain rfl := hfollower.eq_of_reads hd' hreads
    obtain rfl := hfollower.eq_of_counts he' hcounts
    rw [hfollower.counted?_eq, hfollower.followed] at hsame
    split at hsame
    · rename_i hvalue
      refine ⟨fun i' hi' hinserts => ?_, fun l' hl' => ?_⟩
      · have hside := inserts_of_incarnation_eq (Nat.le_of_lt hfollower.before)
          (Option.some.inj hsame).symm hi' hinserts
        have hne : e'.time ≠ i'.time := by
          intro htime
          obtain rfl := List.inj_on_of_nodup_map hsound.distinct (Pool.mem_deeds.mpr ⟨t, ht, he'⟩) hi' htime
          obtain ⟨now, hrecord⟩ := hfollower.recordHit
          simp [inserts, hrecord] at hinserts
        omega
      · rw [hfollower.found] at hl'
        cases hl'
        exact hvalue
    · cases hsame

/-- A hit that was counted on another link stays so. -/
theorem along_of_matched (s : AppState R) (moves : List (Pool.Move (Api.Arrival config) SystemTime))
    (h : Matched code (Run.reach (step crates) (Pool.new s) moves)) :
    Run.Along (step crates) (CountsWhatItRead code) (Pool.new s) moves := by
  have hall : ∀ (moves : List (Pool.Move (Api.Arrival config) SystemTime)) (p : Clients config R),
      Sound crates p → Matched code (Run.reach (step crates) p moves) →
        Matched code p ∧ Run.Along (step crates) (CountsWhatItRead code) p moves := by
    intro moves
    induction moves with
    | nil => exact fun p _ h => ⟨h, trivial⟩
    | cons m moves ih =>
        intro p hsound h
        obtain ⟨hnext, halong⟩ := ih (step crates p m) (hsound.step m) h
        exact ⟨matched_of_step m hnext, countsWhatItRead_of_step hsound m hnext, halong⟩
  exact (hall moves (Pool.new s) (Pool.sound_new s) h).2

/-- **A hit is credited to the link that was followed**, in every state of a run in
which each redirect counts its hit on the link it has read; and in no other run that
ends with no request in progress. -/
theorem throughout_eachCredited (crates : Crates) (code : String) (s : AppState R)
    (moves : List (Pool.Move (Api.Arrival config) SystemTime)) :
    (Run.Along (step crates) (CountsWhatItRead code) (Pool.new s) moves →
      Run.Throughout (step crates) (EachCredited code) (Pool.new s) moves) ∧
    ((∀ t ∈ (Run.reach (step crates) (Pool.new s) moves).tasks, t.rest.result?.isSome) →
      EachCredited code (Run.reach (step crates) (Pool.new s) moves) →
        Run.Along (step crates) (CountsWhatItRead code) (Pool.new s) moves) := by
  constructor
  · intro h
    have hall : Run.Throughout (step crates)
        (fun p : Clients config R => Sound crates p ∧ Matched code p) (Pool.new s) moves := by
      refine Run.throughout_of_step ?_ ?_ h
      · rintro p m ⟨hsound, hmatched⟩ hread
        exact ⟨hsound.step m, matched_step hsound hmatched m hread⟩
      · exact ⟨Pool.sound_new s, by simp [Matched, Pool.new]⟩
    refine hall.mono fun p hp hended link => ?_
    rw [Pool.filterMap_deeds fun t ht => filterMap_task hp.1 hp.2 ht (hended t ht)]
  · exact fun hended h => along_of_matched s moves
      (matched_of_eachCredited (Pool.sound_reach s moves) hended h)

/-- A request at the epoch. -/
def atEpoch (req : Api.Request (Config.mk 1 1)) : Api.Arrival (Config.mk 1 1) := ⟨.UNIX_EPOCH, none, req⟩

def promoRequest : Api.Arrival (Config.mk 1 1) :=
  atEpoch (.createLink (fun _ => Api.letterA) ⟨"https://example.com/", some "promo2026", none⟩)

/-- The link is deleted and created again between the two calls of a redirect. -/
def overtaken : Clients (Config.mk 1 1) InMemoryRepo :=
  Run.reach (step Api.oneUrl) (Pool.new ⟨.new, .new, .disabled⟩)
    [.start promoRequest, .advance 0, .advance 0, .start (atEpoch (.redirect "promo2026")), .advance 1,
      .start (atEpoch (.deleteLink "promo2026")), .advance 2, .advance 2,
      .start promoRequest, .advance 3, .advance 3, .advance 1, .advance 1]

/-- The second link has the hit of the redirect to the first. -/
theorem not_eachCredited_overtaken : ¬ EachCredited "promo2026" overtaken := by
  intro h
  have hcredited : overtaken.deeds.filterMap (credited? overtaken "promo2026") = [2] := by rfl
  have hfollowed : overtaken.tasks.filterMap (followed? overtaken "promo2026") = [1] := by rfl
  have hended : ∀ t ∈ overtaken.tasks, t.rest.result?.isSome := by
    have hall : overtaken.tasks.all (fun t => t.rest.result?.isSome) = true := by rfl
    exact List.all_eq_true.mp hall
  have hcount := h hended 2
  rw [hcredited, hfollowed] at hcount
  cases hcount

end Credited

end Shorty
