import Shorty.Auth.Acceptance
import Shorty.Router.Serving
import Shorty.Timed.Recency

/-!
# Shorty.Router.Answers

What the HTTP server answers.  Every request is answered once at most and counted when it
is, and whatever its handler makes of it, its answer carries its identifier, in the header
and, where it is an error of the service, in the body.  The answers of the layers outside
`PropagateRequestIdLayer` carry none.
-/

namespace Shorty

namespace Router

open Handler (Returns returns_pure returns_throw returns_bind)

/-! ## the identifier in the body -/

/-- A response that shows this identifier as that of its request, if any. -/
def Shows (id : Option String) (response : Response) : Prop :=
  ∀ shown, response.body.requestId? = some shown → shown = id

section Handlers

variable {config : Config} {crates : Crates} {now : SystemTime} {id : Option String}

theorem shows_of_none {response : Response} (h : response.body.requestId? = none) : Shows id response :=
  fun shown hshown => by simp [h] at hshown

theorem shows_ofError (id : Option String) (e : AppError) : Shows id (.ofError id e) :=
  fun _ hshown => (Option.some.inj hshown).symm

theorem shows_ofAuthError (id : Option String) (e : AuthError) : Shows id (.ofAuthError id e) :=
  fun _ hshown => (Option.some.inj hshown).symm

theorem shows_created {location : String} {body : Body} (h : body.requestId? = none) :
    Shows id (.created location body) := by
  unfold Response.created
  split
  · exact shows_of_none h
  · exact shows_of_none rfl

theorem shows_temporaryRedirect (location : String) : Shows id (.temporaryRedirect location) := by
  unfold Response.temporaryRedirect
  split
  · exact shows_of_none rfl
  · exact shows_of_none rfl

theorem Shows.sent {response : Response} (h : Shows id response) (method : Method) :
    Shows id (sent method response) := by
  unfold Router.sent
  split
  · exact shows_of_none rfl
  · exact h

/-- A handler of the API shows no identifier in its results. -/
theorem returns_handle (req : Api.Request config) : Returns (Shows id) (Api.handle crates now req) := by
  cases req with
  | createLink draw req =>
      rw [Api.handle, Api.createLink_eq]
      cases Api.validateCreate crates now req with
      | error failure => exact returns_throw failure
      | ok checked =>
          refine returns_bind _ (fun code => returns_bind _ (fun answer => returns_bind _ (fun stats => ?_)))
          exact returns_pure (shows_created rfl)
  | updateLink code req =>
      refine returns_bind _ (fun url => returns_bind _ (fun answer => returns_bind _ (fun link => ?_)))
      exact returns_bind _ (fun _ => returns_pure (shows_of_none rfl))
  | getLink code =>
      refine returns_bind _ (fun (found : Option LinkResponse) => ?_)
      cases found with
      | some cached => exact returns_pure (shows_of_none rfl)
      | none =>
          refine returns_bind _ (fun answer => returns_bind _ (fun stats => ?_))
          exact returns_bind _ (fun _ => returns_pure (shows_of_none rfl))
  | listLinks limit cursor =>
      refine returns_bind _ (fun answer => returns_bind _ (fun page => returns_bind _ (fun links => ?_)))
      exact returns_pure (shows_of_none rfl)
  | redirect code =>
      refine returns_bind _ (fun answer => returns_bind _ (fun link => ?_))
      split
      · exact returns_throw _
      · refine returns_bind _ (fun hits => returns_bind _ (fun _ => returns_bind _ (fun _ => ?_)))
        exact returns_pure (shows_temporaryRedirect _)
  | deleteLink code =>
      refine returns_bind _ (fun answer => returns_bind _ (fun _ => returns_bind _ (fun _ => ?_)))
      exact returns_pure (shows_of_none rfl)
  | getLinkStats code =>
      refine returns_bind _ (fun answer => returns_bind _ (fun link => ?_))
      split
      · exact returns_throw _
      · exact returns_bind _ (fun _ => returns_pure (shows_of_none rfl))
  | getTopStats limit => exact returns_bind _ (fun _ => returns_pure (shows_of_none rfl))

end Handlers

section Routes

variable {config : Config} {crates : Crates} {env : AuthEnv} {auth : Option AuthConfig} {site : Site}
  {req : Incoming config}

theorem returns_withCode {h : String → Handler AppError Response} {id : Option String}
    (hh : ∀ code, Returns (Shows id) (h code)) (captures : List String) :
    Returns (Shows id) (withCode captures h) := by
  unfold withCode
  split
  · split
    · exact hh _
    · exact returns_pure (shows_of_none rfl)
  · exact returns_pure (shows_of_none rfl)

theorem returns_login : Returns (Shows req.requestId) (login env auth req) := by
  unfold login
  cases req.loginBody with
  | error rejection => exact returns_pure (shows_of_none rfl)
  | ok body =>
      simp only
      cases Auth.loginHandler env auth req.now body with
      | ok response => exact returns_pure (shows_of_none rfl)
      | error failure =>
          cases failure with
          | error e => exact returns_pure (shows_ofAuthError _ e)
          | panicked => exact returns_throw _

theorem returns_endpoint (hsite : (∀ path, (site.swaggerUi path).body.requestId? = none) ∧
      site.openapi.body.requestId? = none) (captures : List String) (e : Endpoint) :
    Returns (Shows req.requestId) (endpoint crates env auth site req captures e) := by
  have hapi : ∀ r : Api.Request config, Returns (Shows req.requestId) (Api.handle crates req.now r) :=
    returns_handle
  cases e with
  | login => exact returns_login
  | swaggerUi => exact returns_pure (shows_of_none (hsite.1 _))
  | openapi => exact returns_pure (shows_of_none hsite.2)
  | healthz | version | slow | slowBlocking | metrics => exact returns_pure (shows_of_none rfl)
  | readyz =>
      refine returns_pure (shows_of_none ?_)
      unfold readyz
      split
      · rfl
      · split <;> rfl
  | redirect => exact returns_withCode (fun code => hapi (.redirect code)) captures
  | getLink => exact returns_withCode (fun code => hapi (.getLink code)) captures
  | deleteLink => exact returns_withCode (fun code => hapi (.deleteLink code)) captures
  | getLinkStats => exact returns_withCode (fun code => hapi (.getLinkStats code)) captures
  | updateLink =>
      exact returns_withCode (fun code => returns_bind _ (fun body => hapi (.updateLink code body))) captures
  | createLink => exact returns_bind _ (fun body => hapi (.createLink req.draw body))
  | listLinks => exact hapi (.listLinks _ _)
  | getTopStats =>
      unfold endpoint
      cases req.topQuery with
      | ok limit => exact hapi (.getTopStats limit)
      | error rejection => exact returns_pure (shows_of_none rfl)

theorem returns_dispatch (hsite : (∀ path, (site.swaggerUi path).body.requestId? = none) ∧
      site.openapi.body.requestId? = none) : Returns (Shows req.requestId) (dispatch crates env auth site req) := by
  have hmethods : ∀ r captures,
      Returns (Shows req.requestId) (methodRouter crates env auth site req r captures) := by
    intro r captures
    unfold methodRouter
    split
    · exact (returns_endpoint hsite captures _).bind (fun response hshows => returns_pure (hshows.sent req.method))
    · exact returns_pure (shows_of_none rfl)
  unfold dispatch
  split
  · unfold guardedRouter
    split
    · split
      · exact returns_pure (shows_ofAuthError _ _)
      · exact hmethods _ _
    · exact hmethods _ _
  · exact returns_throw _

end Routes

/-! ## the identifier in the header -/

section Service

variable {config : Config}

/-- An answer carries the identifier of its request, unless it is one of the layers outside
`PropagateRequestIdLayer`. -/
def Correlates (d : Setup) (w : Wire config) (out : Outbound) : Prop :=
  (out.requestIdHeader = some w.requestId ∧ Shows (Auth.headerToStr w.requestId) out.response) ∨
    out = timedOut ∨ (out = payloadTooLarge ∧ ∃ n, w.contentLength = some n ∧ d.maxBodyBytes < n)

theorem returns_buildService (d : Setup) (w : Wire config) :
    Proc.Returns (fun out => ∀ o, out = some o → Correlates d w o) (buildService d w) := by
  rw [buildService_eq]
  by_cases hlimit : w.contentLength.any (d.maxBodyBytes < ·) = true
  · rw [if_pos hlimit]
    obtain ⟨n, hn, hlong⟩ := (Option.any_eq_true _ _).mp hlimit
    exact .done (fun o ho => .inr (.inr ⟨(Option.some.inj ho).symm, n, hn, of_decide_eq_true hlong⟩))
  · rw [if_neg hlimit]
    have hdispatch : Returns (Shows w.scoped.incoming.requestId)
        (dispatch d.deployment.crates d.env d.auth w.site w.scoped.incoming) := returns_dispatch w.foreign
    have hanswer : Proc.Returns (fun out => ∀ response, out = some response →
        Shows (Auth.headerToStr w.requestId) response) (Api.answer w.scoped.incoming.requestId <$>
          ExceptT.run (dispatch d.deployment.crates d.env d.auth w.site w.scoped.incoming)) := by
      refine Proc.Returns.map hdispatch (fun out hout response hresponse => ?_)
      cases out with
      | ok r => exact Option.some.inj hresponse ▸ hout r rfl
      | error failure =>
          cases failure with
          | error e => exact Option.some.inj hresponse ▸ shows_ofError _ e
          | panicked => cases hresponse
    have hroutes : Proc.Returns (fun out => ∀ o : Outbound, out = some o → o.requestIdHeader = none ∧
        Shows (Auth.headerToStr w.requestId) o.response) (routes d w.scoped) := by
      refine Proc.Returns.map hanswer (fun out hout o ho => ?_)
      obtain ⟨response, hresponse, rfl⟩ := Option.map_eq_some_iff.mp ho
      exact ⟨rfl, (hout response hresponse).sent _⟩
    refine Proc.Returns.map hroutes (fun out hout o ho => ?_)
    obtain ⟨o', ho', rfl⟩ := Option.map_eq_some_iff.mp ho
    obtain ⟨hnone, hshows⟩ := hout o' ho'
    exact .inl ⟨by simp [hnone], hshows⟩

end Service

/-! ## the answers of the server -/

namespace Front

variable {config : Config} {R : Type} [LinkRepository R] {d : Setup} {s : Front config R} {total : Label → Nat}

abbrev Sound (d : Setup) (p : Requests config R) : Prop :=
  Pool.Sound (Timed.State.exec d.deployment.json) (buildService d) Timed.State.elapse p

/-- What a handler has come to, once it has slept; or, where it has come to nothing, or was to
sleep for longer than the timeout, what `TimeoutLayer` answers. -/
def Due (d : Setup) (rest : Proc Call.Resp (Option Outbound)) (e : Exchange config) : Prop :=
  (rest.result? = some (some e.response) ∧ sleepMs d e.request ≤ e.ageMs) ∨
    (e.response = timedOut ∧ d.deployment.requestTimeoutMs ≤ e.ageMs ∧
      (rest.result? = none ∨ isBlocking e.request = false ∧ d.deployment.requestTimeoutMs < sleepMs d e.request))

omit [LinkRepository R] in
theorem due_outcome {p : Requests config R} {i : Nat} {out : Outbound}
    {t : Pool.Task (Wire config) Call.Resp (Option Outbound) (Timed.State R)} (hout : outcome? d p t = some out) :
    Due d t.rest ⟨i, t.request, out, ageMs p t⟩ := by
  unfold outcome? at hout
  split at hout
  · rename_i hresult
    refine .inl ⟨?_, hresult.2.1⟩
    obtain ⟨result, hrest⟩ := Option.isSome_iff_exists.mp hresult.1
    rw [hrest] at hout ⊢
    exact congrArg some hout
  · rename_i hresult
    simp only [Option.ite_none_right_eq_some, Option.some.injEq] at hout
    obtain ⟨⟨hover, hworker⟩, rfl⟩ := hout
    refine .inr ⟨rfl, hover, ?_⟩
    cases hrest : t.rest.result? with
    | none => exact .inl rfl
    | some result =>
        simp only [hrest, Option.isSome_some, true_and, Bool.not_eq_true] at hresult hworker
        refine .inr ⟨hworker, ?_⟩
        simp only [hworker, Bool.false_eq_true, or_false, not_and, Nat.not_le] at hresult
        show d.deployment.requestTimeoutMs < sleepMs d t.request
        by_contra hle
        exact hle (hresult (by omega))

/-- What the server has answered. -/
structure Answers (d : Setup) (total : Label → Nat) (s : Front config R) : Prop where
  /-- Every request is answered once at most ... -/
  once : (s.answered.map Exchange.index).Nodup
  /-- ... what its handler has come to, or `TimeoutLayer` where it came to nothing in time ... -/
  due : ∀ e ∈ s.answered, ∃ t, s.requests.tasks[e.index]? = some t ∧ t.request = e.request ∧ Due d t.rest e
  /-- ... with its identifier ... -/
  correlates : ∀ e ∈ s.answered, Correlates d e.request e.response
  /-- ... and counted when it is. -/
  counted : ∀ l, s.requestsTotal l = total l + s.answered.countP (fun e => label e = l)

/-- A request that makes no call stays where it is. -/
theorem task_move {p : Requests config R} (m : Pool.Move (Wire config) Timed.Event) {j : Nat} (hj : m ≠ .advance j)
    {t : Pool.Task (Wire config) Call.Resp (Option Outbound) (Timed.State R)} (ht : p.tasks[j]? = some t) :
    (move d p m).tasks[j]? = some t := by
  have hlt : j < p.tasks.length := (List.getElem?_eq_some_iff.mp ht).1
  cases m with
  | start w => simp [move, Pool.step, List.getElem?_append_left hlt, ht]
  | env e => exact ht
  | advance i =>
      have hne : i ≠ j := fun hij => hj (by rw [hij])
      have hadvance : move d p (.advance i) = p ∨ ∃ u c k, p.tasks[i]? = some u ∧ u.rest = .call c k ∧
          move d p (.advance i) = p.called (Timed.State.exec d.deployment.json) i u c k := Pool.step_advance p i
      obtain hstay | ⟨u, c, k, _, _, hcalled⟩ := hadvance
      · rw [hstay]
        exact ht
      · rw [hcalled]
        simp [Pool.called, List.getElem?_set_ne hne, ht]

/-- The server is sound, and has answered so. -/
structure Kept (d : Setup) (total : Label → Nat) (s : Front config R) : Prop where
  sound : Sound d s.requests
  answers : Answers d total s

/-- A move of the requests that does not go on with one that is answered. -/
theorem Kept.moved (h : Kept d total s) (m : Pool.Move (Wire config) Timed.Event)
    (hm : ∀ i, m = .advance i → s.isAnswered i = false) :
    Kept d total { s with requests := move d s.requests m } where
  sound := h.sound.step m
  answers := by
    refine ⟨h.answers.once, fun e he => ?_, h.answers.correlates, h.answers.counted⟩
    obtain ⟨t, ht, hrequest, hdue⟩ := h.answers.due e he
    have hne : m ≠ .advance e.index := by
      intro hadvance
      have hanswered := hm e.index hadvance
      simp only [isAnswered, List.any_eq_false, decide_eq_true_eq] at hanswered
      exact hanswered e he rfl
    exact ⟨t, task_move m hne ht, hrequest, hdue⟩

/-- An answer. -/
theorem Kept.responded (h : Kept d total s) {i : Nat} {out : Outbound}
    {t : Pool.Task (Wire config) Call.Resp (Option Outbound) (Timed.State R)} (ht : s.requests.tasks[i]? = some t)
    (hnew : s.isAnswered i = false) (hout : outcome? d s.requests t = some out) :
    Kept d total { s with
      answered := s.answered ++ [⟨i, t.request, out, ageMs s.requests t⟩]
      requestsTotal := count (label ⟨i, t.request, out, ageMs s.requests t⟩) s.requestsTotal } where
  sound := h.sound
  answers := by
    have hdue : Due d t.rest ⟨i, t.request, out, ageMs s.requests t⟩ := due_outcome hout
    have hcorrelates : Correlates d t.request out := by
      have hreturns := Pool.returns_of_follows (h.sound.follows t (List.mem_of_getElem? ht))
        (returns_buildService d t.request)
      obtain ⟨hresult, _⟩ | ⟨htimed, _, _⟩ := hdue
      · cases hrest : t.rest with
        | done result =>
            rw [hrest] at hreturns hresult
            exact hreturns.of_done out (Option.some.inj hresult)
        | call c k => simp [hrest, Proc.result?] at hresult
      · exact .inr (.inl htimed)
    refine ⟨?_, ?_, ?_, fun l => ?_⟩
    · rw [List.map_append]
      refine List.nodup_append.mpr ⟨h.answers.once, by simp, ?_⟩
      intro a ha b hb
      obtain ⟨e, he, rfl⟩ := List.mem_map.mp ha
      obtain rfl : b = i := by simpa using hb
      simp only [isAnswered, List.any_eq_false, decide_eq_true_eq] at hnew
      exact hnew e he
    · intro e he
      obtain hold | hlast := List.mem_append.mp he
      · exact h.answers.due e hold
      · rw [List.mem_singleton.mp hlast]
        exact ⟨t, ht, rfl, hdue⟩
    · intro e he
      obtain hold | hlast := List.mem_append.mp he
      · exact h.answers.correlates e hold
      · rw [List.mem_singleton.mp hlast]
        exact hcorrelates
    · rw [List.countP_append, ← Nat.add_assoc, ← h.answers.counted l]
      simp [count, List.countP_singleton, eq_comm]

theorem Kept.step (h : Kept d total s) (m : Front.Move config) : Kept d total (s.step d m) := by
  cases m with
  | respond i =>
      simp only [Front.step]
      split
      · exact h
      · rename_i t ht
        split
        · exact h
        · rename_i hnew
          split
          · exact h
          · rename_i out hout
            exact h.responded ht (by simpa using hnew) hout
  | requests m =>
      cases m with
      | start w => exact h.moved _ (fun i hi => by cases hi)
      | env e => exact h.moved _ (fun i hi => by cases hi)
      | advance i =>
          simp only [Front.step]
          split
          · rename_i hpolled
            refine h.moved _ (fun j hj => ?_)
            cases hj
            simp only [isPolled, Bool.and_eq_true, Bool.not_eq_true'] at hpolled
            exact hpolled.1
          · exact h

/-- A redirect of a code, with a body of some length. -/
def redirectOf (path : String) (contentLength : Option Nat) : Wire ⟨1, 1⟩ where
  requestIdHeader := some [97]
  uuid := []
  contentLength := contentLength
  site := ⟨false, none, "", fun _ => .ok .empty, .ok .empty⟩
  foreign := ⟨fun _ => rfl, rfl⟩
  incoming := ⟨.UNIX_EPOCH, none, .get, path, [], none, .error (415, ""), .error (415, ""), .error (415, ""),
    .error (400, ""), fun _ => Api.letterA⟩

/-- A request that is too long, one for a link that is not there, one that takes too long, and
one that sleeps. -/
example : (Run.reach (Front.step ⟨⟨Timed.promoJson, Api.oneUrl, 5000⟩, Auth.strokesEnv, none, 16384⟩)
      (Front.new (R := InMemoryRepo) ⟨.new, .new, .disabled, 0⟩ (fun _ => 0)) [
        .requests (.start (redirectOf "/promo2026" (some 16385))), .respond 0, .respond 0,
        .requests (.start (redirectOf "/promo2026" none)), .respond 1, .requests (.advance 1), .respond 1,
        .requests (.start (redirectOf "/promo2026" none)), .requests (.env (.pass 5000)), .respond 2,
        .requests (.advance 2), .respond 2,
        .requests (.start (redirectOf "/slow" none)), .requests (.env (.pass 1999)), .respond 3,
        .requests (.env (.pass 1)), .respond 3]).answered.map
    (fun e => (e.index, e.response.response.status, e.response.requestIdHeader, e.ageMs)) =
    [(0, 413, none, 0), (1, 404, some [97], 0), (2, 503, none, 5000), (3, 200, some [97], 2000)] := by decide

end Front

end Router

end Shorty
