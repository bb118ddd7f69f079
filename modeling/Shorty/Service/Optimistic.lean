import Shorty.Lib.Pool
import Shorty.Postgres.NoLostUpdate
import Shorty.Service

/-!
# Shorty.Service.Optimistic

HTTP requests of many clients on the PostgreSQL store without a cache, interleaved
at the statements they send.  A client that reads a version and updates with it
expects the link to be the one it read.  The version tells it so as long as the row
stays: every update counts it up (`versionLe_of_present`).  A row that goes and comes
back starts again at the first version.
-/

namespace Shorty

/-- One thing a handler does: a statement of the store, or a call on the rest of the
shared state. -/
inductive SqlCall where
  | statement (st : Statement)
  | cacheGet (key : String)
  | cacheSet (key : String) (value : LinkResponse)
  | cacheInvalidate (key : String)
  | window (code : String)
  | top (limit : Nat)

namespace SqlCall

def Resp : SqlCall → Type
  | statement st => st.Resp
  | cacheGet key => (Call.cacheGet key).Resp
  | cacheSet key value => (Call.cacheSet key value).Resp
  | cacheInvalidate key => (Call.cacheInvalidate key).Resp
  | window code => (Call.window code).Resp
  | top limit => (Call.top limit).Resp

variable {db : Database}

def exec : (c : SqlCall) → AppState (PostgresRepo db) → c.Resp × AppState (PostgresRepo db)
  | statement st, s => s.withRepo (st.exec s.repo)
  | cacheGet key, s => AppState.exec (.cacheGet key) s
  | cacheSet key value, s => AppState.exec (.cacheSet key value) s
  | cacheInvalidate key, s => AppState.exec (.cacheInvalidate key) s
  | window code, s => AppState.exec (.window code) s
  | top limit, s => AppState.exec (.top limit) s

/-- The statements of a method of the store. -/
def ofRepoCall (c : RepoCall) : Proc Resp c.Resp :=
  Proc.expand (fun st => Proc.request (.statement st)) c.program

theorem run_ofRepoCall (c : RepoCall) (s : AppState (PostgresRepo db)) :
    Proc.run exec (ofRepoCall c) s = s.withRepo (c.exec s.repo) := by
  have hrun : ∀ {α : Type} (p : Proc Statement.Resp α) (s : AppState (PostgresRepo db)),
      Proc.run exec (Proc.expand (fun st => Proc.request (.statement st)) p) s =
        s.withRepo (Proc.run Statement.exec p s.repo) := by
    intro α p
    induction p with
    | done a => intro s; rfl
    | call st k ih => exact fun s => ih _ _
  rw [ofRepoCall, hrun, RepoCall.run_program]

end SqlCall

/-- A call of a handler, a statement at a time. -/
def Call.statements : (c : Call) → Proc SqlCall.Resp c.Resp
  | .insert now link => SqlCall.ofRepoCall (.insert now link)
  | .get code => SqlCall.ofRepoCall (.get code)
  | .update now code targetUrl version => SqlCall.ofRepoCall (.update now code targetUrl version)
  | .remove code => SqlCall.ofRepoCall (.remove code)
  | .recordHit _ code => SqlCall.ofRepoCall (.recordHit code)
  | .stats code => SqlCall.ofRepoCall (.stats code)
  | .list now limit cursor => some <$> SqlCall.ofRepoCall (.list now limit cursor)
  | .cacheGet key => Proc.request (SqlCall.cacheGet key)
  | .cacheSet key value => Proc.request (SqlCall.cacheSet key value)
  | .cacheInvalidate key => Proc.request (SqlCall.cacheInvalidate key)
  | .window code => Proc.request (SqlCall.window code)
  | .top limit => Proc.request (SqlCall.top limit)

/-- **Refinement**: the statements of a call, with nothing in between, are the call. -/
theorem Call.run_statements {db : Database} (c : Call) (s : AppState (PostgresRepo db)) :
    Proc.run SqlCall.exec c.statements s = AppState.exec c s := by
  cases c with
  | insert now link => exact SqlCall.run_ofRepoCall (.insert now link) s
  | get code => exact SqlCall.run_ofRepoCall (.get code) s
  | update now code targetUrl version => exact SqlCall.run_ofRepoCall (.update now code targetUrl version) s
  | remove code => exact SqlCall.run_ofRepoCall (.remove code) s
  | recordHit now code => exact SqlCall.run_ofRepoCall (.recordHit code) s
  | stats code => exact SqlCall.run_ofRepoCall (.stats code) s
  | list now limit cursor =>
      refine (Proc.run_map some (SqlCall.ofRepoCall (.list now limit cursor)) s).trans ?_
      rw [SqlCall.run_ofRepoCall]
      rfl
  | cacheGet key => rfl
  | cacheSet key value => rfl
  | cacheInvalidate key => rfl
  | window code => rfl
  | top limit => rfl

namespace Optimistic

/-- A request and the client that makes it. -/
structure ClientRequest (config : Config) where
  client : Nat
  arrival : Api.Arrival config

variable {config : Config} (crates : Crates) {db : Database}

/-- What is done for a request, a statement at a time. -/
def program (q : ClientRequest config) : Proc SqlCall.Resp (Option Response) :=
  Api.answer q.arrival.requestId <$>
    Proc.expand Call.statements (ExceptT.run (Api.handle crates q.arrival.now q.arrival.req))

/-- **Refinement**: the statements of a request, with nothing in between, serve it. -/
theorem run_program (q : ClientRequest config) (s : AppState (PostgresRepo db)) :
    Proc.run SqlCall.exec (program crates q) s =
      Api.serve crates q.arrival.now q.arrival.requestId q.arrival.req s := by
  rw [program, Proc.run_map, Proc.run_expand Call.run_statements]
  rfl

/-- The clients of the service. -/
abbrev Clients (config : Config) (db : Database) :=
  Pool (ClientRequest config) SqlCall.Resp (Option Response) (AppState (PostgresRepo db))

abbrev ClientTask (config : Config) (db : Database) :=
  Pool.Task (ClientRequest config) SqlCall.Resp (Option Response) (AppState (PostgresRepo db))

/-- One move of the clients, or a tick of the cleaner. -/
def step : Clients config db → Pool.Move (ClientRequest config) SystemTime → Clients config db :=
  Pool.step SqlCall.exec (program crates) Service.tick

/-- The service before its first request, without a cache. -/
def opening (r : PostgresRepo db) (stats : StatsStorage) : Clients config db :=
  Pool.new ⟨r, stats, .disabled⟩

/-- The statement of an update, a delete or a create that changed the code. -/
def TookEffect (code : String) (d : Pool.Deed SqlCall (AppState (PostgresRepo db))) : Prop :=
  match d.call with
  | .statement (.insert now link) => link.code = code ∧ (d.before.repo.insert now link).1 = .ok ()
  | .statement (.updateWhereVersion now code' targetUrl version) => code' = code ∧
      ∃ row, (d.before.repo.updateWhereVersion now code' targetUrl version).1 = .ok (some row)
  | .statement (.delete code') => code' = code ∧ (d.before.repo.deleteRow code').1 = .ok 1
  | _ => False

/-- A `get_link` of the code that answered with a version. -/
structure ReadVersion (code : String) (version : Int64) (t : ClientTask config db) : Prop where
  request : t.request.arrival.req = .getLink code
  answered : ∃ body : LinkResponse, t.rest = .done (some (.ok (.link body))) ∧ body.version = version

/-- An `update_link` of the code, given a version, that succeeded. -/
structure Updated (code : String) (version : Int64) (t : ClientTask config db) : Prop where
  request : ∃ req : UpdateLinkRequest, t.request.arrival.req = .updateLink code req ∧
    req.version = version
  answered : ∃ response : Response, t.rest = .done (some response) ∧ response.status = 200

/-- One request had ended before the other began. -/
def Before (t t' : ClientTask config db) : Prop := ∀ d ∈ t.deeds, d.time < t'.startedAt

/-- Between the statement that reads for one request and the one that writes for the
other, no update, delete or create of another client took effect. -/
def UnchangedBetween (p : Clients config db) (code : String) (t t' : ClientTask config db) : Prop :=
  ∃ d ∈ t.deeds, d.call = .statement (.selectRow code) ∧
    ∃ d' ∈ t'.deeds, TookEffect code d' ∧
      ∀ u ∈ p.tasks, u.request.client ≠ t.request.client →
        ∀ e ∈ u.deeds, TookEffect code e → ¬ (d.time < e.time ∧ e.time < d'.time)

/-- An update with a version its client has read proves that nothing has changed. -/
def ProvesUnchanged (p : Clients config db) : Prop :=
  ∀ t ∈ p.tasks, ∀ t' ∈ p.tasks, t'.request.client = t.request.client →
    ∀ code version, ReadVersion code version t → Updated code version t' → Before t t' →
      UnchangedBetween p code t t'

/-- When the statement of an update is about to match the row, the row has been
there ever since its client read the version. -/
def RowStayed (p : Clients config db) : Pool.Move (ClientRequest config) SystemTime → Prop
  | .advance i => ∀ t', p.tasks[i]? = some t' → ∀ now code targetUrl version k,
      t'.rest = .call (.statement (.updateWhereVersion now code targetUrl version)) k →
        ∀ row, p.state.repo.links.find? code = some row → row.version = version →
          ∀ t ∈ p.tasks, t'.request.client = t.request.client → ReadVersion code version t →
            Before t t' → ∀ d ∈ t.deeds, d.call = .statement (.selectRow code) →
              ∀ time, d.time ≤ time → time ≤ p.clock →
                (p.stateAt time).repo.links.find? code ≠ none
  | _ => True

section History

variable {crates} {p : Clients config db} {code : String}

abbrev Sound (crates : Crates) (p : Clients config db) : Prop :=
  Pool.Sound SqlCall.exec (program crates) Service.tick p

/-! ## one deed -/

/-- What a deed or a tick does to the row of a code, if it is there and stays. -/
def VersionLe (code : String) (s s' : AppState (PostgresRepo db)) : Prop :=
  ∀ row', s'.repo.links.find? code = some row' →
    ∃ row, s.repo.links.find? code = some row ∧ row.version ≤ row'.version

theorem versionLe_refl (s : AppState (PostgresRepo db)) : VersionLe code s s :=
  fun row h => ⟨row, h, Int64.le_refl _⟩

theorem VersionLe.trans {s u v : AppState (PostgresRepo db)} (h : VersionLe code s u)
    (h' : VersionLe code u v) : VersionLe code s v := by
  intro row'' hrow''
  obtain ⟨row', hrow', hle'⟩ := h' row'' hrow''
  obtain ⟨row, hrow, hle⟩ := h row' hrow'
  exact ⟨row, hrow, Int64.le_trans hle hle'⟩

/-- A statement keeps the version of a row that is there, or counts it up. -/
theorem versionLe_of_rowChange {r r' : PostgresRepo db} {st : Statement}
    (h : RowChange r code st (r.links.find? code) (r'.links.find? code))
    (hrow : r.links.find? code ≠ none) (row' : LinkRow) (hrow' : r'.links.find? code = some row') :
    ∃ row, r.links.find? code = some row ∧ row.version ≤ row'.version := by
  rw [hrow'] at h
  generalize r.links.find? code = before at h hrow
  generalize hafter : some row' = after at h
  cases h with
  | same => exact ⟨row', hafter.symm, Int64.le_refl _⟩
  | inserted => exact absurd rfl hrow
  | updated now targetUrl row hmax =>
      cases hafter
      refine ⟨row, rfl, Int64.le_iff_toInt_le.mpr ?_⟩
      simp only [PostgresRepo.updatedRow, toInt_succ hmax]
      omega
  | hit row =>
      cases hafter
      exact ⟨row, rfl, Int64.le_refl _⟩
  | deleted => cases hafter
  | expired => cases hafter

theorem versionLe_exec (c : SqlCall) (s : AppState (PostgresRepo db))
    (h : s.repo.links.find? code ≠ none) : VersionLe code s (c.exec s).2 := by
  cases c with
  | statement st => exact versionLe_of_rowChange (rowChange_exec st s.repo code) h
  | cacheGet key => exact versionLe_refl s
  | cacheSet key value => exact versionLe_refl s
  | cacheInvalidate key => exact versionLe_refl s
  | window code => exact versionLe_refl s
  | top limit => exact versionLe_refl s

theorem versionLe_tick (now : SystemTime) (s : AppState (PostgresRepo db))
    (h : s.repo.links.find? code ≠ none) : VersionLe code s (Service.tick now s) :=
  versionLe_of_rowChange (rowChange_exec (.deleteExpired now none) s.repo code) h

/-- **The version of a row only grows** as long as the row is there. -/
theorem versionLe_of_present (hsound : Sound crates p) {time time' : Nat} (hle : time ≤ time')
    (h : ∀ between, time ≤ between → between < time' →
      (p.stateAt between).repo.links.find? code ≠ none) :
    VersionLe code (p.stateAt time) (p.stateAt time') :=
  hsound.rel_stateAt_of_forall versionLe_refl VersionLe.trans
    (fun d _ hd => versionLe_exec d.call d.before hd) versionLe_tick hle h

theorem free_of_insert {r : PostgresRepo db} {now : SystemTime} {link : ShortLink}
    (h : (r.insert now link).1 = .ok ()) : r.links.find? link.code = none := by
  unfold PostgresRepo.insert at h
  split at h
  · split at h
    · split at h
      · cases h
      · assumption
    · cases h
  · cases h

theorem find?_deleteRow (r : PostgresRepo db) (code : String) :
    (r.deleteRow code).2.links.find? code = none := by
  rw [PostgresRepo.deleteRow_snd]
  cases hrow : r.links.find? code with
  | none =>
      rw [PostgresRepo.remove_of_none hrow]
      exact hrow
  | some row => simp [(PostgresRepo.find?_remove hrow).2]

/-- What took effect on a row that was there and stayed counted its version up. -/
theorem version_of_tookEffect {d : Pool.Deed SqlCall (AppState (PostgresRepo db))}
    (h : TookEffect code d) (hbefore : d.before.repo.links.find? code ≠ none)
    (hafter : (d.call.exec d.before).2.repo.links.find? code ≠ none) :
    ∃ row row', d.before.repo.links.find? code = some row ∧
      (d.call.exec d.before).2.repo.links.find? code = some row' ∧
        row'.version.toInt = row.version.toInt + 1 := by
  obtain ⟨time, call, before⟩ := d
  cases call with
  | cacheGet key => exact h.elim
  | cacheSet key value => exact h.elim
  | cacheInvalidate key => exact h.elim
  | window code => exact h.elim
  | top limit => exact h.elim
  | statement st =>
      cases st with
      | selectRow code' => exact h.elim
      | recordHit code' => exact h.elim
      | selectPage now limit cursor => exact h.elim
      | deleteExpired now fault => exact h.elim
      | insert now link =>
          obtain ⟨rfl, hok⟩ := h
          exact absurd (free_of_insert hok) hbefore
      | delete code' =>
          obtain ⟨rfl, _⟩ := h
          exact absurd (find?_deleteRow before.repo code') hafter
      | updateWhereVersion now code' targetUrl version =>
          obtain ⟨rfl, row', hok⟩ := h
          rcases PostgresRepo.updateWhereVersion_cases now code' targetUrl version before.repo with
            ⟨e, herror⟩ | ⟨hmissed, _⟩ | ⟨row, hrow, _, hmax, _, hfind⟩
          · rw [herror] at hok
            cases hok
          · rw [hmissed] at hok
            cases hok
          · refine ⟨row, PostgresRepo.updatedRow db now targetUrl row, hrow, ?_, toInt_succ hmax⟩
            exact (hfind code').trans (if_pos rfl)

/-! ## the requests that read and write -/

/-- Nothing connects the cache. -/
theorem cache_stateAt (hsound : Sound crates p) (hdisabled : (p.stateAt 0).cache = .disabled)
    (time : Nat) : (p.stateAt time).cache = .disabled := by
  have hcall : ∀ (c : SqlCall) (s : AppState (PostgresRepo db)), s.cache = .disabled →
      (c.exec s).2.cache = .disabled := by
    intro c s hs
    cases c with
    | statement st => exact hs
    | cacheGet key => simp [SqlCall.exec, AppState.exec, hs, Cache.get, Cache.disabled]
    | cacheSet key value => simp [SqlCall.exec, AppState.exec, hs, Cache.set, Cache.disabled]
    | cacheInvalidate key => simp [SqlCall.exec, AppState.exec, hs, Cache.invalidate, Cache.disabled]
    | window code => exact hs
    | top limit => exact hs
  exact hsound.rel_stateAt (R := fun s s' => s.cache = .disabled → s'.cache = .disabled)
    (fun _ h => h) (fun h h' hs => h' (h hs)) (fun d _ => hcall d.call d.before) (fun _ _ h => h)
    (Nat.zero_le time) hdisabled

/-- The statements of a `get_link`. -/
theorem statements_getLink (code : String) :
    Proc.expand Call.statements (ExceptT.run (Api.getLink code)) =
      .call (.cacheGet (linkKey code)) (fun (found : Option LinkResponse) => match found with
        | some cached => .done (.ok (.ok (.link cached)))
        | none => .call (.statement (.selectRow code)) (fun (row : Except RepoError (Option LinkRow)) =>
            match RepoCall.expectRow code LinkRow.toLinkStats row with
            | .ok stats => .call (.cacheSet (linkKey code) (.ofLinkStats stats))
                (fun _ => .done (.ok (.ok (.link (.ofLinkStats stats)))))
            | .error e => .done (.error (.error (.ofRepoError e))))) := by
  show Proc.call _ _ = Proc.call _ _
  congr 1
  funext found
  cases found with
  | some cached => rfl
  | none =>
      show Proc.call _ _ = Proc.call _ _
      congr 1
      funext row
      rcases row with e | _ | row <;> rfl

theorem row_of_expectRow {r : PostgresRepo db} {α : Type} {f : LinkRow → α} {a : α}
    (h : RepoCall.expectRow code f (r.selectRow code) = .ok a) :
    ∃ row, r.links.find? code = some row ∧ a = f row := by
  unfold PostgresRepo.selectRow at h
  split at h
  · cases hrow : r.links.find? code with
    | none =>
        rw [hrow] at h
        cases h
    | some row =>
        rw [hrow] at h
        cases h
        exact ⟨row, rfl, rfl⟩
  · cases h

/-- A `get_link` that answered with a version has read it. -/
theorem read_of_readVersion (hsound : Sound crates p) (hdisabled : (p.stateAt 0).cache = .disabled)
    {t : ClientTask config db} (ht : t ∈ p.tasks) {version : Int64} (h : ReadVersion code version t) :
    ∃ d ∈ t.deeds, d.call = .statement (.selectRow code) ∧
      ∃ row, d.before.repo.links.find? code = some row ∧ row.version = version := by
  obtain ⟨body, hrest, hversion⟩ := h.answered
  have hfollows := hsound.follows t ht
  rw [program, h.request, Api.handle, statements_getLink, hrest] at hfollows
  obtain ⟨out, hfollows, hout⟩ := Pool.follows_map hfollows
  rcases Pool.follows_call_iff.mp hfollows with ⟨_, hcall⟩ | ⟨time, before, ds, hdeeds, hnext⟩
  · cases hcall
  · have hmiss : (SqlCall.exec (.cacheGet (linkKey code)) before).1 = none := by
      have hfirst := hsound.applied t ht ⟨time, .cacheGet (linkKey code), before⟩ (by simp [hdeeds])
      have hbefore : p.stateAt time = before := hfirst.2.2.1
      show (before.cache.get (linkKey code)).1 = none
      rw [← hbefore, cache_stateAt hsound hdisabled time]
      rfl
    rw [hmiss] at hnext
    rcases Pool.follows_call_iff.mp hnext with ⟨_, hcall⟩ | ⟨time', before', ds', hds, hlast⟩
    · cases hcall
    · refine ⟨⟨time', .statement (.selectRow code), before'⟩, by simp [hdeeds, hds], rfl, ?_⟩
      have hselect : (SqlCall.exec (.statement (.selectRow code)) before').1 =
        before'.repo.selectRow code := rfl
      rw [hselect] at hlast
      cases hstats : RepoCall.expectRow code LinkRow.toLinkStats (before'.repo.selectRow code) with
      | error e =>
          rw [hstats] at hlast
          obtain ⟨_, hdone⟩ := Pool.follows_done_iff.mp hlast
          cases hdone
          cases congrArg Response.body (Option.some.inj hout)
      | ok stats =>
          obtain ⟨row, hrow, rfl⟩ := row_of_expectRow hstats
          rw [hstats] at hlast
          rcases Pool.follows_call_iff.mp hlast with ⟨_, hcall⟩ | ⟨_, _, _, _, hdone⟩
          · cases hcall
          · obtain ⟨_, hdone⟩ := Pool.follows_done_iff.mp hdone
            cases hdone
            cases hout
            exact ⟨row, hrow, hversion⟩

/-- The statements of an `update_link` that is given a target. -/
theorem statements_updateLink {req : UpdateLinkRequest} {url : Url}
    (h : parseTargetUrl crates.url req.targetUrl = .ok url) (now : SystemTime) (code : String) :
    Proc.expand Call.statements (ExceptT.run (Api.updateLink crates now code req)) =
      .call (.statement (.updateWhereVersion now code url.asStr req.version))
        (fun (row : Except RepoError (Option LinkRow)) => match row with
          | .error e => .done (.error (.error (.ofRepoError e)))
          | .ok (some row) => .call (.cacheInvalidate (linkKey code))
              (fun _ => .done (.ok (.ok (.link (.ofShortLink row.toShortLink)))))
          | .ok none => .call (.statement (.selectRow code))
              (fun (row : Except RepoError (Option LinkRow)) => .done (.error (.error (.ofRepoError
                (match row with
                  | .error e => e
                  | .ok (some _) => .versionConflict
                  | .ok none => .notFound code)))))) := by
  unfold Api.updateLink
  rw [h]
  show Proc.call _ _ = Proc.call _ _
  congr 1
  funext row
  rcases row with e | _ | row
  · rfl
  · show Proc.call _ _ = Proc.call _ _
    congr 1
    funext row
    rcases row with e | _ | row <;> rfl
  · rfl

/-- An `update_link` that succeeded has matched the row. -/
theorem matched_of_updated (hsound : Sound crates p) {t : ClientTask config db} (ht : t ∈ p.tasks)
    {version : Int64} (h : Updated code version t) :
    ∃ d ∈ t.deeds, TookEffect code d ∧ ∃ now targetUrl,
      d.call = .statement (.updateWhereVersion now code targetUrl version) ∧
        ∃ row, d.before.repo.links.find? code = some row ∧ row.version = version := by
  obtain ⟨req, hrequest, rfl⟩ := h.request
  obtain ⟨response, hrest, hstatus⟩ := h.answered
  have hfollows := hsound.follows t ht
  rw [program, hrequest, Api.handle, hrest] at hfollows
  obtain ⟨out, hfollows, hout⟩ := Pool.follows_map hfollows
  have hfail : ∀ e : AppError, 400 ≤ e.status → out ≠ .error (.error e) := by
    rintro e hle rfl
    cases hout
    have hsame : e.status = 200 := hstatus
    omega
  cases hurl : parseTargetUrl crates.url req.targetUrl with
  | error e =>
      unfold Api.updateLink at hfollows
      rw [hurl] at hfollows
      obtain ⟨_, hdone⟩ := Pool.follows_done_iff.mp hfollows
      exact absurd (Proc.done.inj hdone) (hfail _ (by simp [status_of_parseTargetUrl hurl]))
  | ok url =>
      rw [statements_updateLink hurl] at hfollows
      rcases Pool.follows_call_iff.mp hfollows with ⟨_, hcall⟩ | ⟨time, before, ds, hdeeds, hnext⟩
      · cases hcall
      · have hfirst : (SqlCall.exec (.statement (.updateWhereVersion t.request.arrival.now code url.asStr
            req.version)) before).1 =
          (before.repo.updateWhereVersion t.request.arrival.now code url.asStr req.version).1 := rfl
        rw [hfirst] at hnext
        rcases PostgresRepo.updateWhereVersion_cases t.request.arrival.now code url.asStr req.version
          before.repo with ⟨e, herror⟩ | ⟨hmissed, _⟩ | ⟨row, hrow, hversion, _, hok, _⟩
        · rw [herror] at hnext
          obtain ⟨_, hdone⟩ := Pool.follows_done_iff.mp hnext
          exact absurd (Proc.done.inj hdone) (hfail _ (AppError.le_status_ofRepoError e))
        · rw [hmissed] at hnext
          rcases Pool.follows_call_iff.mp hnext with ⟨_, hcall⟩ | ⟨_, _, _, _, hlast⟩
          · cases hcall
          · obtain ⟨_, hdone⟩ := Pool.follows_done_iff.mp hlast
            exact absurd (Proc.done.inj hdone) (hfail _ (AppError.le_status_ofRepoError _))
        · exact ⟨⟨time, .statement (.updateWhereVersion t.request.arrival.now code url.asStr req.version),
            before⟩, by simp [hdeeds], ⟨rfl, _, hok⟩, _, _, rfl, row, hrow, hversion⟩

end History

/-! ## runs -/

variable {crates} {p : Clients config db}

/-- The statement of an update that matched its row. -/
def Matches (code : String) (version : Int64) (d : Pool.Deed SqlCall (AppState (PostgresRepo db))) :
    Prop :=
  (∃ now targetUrl, d.call = .statement (.updateWhereVersion now code targetUrl version)) ∧
    ∃ row, d.before.repo.links.find? code = some row ∧ row.version = version

/-- The row that an update matched has been there ever since its client read the
version. -/
def Stayed (p : Clients config db) : Prop :=
  ∀ t ∈ p.tasks, ∀ t' ∈ p.tasks, t'.request.client = t.request.client →
    ∀ code version, ReadVersion code version t → Before t t' →
      ∀ d ∈ t.deeds, d.call = .statement (.selectRow code) →
        ∀ d' ∈ t'.deeds, Matches code version d' →
          ∀ time, d.time ≤ time → time ≤ d'.time → (p.stateAt time).repo.links.find? code ≠ none

/-- As long as the row stays, what takes effect on it shows in its version. -/
theorem provesUnchanged_of_stayed (hsound : Sound crates p)
    (hdisabled : (p.stateAt 0).cache = .disabled) (h : Stayed p) : ProvesUnchanged p := by
  intro t ht t' ht' hclient code version hread hupdated hbefore
  obtain ⟨d, hd, hselect, row, hrow, hversion⟩ := read_of_readVersion hsound hdisabled ht hread
  obtain ⟨d', hd', htook, now, targetUrl, hcall, row', hrow', hversion'⟩ :=
    matched_of_updated hsound ht' hupdated
  refine ⟨d, hd, hselect, d', hd', htook, ?_⟩
  rintro u hu _ e he heffect ⟨hafter, hearlier⟩
  have hstayed := h t ht t' ht' hclient code version hread hbefore d hd hselect d' hd'
    ⟨⟨now, targetUrl, hcall⟩, row', hrow', hversion'⟩
  obtain ⟨_, _, hd_before, _⟩ := hsound.applied t ht d hd
  obtain ⟨_, _, hd'_before, _⟩ := hsound.applied t' ht' d' hd'
  obtain ⟨_, _, he_before, he_after⟩ := hsound.applied u hu e he
  -- the version at the read, before and after the deed, and at the update
  obtain ⟨rowₑ, rowₑ', hrowₑ, hrowₑ', hcounted⟩ := version_of_tookEffect heffect
    (he_before ▸ hstayed e.time (Nat.le_of_lt hafter) (Nat.le_of_lt hearlier))
    (he_after ▸ hstayed (e.time + 1) (Nat.le_succ_of_le (Nat.le_of_lt hafter)) hearlier)
  obtain ⟨_, hfirst, hgrown⟩ := versionLe_of_present hsound (Nat.le_of_lt hafter)
    (fun time hle hlt => hstayed time hle (Nat.le_of_lt (Nat.lt_trans hlt hearlier)))
    rowₑ (he_before ▸ hrowₑ)
  obtain ⟨_, hsecond, hgrown'⟩ := versionLe_of_present hsound hearlier
    (fun time hle hlt => hstayed time (Nat.le_trans (Nat.le_of_lt hafter) (Nat.le_of_lt hle))
      (Nat.le_of_lt hlt)) row' (hd'_before ▸ hrow')
  rw [hd_before, hrow] at hfirst
  rw [he_after, hrowₑ'] at hsecond
  cases hfirst
  cases hsecond
  have hread : version.toInt ≤ rowₑ.version.toInt := Int64.le_iff_toInt_le.mp (hversion ▸ hgrown)
  have hupdate : rowₑ'.version.toInt ≤ version.toInt := Int64.le_iff_toInt_le.mp (hversion' ▸ hgrown')
  omega

/-- What has been is not changed by a later move. -/
theorem stateAt_of_deed (hsound : Sound crates p) {p' : Clients config db}
    (hpast : p'.past = p.past ++ [p.state]) {t : ClientTask config db} (ht : t ∈ p.tasks)
    {d : Pool.Deed SqlCall (AppState (PostgresRepo db))} (hd : d ∈ t.deeds) {time : Nat}
    (hle : time ≤ d.time) : p'.stateAt time = p.stateAt time :=
  Pool.stateAt_of_past hpast (Nat.le_trans hle (Nat.le_of_lt (hsound.applied t ht d hd).2.1))

/-- A move that makes no call makes no match. -/
theorem Stayed.of_quiet (h : Stayed p) (hsound : Sound crates p) {p' : Clients config db}
    (hq : Pool.Quiet (program crates) p p') : Stayed p' := by
  intro t ht t' ht' hclient code version hread hbefore d hd hselect d' hd' hmatches time hafter hle
  rcases hq.tasks t ht with hold | ⟨_, hnil, _⟩
  · rcases hq.tasks t' ht' with hold' | ⟨_, hnil', _⟩
    · rw [stateAt_of_deed hsound hq.past hold' hd' hle]
      exact h t hold t' hold' hclient code version hread hbefore d hd hselect d' hd' hmatches time
        hafter hle
    · simp [hnil'] at hd'
  · simp [hnil] at hd

theorem stayed_step (hsound : Sound crates p) (h : Stayed p)
    (m : Pool.Move (ClientRequest config) SystemTime) (hstayed : RowStayed p m) :
    Stayed (step crates p m) := by
  refine Pool.step_rule (P := Stayed) m (fun _ hq => h.of_quiet hsound hq) h ?_
  rintro i u c k rfl hu hr
  have hmem : u ∈ p.tasks := List.mem_of_getElem? hu
  have hpast : (p.called SqlCall.exec i u c k).past = p.past ++ [p.state] := rfl
  intro t ht t' ht' hclient code version hread hbefore d hd hselect d' hd' hmatches time hafter hle
  -- a request that has just made a call had not ended before another began
  have hold : t ∈ p.tasks := by
    rcases Pool.mem_tasks_called ht with hold | rfl
    · exact hold
    · have hlate : p.clock < t'.startedAt := hbefore ⟨p.clock, c, p.state⟩ (by simp)
      rcases Pool.mem_tasks_called ht' with hold' | rfl
      · exact absurd (hsound.started t' hold') (Nat.lt_asymm hlate)
      · exact absurd (hsound.started u hmem) (Nat.lt_asymm hlate)
  rcases Pool.mem_tasks_called ht' with hold' | rfl
  · rw [stateAt_of_deed hsound hpast hold' hd' hle]
    exact h t hold t' hold' hclient code version hread hbefore d hd hselect d' hd' hmatches time
      hafter hle
  · rcases List.mem_append.mp hd' with hd' | hnew
    · rw [stateAt_of_deed hsound hpast hmem hd' hle]
      exact h t hold u hmem hclient code version hread hbefore d hd hselect d' hd' hmatches time
        hafter hle
    · rw [List.mem_singleton.mp hnew] at hmatches hle
      obtain ⟨⟨now, targetUrl, hcall⟩, row, hrow, hversion⟩ := hmatches
      have hcall' : c = .statement (.updateWhereVersion now code targetUrl version) := hcall
      subst hcall'
      rw [Pool.stateAt_of_past hpast hle]
      exact hstayed u hu now code targetUrl version k hr row hrow hversion t hold hclient hread
        hbefore d hd hselect time hafter hle

/-- **An update with a version its client has read** proves that nothing has changed,
in every run in which the row stays between the two. -/
theorem throughout_provesUnchanged (r : PostgresRepo db) (stats : StatsStorage)
    (moves : List (Pool.Move (ClientRequest config) SystemTime))
    (h : Run.Along (step crates) RowStayed (opening r stats) moves) :
    Run.Throughout (step crates) ProvesUnchanged (opening r stats) moves := by
  have hall : Run.Throughout (step crates) (fun p : Clients config db =>
      Sound crates p ∧ (p.stateAt 0).cache = .disabled ∧ Stayed p) (opening r stats) moves := by
    refine Run.throughout_of_step ?_ ?_ h
    · rintro p m ⟨hsound, hdisabled, hstayed⟩ hrow
      refine ⟨hsound.step m, ?_, stayed_step hsound hstayed m hrow⟩
      have hzero : (step crates p m).stateAt 0 = p.stateAt 0 := Pool.stateAt_zero_step m
      rw [hzero]
      exact hdisabled
    · exact ⟨Pool.sound_new _, rfl, by simp [Stayed, opening, Pool.new]⟩
  exact hall.mono fun p hp => provesUnchanged_of_stayed hp.1 hp.2.1 hp.2.2

/-! ## a link that comes back -/

/-- A request of a client. -/
def ask (client : Nat) (req : Api.Request (Config.mk 1 1)) : ClientRequest (Config.mk 1 1) :=
  ⟨client, .UNIX_EPOCH, none, req⟩

/-- A client reads the link, another one deletes it and creates it again, and the first one
updates what it has read. -/
def recreate : List (Pool.Move (ClientRequest (Config.mk 1 1)) SystemTime) :=
  [.start (ask 0 (.getLink "promo2026")), .advance 0, .advance 0, .advance 0,
    .start (ask 1 (.deleteLink "promo2026")), .advance 1, .advance 1,
    .start (ask 1 (.createLink (fun _ => Api.letterA) ⟨"https://example.com/", some "promo2026", none⟩)),
    .advance 2, .advance 2,
    .start (ask 0 (.updateLink "promo2026" ⟨"https://example.com/", 1⟩)), .advance 3, .advance 3]

/-- The service with one link. -/
def onePromo : Clients (Config.mk 1 1) RowCall.plainDb := opening RowCall.oneRow .new

/-- The code of the row that a move would update. -/
def updating? (p : Clients config db) : Pool.Move (ClientRequest config) SystemTime → Option String
  | .advance i => (p.tasks[i]?).bind (fun t => match t.rest with
      | .call (.statement (.updateWhereVersion _ code _ _)) _ => some code
      | _ => none)
  | _ => none

/-- Where a row is updated it has been there all the time. -/
def AlwaysStored (p : Clients config db) (m : Pool.Move (ClientRequest config) SystemTime) : Prop :=
  ∀ code ∈ updating? p m, ∀ s ∈ p.past ++ [p.state], (s.repo.links.find? code).isSome = true

instance (p : Clients config db) (m : Pool.Move (ClientRequest config) SystemTime) :
    Decidable (AlwaysStored p m) :=
  inferInstanceAs (Decidable (∀ code ∈ updating? p m, ∀ s ∈ p.past ++ [p.state], _))

theorem rowStayed_of_alwaysStored {m : Pool.Move (ClientRequest config) SystemTime} (h : AlwaysStored p m) :
    RowStayed p m := by
  cases m with
  | start q => trivial
  | env now => trivial
  | advance i =>
      intro t' ht' now code targetUrl version k hr row _ _ t _ _ _ _ d _ _ time _ _
      have hcode : code ∈ updating? p (.advance i) := by simp [updating?, ht', hr]
      have hstored := h code hcode
      exact Option.isSome_iff_ne_none.mp (Pool.of_stateAt
        (P := fun s => (s.repo.links.find? code).isSome = true)
        (fun s hs => hstored s (List.mem_append_left _ hs))
        (hstored p.state (List.mem_append_right _ (List.mem_singleton_self _))) time)

/-- A client reads the link, another one updates it, and the first one is refused an update
with what it has read; it reads the link again and updates that. -/
def rivals : List (Pool.Move (ClientRequest (Config.mk 1 1)) SystemTime) :=
  [.start (ask 0 (.getLink "promo2026")), .advance 0, .advance 0, .advance 0,
    .start (ask 1 (.updateLink "promo2026" ⟨"https://example.com/", 1⟩)), .advance 1, .advance 1,
    .start (ask 0 (.updateLink "promo2026" ⟨"https://example.com/", 1⟩)), .advance 2, .advance 2,
    .start (ask 0 (.getLink "promo2026")), .advance 3, .advance 3, .advance 3,
    .start (ask 0 (.updateLink "promo2026" ⟨"https://example.com/", 2⟩)), .advance 4, .advance 4]

theorem throughout_provesUnchanged_rivals :
    Run.Throughout (step Api.oneUrl) ProvesUnchanged onePromo rivals ∧
    (Run.reach (step Api.oneUrl) onePromo rivals).tasks.map
      (fun t => (t.rest.result?.bind id).map Response.status) =
        [some 200, some 200, some 409, some 200, some 200] :=
  ⟨throughout_provesUnchanged RowCall.oneRow .new rivals
    (Run.Along.mono (fun _ _ h => rowStayed_of_alwaysStored h)
      (by decide : Run.Along (step Api.oneUrl) AlwaysStored onePromo rivals)), rfl⟩

/-- What happened to the requests. -/
theorem tasks_recreate : ∃ read delete create update,
    (Run.reach (step Api.oneUrl) onePromo recreate).tasks =
        [read, delete, create, update] ∧
      ReadVersion "promo2026" 1 read ∧ Updated "promo2026" 1 update ∧
      update.request.client = read.request.client ∧ delete.request.client ≠ read.request.client ∧
      read.deeds.map Pool.Deed.time = [1, 2, 3] ∧ update.startedAt = 10 ∧
      update.deeds.map Pool.Deed.time = [11, 12] ∧
      ∃ e ∈ delete.deeds, TookEffect "promo2026" e ∧ e.time = 5 :=
  ⟨_, _, _, _, rfl, ⟨rfl, _, rfl, rfl⟩, ⟨⟨_, rfl, rfl⟩, _, rfl, rfl⟩, rfl, Nat.one_ne_zero, rfl, rfl, rfl,
    _, List.mem_cons_self, ⟨rfl, rfl⟩, rfl⟩

/-- The update of the first client is given the version of a link that is gone. -/
theorem not_throughout_provesUnchanged : ¬ Run.Throughout (step Api.oneUrl) ProvesUnchanged onePromo recreate := by
  intro h
  obtain ⟨read, delete, create, update, htasks, hread, hupdated, hsame, hother, hreadTimes, hstart,
    hupdateTimes, e, he, heffect, htime⟩ := tasks_recreate
  have hreadTime : ∀ d ∈ read.deeds, d.time ≤ 3 := by
    intro d hd
    have hmem : d.time ∈ [1, 2, 3] := hreadTimes ▸ List.mem_map_of_mem hd
    simp at hmem
    omega
  have hupdateTime : ∀ d ∈ update.deeds, 11 ≤ d.time := by
    intro d hd
    have hmem : d.time ∈ [11, 12] := hupdateTimes ▸ List.mem_map_of_mem hd
    simp at hmem
    omega
  have hbefore : Before read update := fun d hd => by
    have hle := hreadTime d hd
    omega
  obtain ⟨d, hd, _, d', hd', _, hnone⟩ := h.last read (by simp [htasks]) update (by simp [htasks]) hsame
    "promo2026" 1 hread hupdated hbefore
  have hle := hreadTime d hd
  have hge := hupdateTime d' hd'
  exact hnone delete (by simp [htasks]) hother e he heffect ⟨by omega, by omega⟩

end Optimistic

end Shorty
