import Shorty.Service.Interleaved
import Shorty.Timed

/-!
# Shorty.Timed.Recency

How old an answer of `get_link` can be.  Interleavings, failed invalidations and requests
that are dropped between a write and its invalidation can all leave an old response in
the cache; what bounds its age is that it was read by a request that `TimeoutLayer` had
not dropped when it stored it, and that it is stored for a bounded time.

The bound is one for commands that Redis executes when they are sent or never: a `SET`
that Redis executed later than that would store an older response for as long.
-/

namespace Shorty

namespace Timed

open LawfulLinkRepository (find missing)

variable {config : Config} {R : Type} [LinkRepository R] [LawfulLinkRepository R]

/-! ## the calls of a read -/

/-- A call on the shared state. -/
abbrev Deed (R : Type) := Pool.Deed Call (State R)

/-- What a `get_link` has done so far, and what is left of it. -/
inductive GetLinkRun (json : SerdeJson) (code : String) :
    List (Deed R) → Interleaved.Program → Prop where
  | begun : GetLinkRun json code [] (ExceptT.run (Api.getLink code))
  | hit (look : Deed R) (value : LinkResponse) (hlook : look.call = .cacheGet (linkKey code))
      (hvalue : (State.exec json (.cacheGet (linkKey code)) look.before).1 = some value) :
      GetLinkRun json code [look] (.done (.ok (.ok (.link value))))
  | missed (look : Deed R) (hlook : look.call = .cacheGet (linkKey code))
      (hmiss : (State.exec json (.cacheGet (linkKey code)) look.before).1 = none) :
      GetLinkRun json code [look] (Interleaved.lookup code)
  | absent (look read : Deed R) (hlook : look.call = .cacheGet (linkKey code))
      (hmiss : (State.exec json (.cacheGet (linkKey code)) look.before).1 = none)
      (hread : read.call = .stats code) (hfind : find read.before.repo code = none) :
      GetLinkRun json code [look, read] (.done (Interleaved.shows (missing R code) none))
  | found (look read : Deed R) (l : LinkStats) (hlook : look.call = .cacheGet (linkKey code))
      (hmiss : (State.exec json (.cacheGet (linkKey code)) look.before).1 = none)
      (hread : read.call = .stats code) (hfind : find read.before.repo code = some l) :
      GetLinkRun json code [look, read] (Interleaved.fill code l)
  | filled (look read fill : Deed R) (l : LinkStats) (hlook : look.call = .cacheGet (linkKey code))
      (hmiss : (State.exec json (.cacheGet (linkKey code)) look.before).1 = none)
      (hread : read.call = .stats code) (hfind : find read.before.repo code = some l)
      (hfill : fill.call = .cacheSet (linkKey code) (.ofLinkStats l)) :
      GetLinkRun json code [look, read, fill] (.done (Interleaved.shows (missing R code) (some l)))

section Calls

variable {json : SerdeJson} {code : String} {ds : List (Deed R)} {rest : Interleaved.Program}

theorem exec_stats (s : State R) (code : String) :
    (State.exec json (.stats code) s).1 = Store.lookup (missing R code) (find s.repo code) :=
  congrArg Prod.fst (AppState.exec_stats s.uncached code)

omit [LinkRepository R] [LawfulLinkRepository R] in
theorem getLink_eq_call (code : String) : ∃ k, ExceptT.run (Api.getLink code) =
    (.call (.cacheGet (linkKey code)) k : Interleaved.Program) :=
  ⟨_, Interleaved.program_getLink Api.oneUrl code⟩

theorem getLinkRun_of_follows
    (h : Pool.Follows (State.exec json) (ExceptT.run (Api.getLink code)) ds rest) :
    GetLinkRun json code ds rest := by
  have hprogram := Interleaved.program_getLink Api.oneUrl code
  rw [Interleaved.program] at hprogram
  rw [hprogram] at h
  rcases Pool.follows_call_iff.mp h with ⟨rfl, rfl⟩ | ⟨time, s, ds', rfl, hlooked⟩
  · rw [← hprogram]
    exact .begun
  · cases hget : (State.exec json (.cacheGet (linkKey code)) s).1 with
    | some value =>
        rw [hget] at hlooked
        obtain ⟨rfl, rfl⟩ := Pool.follows_done_iff.mp hlooked
        exact .hit _ value rfl hget
    | none =>
        rw [hget] at hlooked
        rcases Pool.follows_call_iff.mp hlooked with ⟨rfl, rfl⟩ | ⟨time', s', ds'', rfl, hread⟩
        · exact .missed _ rfl hget
        · rw [exec_stats] at hread
          cases hfind : find s'.repo code with
          | none =>
              rw [hfind] at hread
              obtain ⟨rfl, rfl⟩ := Pool.follows_done_iff.mp hread
              exact .absent _ _ rfl hget rfl hfind
          | some l =>
              rw [hfind] at hread
              rcases Pool.follows_call_iff.mp hread with ⟨rfl, rfl⟩ | ⟨time'', s'', ds₃, rfl, hfill⟩
              · exact .found _ _ l rfl hget rfl hfind
              · obtain ⟨rfl, rfl⟩ := Pool.follows_done_iff.mp hfill
                exact .filled _ _ _ l rfl hget rfl hfind rfl

/-- Who stores a response has read it before. -/
theorem GetLinkRun.read_of_cacheSet (h : GetLinkRun json code ds rest)
    (hordered : ds.Pairwise (fun e e' => e.time < e'.time)) {e : Deed R} (he : e ∈ ds) {key : String}
    {value : LinkResponse} (hset : e.call = .cacheSet key value) :
    ∃ read ∈ ds, read.time < e.time ∧
      ∃ l, find read.before.repo code = some l ∧ key = linkKey code ∧ value = .ofLinkStats l := by
  have hlast : ∀ look read : Deed R, look.call = .cacheGet (linkKey code) →
      read.call = .stats code → e ≠ look ∧ e ≠ read := by
    rintro look read hlook hread
    constructor
    · rintro rfl
      rw [hlook] at hset
      cases hset
    · rintro rfl
      rw [hread] at hset
      cases hset
  cases h with
  | begun => cases he
  | hit look value hlook hvalue =>
      rw [List.mem_singleton.mp he, hlook] at hset
      cases hset
  | missed look hlook hmiss =>
      rw [List.mem_singleton.mp he, hlook] at hset
      cases hset
  | absent look read hlook hmiss hread hfind =>
      have hne := hlast look read hlook hread
      simp [hne.1, hne.2] at he
  | found look read l hlook hmiss hread hfind =>
      have hne := hlast look read hlook hread
      simp [hne.1, hne.2] at he
  | filled look read fill l hlook hmiss hread hfind hfill =>
      have hne := hlast look read hlook hread
      obtain rfl : e = fill := by simpa [hne.1, hne.2] using he
      simp only [List.pairwise_cons] at hordered
      rw [hfill] at hset
      cases hset
      exact ⟨read, by simp, hordered.2.1 e (by simp), l, hfind, rfl, rfl⟩

end Calls

/-! ## what is cached -/

variable {d : Deployment} {p : Clients config R} {t : ClientTask config R}

theorem Sound.getLinkRun (h : Sound d p) (ht : t ∈ p.tasks) {a : Api.Arrival config} {code : String}
    (ha : t.request = .http a) (hreq : a.req = .getLink code) :
    ∃ rest, GetLinkRun d.json code t.deeds rest ∧
      t.rest = Answer.http <$> (Api.answer a.requestId <$> rest) := by
  have hfollows := h.follows t ht
  rw [ha, program, Api.program, hreq] at hfollows
  obtain ⟨rest, hanswered, hrest⟩ := Pool.follows_map_rest hfollows
  obtain ⟨rest', hcalls, rfl⟩ := Pool.follows_map_rest hanswered
  exact ⟨rest', getLinkRun_of_follows hcalls, hrest⟩

theorem Sound.read_of_cacheSet (h : Sound d p) (ht : t ∈ p.tasks) {e : Deed R} (he : e ∈ t.deeds)
    {key : String} {value : LinkResponse} (hset : e.call = .cacheSet key value) :
    ∃ a code, t.request = .http a ∧ ∃ read ∈ t.deeds, read.time < e.time ∧
      ∃ l, find read.before.repo code = some l ∧ key = linkKey code ∧ value = .ofLinkStats l := by
  have hmakes := h.makes ht he
  cases hq : t.request with
  | grpc now rpc =>
      rw [hset, hq] at hmakes
      exact absurd hmakes id
  | http a =>
      rw [hset, hq] at hmakes
      have hcall : Api.Makes a.req (.cacheSet key value) := hmakes
      generalize hreq : a.req = req at hcall
      cases hcall with
      | cacheSet code value =>
          obtain ⟨rest, hrun, _⟩ := h.getLinkRun ht hq hreq
          exact ⟨a, code, rfl, hrun.read_of_cacheSet (h.ordered t ht) he hset⟩

/-- The longest a value is stored, in milliseconds. -/
def maxTtlMs (config : CacheConfig) : Nat := config.maxTtlSecs * 1000

/-- A value under a key is the response of a link that was there at a moment, and its time
is over no later than this after it. -/
def ReadBefore (d : Deployment) (p : Clients config R) (time : Nat) (key : String) (v : RedisValue) :
    Prop :=
  ∃ read ≤ time, ∃ code l, key = linkKey code ∧ find (p.stateAt read).repo code = some l ∧
    d.json.toString (.ofLinkStats l) = some v.raw ∧
    v.lastMs ≤ (p.stateAt read).nowMs + (d.requestTimeoutMs + maxTtlMs (p.stateAt 0).cache.config)

theorem ReadBefore.mono {time time' : Nat} (hle : time ≤ time') {key : String} {v : RedisValue}
    (h : ReadBefore d p time key v) : ReadBefore d p time' key v := by
  obtain ⟨read, hread, hrest⟩ := h
  exact ⟨read, Nat.le_trans hread hle, hrest⟩

/-- All that is cached at any moment was read before. -/
theorem Sound.readBefore (h : Sound d p) (hin : InTime d p)
    (hempty : ∀ key, (p.stateAt 0).value? key = none) {time : Nat} (hle : time ≤ p.clock) {key : String}
    {v : RedisValue} (hv : (p.stateAt time).value? key = some v) : ReadBefore d p time key v := by
  induction time generalizing key v with
  | zero =>
      rw [hempty] at hv
      cases hv
  | succ time ih =>
      have hlt : time < p.clock := hle
      have hold : ∀ {key v}, (p.stateAt time).value? key = some v → ReadBefore d p (time + 1) key v :=
        fun hv => (ih (Nat.le_of_lt hlt) hv).mono (Nat.le_succ time)
      cases h.happened time hlt with
      | nothing hsame =>
          rw [hsame] at hv
          exact hold hv
      | env e he =>
          rw [he] at hv
          exact hold (State.value?_elapse hv)
      | deed e he htime =>
          obtain ⟨t, ht, het⟩ := Pool.mem_deeds.mp he
          obtain ⟨hstart, _, hbefore, hafter⟩ := h.applied t ht e het
          subst htime
          rw [hafter] at hv
          rcases State.value?_exec hv with hthere | ⟨value, ttlSecs, hset, hraw, hlast, httl⟩
          · rw [← hbefore] at hthere
            exact hold hthere
          · obtain ⟨a, code, ha, read, hread, hbeforeSet, l, hfind, rfl, rfl⟩ :=
              h.read_of_cacheSet ht het hset
            obtain ⟨hstarted, _, hreadAt, _⟩ := h.applied t ht read hread
            have hintime := hin t ht a ha e het
            have hsince := h.nowMs_le (Nat.le_of_lt hstarted)
            rw [← hbefore, h.config_eq] at httl
            refine ⟨read.time, by omega, code, l, rfl, by rw [hreadAt]; exact hfind, hraw, ?_⟩
            have httlMs := Nat.mul_le_mul_right 1000 httl
            unfold maxTtlMs
            omega

/-! ## how old an answer is -/

/-- The answer to a `get_link` shows the link of a moment no longer before its start than
this. -/
def AnswersRecent (boundMs : Nat) (p : Clients config R) (t : ClientTask config R) : Prop :=
  ∀ a code out, t.request = .http a → a.req = .getLink code → t.rest = .done (.http out) →
    ∃ moment < p.clock,
      out = Api.answer a.requestId
        (Interleaved.shows (missing R code) (find (p.stateAt moment).repo code)) ∧
      (p.stateAt t.startedAt).nowMs ≤ (p.stateAt moment).nowMs + boundMs

/-- All answers of `get_link` are recent. -/
def Recent (boundMs : Nat) (p : Clients config R) : Prop := ∀ t ∈ p.tasks, AnswersRecent boundMs p t

omit [LawfulLinkRepository R] in
/-- What was read after the start is recent. -/
theorem Sound.recent_of_read (h : Sound d p) (ht : t ∈ p.tasks) {read : Deed R} (hread : read ∈ t.deeds)
    (boundMs : Nat) : read.time < p.clock ∧ p.stateAt read.time = read.before ∧
      (p.stateAt t.startedAt).nowMs ≤ (p.stateAt read.time).nowMs + boundMs := by
  obtain ⟨hstarted, hclock, hreadAt, _⟩ := h.applied t ht read hread
  have hsince := h.nowMs_le (Nat.le_of_lt hstarted)
  exact ⟨hclock, hreadAt, by omega⟩

theorem Sound.answersRecent (h : Sound d p) (hin : InTime d p) (hjson : d.json.Lawful)
    (hempty : ∀ key, (p.stateAt 0).value? key = none) (ht : t ∈ p.tasks) :
    AnswersRecent (d.requestTimeoutMs + maxTtlMs (p.stateAt 0).cache.config) p t := by
  intro a code out ha hreq hout
  obtain ⟨rest, hrun, hrest⟩ := h.getLinkRun ht ha hreq
  rw [hrest] at hout
  generalize hds : t.deeds = ds at hrun
  cases hrun with
  | begun =>
      obtain ⟨k, hcall⟩ := getLink_eq_call code
      rw [hcall] at hout
      cases hout
  | missed look hlook hmiss => cases hout
  | found look read l hlook hmiss hread hfind => cases hout
  | absent look read hlook hmiss hread hfind =>
      obtain ⟨hclock, hreadAt, hrecent⟩ := h.recent_of_read ht (by simp [hds] : read ∈ t.deeds) _
      refine ⟨read.time, hclock, ?_, hrecent⟩
      rw [hreadAt, hfind]
      cases hout
      rfl
  | filled look read fill l hlook hmiss hread hfind hfill =>
      obtain ⟨hclock, hreadAt, hrecent⟩ := h.recent_of_read ht (by simp [hds] : read ∈ t.deeds) _
      refine ⟨read.time, hclock, ?_, hrecent⟩
      rw [hreadAt, hfind]
      cases hout
      rfl
  | hit look value hlook hvalue =>
      obtain ⟨hstarted, hclock, hlookAt, _⟩ := h.applied t ht look (by simp [hds])
      obtain ⟨v, hv, hlive, hread⟩ := State.value?_of_cacheGet hvalue
      rw [← hlookAt] at hv
      obtain ⟨moment, hmoment, code', l, hkey, hfind, hraw, hlast⟩ :=
        h.readBefore hin hempty (Nat.le_of_lt hclock) hv
      obtain rfl := linkKey_injective hkey
      have hback := hjson _ _ hraw
      rw [hread, Option.some.injEq] at hback
      have hsince := h.nowMs_le (Nat.le_of_lt hstarted)
      rw [hlookAt] at hsince
      refine ⟨moment, Nat.lt_of_le_of_lt hmoment hclock, ?_, by omega⟩
      subst hback
      rw [hfind]
      cases hout
      rfl

/-- **Bounded staleness**: whatever is interleaved, dropped by the timeout, missed,
evicted or left behind by an invalidation that failed, `get_link` answers what the repository
held no longer before the request than the request timeout and the longest time to
live. -/
theorem recent_reach (d : Deployment) (hjson : d.json.Lawful) {s : State R}
    (hempty : ∀ key, s.value? key = none) (moves : List (Pool.Move (Request config) Event)) :
    Recent (d.requestTimeoutMs + maxTtlMs s.cache.config) (Run.reach (step d) (Pool.new s) moves) := by
  obtain ⟨hsound, hin⟩ := sound_reach d s moves
  have hstart := stateAt_zero_reach d s moves
  have hrecent := fun t ht => hsound.answersRecent (t := t) hin hjson (by rw [hstart]; exact hempty) ht
  rwa [hstart] at hrecent

/-- The text of the one response this knows. -/
def promoJson : SerdeJson :=
  let text := "\x7b\"code\":\"promo2026\",\"target_url\":\"https://example.com/\"," ++
    "\"created_at_unix\":0,\"expires_at_unix\":null,\"hits\":0,\"version\":1\x7d"
  let response := LinkResponse.ofLinkStats ⟨.new .UNIX_EPOCH "promo2026" "https://example.com/", 0⟩
  { toString := fun value => if value = response then some text else none
    fromStr := fun raw => if raw = text then some response else none }

theorem lawful_promoJson : promoJson.Lawful := by
  intro value raw h
  simp only [promoJson] at h ⊢
  split at h
  · rename_i hvalue
    cases h
    rw [if_pos rfl, hvalue]
  · cases h

/-- The defaults: a request runs five seconds at most. -/
def promoDeployment : Deployment := ⟨promoJson, Api.oneUrl, 5000⟩

/-- A link is stored, and the cache, which draws the longest times to live, is empty. -/
def promoStored : State InMemoryRepo where
  repo := (LinkRepository.insert .UNIX_EPOCH
    (.new .UNIX_EPOCH "promo2026" "https://example.com/") InMemoryRepo.new).2
  statsStorage := .new
  cache := .fromManager ⟨fun _ => false, fun _ => false, fun _ => false⟩ (fun _ => 20) .default
    RedisCache.disabled.fits
  nowMs := 0

/-- A request for the link, or an update of it. -/
def promoRequest (req : Api.Request ⟨8, 5⟩) : Request ⟨8, 5⟩ := .http ⟨.UNIX_EPOCH, none, req⟩

/-- A reader reads the link, a writer replaces it, and the reader, five seconds old, caches
what it has read; a reader seventy seconds later still sees it. -/
def worstRun : Clients ⟨8, 5⟩ InMemoryRepo :=
  Run.reach (step promoDeployment) (Pool.new promoStored) [
    .start (promoRequest (.getLink "promo2026")), .advance 0, .advance 0,
    .start (promoRequest (.updateLink "promo2026" ⟨"https://example.com/", 1⟩)), .advance 1, .advance 1,
    .env (.pass 5000), .advance 0, .env (.pass 70000),
    .start (promoRequest (.getLink "promo2026")), .advance 2]

/-- The bound of the defaults is met to the millisecond: the last reader, who starts at
75000, is answered the version that was replaced at 0. -/
theorem recent_worstRun : Recent 75000 worstRun ∧
    worstRun.tasks.map (fun t => (worstRun.stateAt t.startedAt).nowMs) = [0, 0, 75000] ∧
    (find worstRun.state.repo "promo2026").map (fun l => l.link.version) = some 2 ∧
    worstRun.tasks[2]?.bind (fun t => t.rest.result?) = some (.http (some (.ok (.link
      (.ofLinkStats ⟨.new .UNIX_EPOCH "promo2026" "https://example.com/", 0⟩))))) :=
  ⟨recent_reach promoDeployment lawful_promoJson (fun _ => rfl) _, by decide, by decide, rfl⟩

end Timed

end Shorty
