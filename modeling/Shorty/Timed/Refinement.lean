import Shorty.Service
import Shorty.Timed.Recency

/-!
# Shorty.Timed.Refinement

The service with a clock refines the service without one: under every schedule its clients
are told what they are told under some schedule of the same requests against the cache
of `Shorty.Cache`, where an entry may run out at any moment.
-/

namespace Shorty

namespace Timed

variable {config : Config} {R : Type} [LinkRepository R]

/-! ## the service without a clock -/

/-- What happens besides the requests, where there is no clock. -/
inductive PlainEvent where
  | purge (now : SystemTime)
  | expire (key : String)

def plainElapse : PlainEvent → AppState R → AppState R
  | .purge now, s => Service.tick now s
  | .expire key, s => { s with cache := s.cache.expire key }

/-- The clients of the service without a clock. -/
abbrev PlainClients (config : Config) (R : Type) := Pool (Request config) Call.Resp Answer (AppState R)

def plainStep (crates : Crates) :
    PlainClients config R → Pool.Move (Request config) PlainEvent → PlainClients config R :=
  Pool.step AppState.exec (program crates) plainElapse

/-! ## what a cache stands for -/

/-- The entries are what a `GET` would find now. -/
inductive CacheStands (json : SerdeJson) (nowMs : Nat) (c : RedisCache) : Cache → Prop where
  | disabled (h : c.conn = none) : CacheStands json nowMs c .disabled
  | connected (r : RedisServer) (h : c.conn = some r) (entries : Table String LinkResponse)
      (hentries : ∀ key, entries.get? key = (r.lookup nowMs key).bind json.fromStr) :
      CacheStands json nowMs c ⟨some ⟨entries, r.commands, r.faults⟩⟩

/-- A state with a clock, and one without. -/
structure Stands (json : SerdeJson) (s : State R) (s' : AppState R) : Prop where
  repo : s'.repo = s.repo
  statsStorage : s'.statsStorage = s.statsStorage
  cache : CacheStands json s.nowMs s.cache s'.cache

section Commands

variable {json : SerdeJson} {nowMs : Nat} {c : RedisCache} {c' : Cache} {key : String}
  {value : LinkResponse}

/-- New connections stand for each other. -/
theorem stands_fromManager (json : SerdeJson) (nowMs : Nat) (faults : Faults) (draws : Nat → Nat)
    (config : CacheConfig) (fits : config.Fits) :
    CacheStands json nowMs (.fromManager faults draws config fits) (.fromManager faults) :=
  .connected ⟨Keyed.empty, 0, faults⟩ rfl Keyed.empty (fun _ => rfl)

theorem CacheStands.get (h : CacheStands json nowMs c c') (key : String) :
    (c.get json nowMs key).1 = (c'.get key).1 ∧
      CacheStands json nowMs (c.get json nowMs key).2 (c'.get key).2 := by
  cases h with
  | disabled h =>
      simp only [RedisCache.get, h, Cache.get, Cache.disabled]
      exact ⟨trivial, .disabled rfl⟩
  | connected r h entries hentries =>
      have hraw : ((if r.faults.missGet r.commands then none else r.lookup nowMs key).bind json.fromStr) =
          if r.faults.missGet r.commands then none else entries.get? key := by
        rw [hentries]
        split <;> rfl
      have hstands : ∀ stats, CacheStands json nowMs
          { c with conn := some (r.answered r.values), stats := stats }
          ⟨some ⟨entries, r.commands + 1, r.faults⟩⟩ :=
        fun stats => .connected (r.answered r.values) rfl entries hentries
      simp only [RedisCache.get, h, Cache.get, hraw]
      split
      · rename_i found hfound
        exact ⟨hfound.symm, hstands _⟩
      · rename_i hfound
        exact ⟨hfound.symm, hstands _⟩

theorem lookup_setEx (r : RedisServer) (nowMs : Nat) (key raw : String) (ttlSecs : Nat) (key' : String) :
    (r.setEx nowMs key raw ttlSecs).lookup nowMs key' =
      if r.faults.dropSet r.commands = false ∧ key' = key then some raw else r.lookup nowMs key' := by
  cases hdrop : r.faults.dropSet r.commands with
  | true => simp [RedisServer.setEx, RedisServer.answered, RedisServer.lookup, hdrop]
  | false =>
      by_cases hkey : key' = key <;>
        simp [RedisServer.setEx, RedisServer.answered, RedisServer.lookup, hdrop, Table.get?_set, hkey]

theorem CacheStands.set (h : CacheStands json nowMs c c') (hjson : json.Lawful)
    (htext : (json.toString value).isSome) :
    CacheStands json nowMs (c.set json nowMs key value) (c'.set key value) := by
  obtain ⟨raw, hraw⟩ := Option.isSome_iff_exists.mp htext
  cases h with
  | disabled h =>
      simp only [RedisCache.set, h, Cache.set, Cache.disabled]
      exact .disabled h
  | connected r h entries hentries =>
      simp only [RedisCache.set, h, hraw, Cache.set]
      refine .connected (r.setEx nowMs key raw (c.nextTtl r)) rfl _ (fun key' => ?_)
      rw [lookup_setEx]
      cases hdrop : r.faults.dropSet r.commands with
      | true => simp [hentries]
      | false =>
          by_cases hkey : key' = key <;> simp [Table.get?_set, hkey, hentries, hjson value raw hraw]

theorem CacheStands.invalidate (h : CacheStands json nowMs c c') (key : String) :
    CacheStands json nowMs (c.invalidate key) (c'.invalidate key) := by
  cases h with
  | disabled h => exact .disabled (by simp [RedisCache.invalidate, h])
  | connected r h entries hentries =>
      refine .connected (r.del key) (by simp [RedisCache.invalidate, h]) _ (fun key' => ?_)
      cases hfail : r.faults.failDel r.commands with
      | true =>
          simp [RedisServer.del, RedisServer.answered, RedisServer.lookup, hfail, hentries]
      | false =>
          by_cases hkey : key' = key <;>
            simp [RedisServer.del, RedisServer.answered, RedisServer.lookup, hfail, hentries,
              Table.get?_erase, hkey]

theorem CacheStands.evict (h : CacheStands json nowMs c c') (key : String) :
    CacheStands json nowMs (c.evict key) (c'.expire key) := by
  cases h with
  | disabled h => exact .disabled (by simp [RedisCache.evict, h])
  | connected r h entries hentries =>
      refine .connected (r.evict key) (by simp [RedisCache.evict, h]) _ (fun key' => ?_)
      by_cases hkey : key' = key <;>
        simp [RedisServer.evict, RedisServer.lookup, hentries, Table.get?_erase, hkey]

/-- The keys whose time is over at a moment. -/
def overdue (r : RedisServer) (nowMs : Nat) : List String :=
  (r.values.items.filter (fun p => decide (p.2.lastMs < nowMs))).map Prod.fst

theorem mem_overdue {r : RedisServer} : key ∈ overdue r nowMs ↔
    ∃ v, r.values.get? key = some v ∧ v.lastMs < nowMs := by
  simp [overdue, Table.get?_eq_some_iff]

theorem lookup_later (r : RedisServer) (nowMs ms : Nat) (key : String) : r.lookup (nowMs + ms) key =
    if key ∈ overdue r (nowMs + ms) then none else r.lookup nowMs key := by
  cases hv : r.values.get? key with
  | none => simp [RedisServer.lookup, hv]
  | some v =>
      have hover : key ∈ overdue r (nowMs + ms) ↔ v.lastMs < nowMs + ms := by
        simp [mem_overdue, hv]
      simp only [RedisServer.lookup, hv, hover, Option.filter_some, decide_eq_true_eq]
      by_cases hlast : v.lastMs < nowMs + ms
      · simp [hlast]
      · have hnow : nowMs ≤ v.lastMs := by omega
        simp [hlast, hnow, Nat.le_of_not_lt hlast]

/-- Entries that run out one after the other. -/
theorem get?_foldl_expire (keys : List String) (entries : Table String LinkResponse) (commands : Nat)
    (faults : Faults) : ∃ entries' : Table String LinkResponse,
      keys.foldl Cache.expire ⟨some ⟨entries, commands, faults⟩⟩ = ⟨some ⟨entries', commands, faults⟩⟩ ∧
      ∀ key, entries'.get? key = if key ∈ keys then none else entries.get? key := by
  induction keys generalizing entries with
  | nil => exact ⟨entries, rfl, by simp⟩
  | cons first keys ih =>
      obtain ⟨entries', hfold, hget⟩ := ih (entries.erase first)
      refine ⟨entries', hfold, fun key => ?_⟩
      rw [hget, Table.get?_erase]
      by_cases hkey : key = first <;> simp [hkey]

/-- When time passes the entries run out whose time is over. -/
theorem CacheStands.pass (h : CacheStands json nowMs c c') (ms : Nat) :
    ∃ keys : List String, CacheStands json (nowMs + ms) c (keys.foldl Cache.expire c') := by
  cases h with
  | disabled h => exact ⟨[], .disabled h⟩
  | connected r h entries hentries =>
      obtain ⟨entries', hfold, hget⟩ :=
        get?_foldl_expire (overdue r (nowMs + ms)) entries r.commands r.faults
      refine ⟨overdue r (nowMs + ms), ?_⟩
      rw [hfold]
      refine .connected r h entries' (fun key => ?_)
      rw [hget, lookup_later, hentries]
      split <;> rfl

end Commands

/-! ## schedules -/

section Schedules

variable {d : Deployment} {s : State R} {s' : AppState R}

/-- Calls are answered alike. -/
theorem Stands.exec (h : Stands d.json s s') (hjson : d.json.Lawful) (c : Call)
    (htext : ∀ key value, c = .cacheSet key value → (d.json.toString value).isSome) :
    (State.exec d.json c s).1 = (AppState.exec c s').1 ∧
      Stands d.json (State.exec d.json c s).2 (AppState.exec c s').2 := by
  obtain ⟨repo, statsStorage, cache⟩ := s'
  obtain ⟨rfl, rfl, hcache⟩ := h
  cases c with
  | cacheGet key =>
      obtain ⟨hanswer, hstands⟩ := hcache.get key
      exact ⟨hanswer, rfl, rfl, hstands⟩
  | cacheSet key value => exact ⟨rfl, rfl, rfl, hcache.set hjson (htext key value rfl)⟩
  | cacheInvalidate key => exact ⟨rfl, rfl, rfl, hcache.invalidate key⟩
  | _ => exact ⟨rfl, rfl, rfl, hcache⟩

/-- The state after events of the environment. -/
def plainElapsed (es : List PlainEvent) (s' : AppState R) : AppState R :=
  es.foldl (fun s' e => plainElapse e s') s'

theorem plainElapsed_expire (keys : List String) (s' : AppState R) :
    plainElapsed (keys.map .expire) s' = { s' with cache := keys.foldl Cache.expire s'.cache } := by
  induction keys generalizing s' with
  | nil => rfl
  | cons key keys ih => exact ih (plainElapse (.expire key) s')

/-- What happens besides the requests is matched by events without a clock. -/
theorem Stands.elapse (h : Stands d.json s s') (e : Event) :
    ∃ es, Stands d.json (State.elapse e s) (plainElapsed es s') := by
  cases e with
  | purge now =>
      refine ⟨[.purge now], ?_, h.statsStorage, h.cache⟩
      show (LinkRepository.purgeExpired now s'.repo).2 = (LinkRepository.purgeExpired now s.repo).2
      rw [h.repo]
  | evict key =>
      refine ⟨[key].map .expire, ?_⟩
      rw [plainElapsed_expire]
      exact ⟨h.repo, h.statsStorage, h.cache.evict key⟩
  | pass ms =>
      obtain ⟨keys, hkeys⟩ := h.cache.pass ms
      refine ⟨keys.map .expire, ?_⟩
      rw [plainElapsed_expire]
      exact ⟨h.repo, h.statsStorage, hkeys⟩

theorem reach_env (crates : Crates) (q : PlainClients config R) (es : List PlainEvent) :
    ∃ past, Run.reach (plainStep crates) q (es.map .env) =
      { q with state := plainElapsed es q.state, past := past } := by
  induction es generalizing q with
  | nil => exact ⟨q.past, rfl⟩
  | cons e es ih => exact ih (plainStep crates q (.env e))

/-- The response a task is about to cache. -/
def filling? (t : ClientTask config R) : Option LinkResponse :=
  match t.rest with
  | .call (.cacheSet _ value) _ => some value
  | _ => none

/-- A response that is about to be cached has a text. -/
def Serializes (d : Deployment) (p : Clients config R) : Pool.Move (Request config) Event → Prop
  | .advance i => ∀ t ∈ p.tasks[i]?, ∀ value ∈ filling? t, (d.json.toString value).isSome
  | _ => True

instance (p : Clients config R) : DecidablePred (Serializes d p)
  | .start _ => .isTrue trivial
  | .env _ => .isTrue trivial
  | .advance i => inferInstanceAs (Decidable
      (∀ t ∈ p.tasks[i]?, ∀ value ∈ filling? t, (d.json.toString value).isSome))

/-- A move is matched by moves without a clock. -/
theorem exists_alike_step (hjson : d.json.Lawful) {p : Clients config R} {q : PlainClients config R}
    (h : Pool.Alike (Stands d.json) p q) (m : Pool.Move (Request config) Event)
    (htext : Serializes d p m) :
    ∃ moves, Pool.Alike (Stands d.json) (step d p m) (Run.reach (plainStep d.crates) q moves) := by
  rcases step_cases d p m with hsame | ⟨hmove, _⟩
  · exact ⟨[], by rw [hsame]; exact h⟩
  · rw [hmove]
    cases m with
    | start r =>
        have halike : Pool.Alike (Stands d.json) (move d p (.start r))
            (plainStep d.crates q (.start r)) := h.start r
        exact ⟨[.start r], halike⟩
    | advance i =>
        have halike : Pool.Alike (Stands d.json) (move d p (.advance i))
            (plainStep d.crates q (.advance i)) := by
          refine h.advance i (fun t c k ht hr => h.state.exec hjson c (fun key value hc => ?_))
          subst hc
          exact htext t ht value (by simp [filling?, hr])
        exact ⟨[.advance i], halike⟩
    | env e =>
        obtain ⟨es, hstands⟩ := h.state.elapse e
        obtain ⟨past, hreach⟩ := reach_env d.crates q es
        refine ⟨es.map .env, ?_⟩
        rw [hreach]
        exact h.elapsed hstands past

/-- **Refinement**: what the clients are told with a clock they are told, under some
schedule, without one. -/
theorem exists_alike_reach (d : Deployment) (hjson : d.json.Lawful) (h : Stands d.json s s')
    (moves : List (Pool.Move (Request config) Event))
    (htext : Run.Along (step d) (Serializes d) (Pool.new s) moves) :
    ∃ moves', Pool.Alike (Stands d.json) (Run.reach (step d) (Pool.new s) moves)
      (Run.reach (plainStep d.crates) (Pool.new s') moves') :=
  Run.exists_reach_of_simulation (Pool.Alike (Stands d.json))
    (fun _ _ m halike htext => exists_alike_step hjson halike m htext) (Pool.alike_new h) htext

end Schedules

/-- The link is stored, and the cache is empty. -/
def plainPromoStored : AppState InMemoryRepo :=
  ⟨promoStored.repo, .new, .fromManager ⟨fun _ => false, fun _ => false, fun _ => false⟩⟩

theorem stands_promoStored : Stands promoJson promoStored plainPromoStored where
  repo := rfl
  statsStorage := rfl
  cache := stands_fromManager _ _ _ _ _ _

/-- The run of the oldest answer. -/
theorem exists_alike_worstRun : ∃ moves, Pool.Alike (Stands promoJson) worstRun
    (Run.reach (plainStep Api.oneUrl) (Pool.new plainPromoStored) moves) :=
  exists_alike_reach promoDeployment lawful_promoJson stands_promoStored _ (by decide)

end Timed

end Shorty
