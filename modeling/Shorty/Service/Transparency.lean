import Shorty.Api.Calls
import Shorty.Service

/-!
# Shorty.Service.Transparency

Whether the cache can be seen, in runs where each event finishes before the next
starts.  Every handler that changes a link invalidates its key; the cleaner drops
links and leaves their keys alone.  So the cached responses stay those the
repository would give exactly when no tick drops a link that is cached, and as
long as they do the responses are those of a service without a cache.
-/

namespace Shorty

namespace Service

open LawfulLinkRepository (find)

variable {config : Config} {crates : Crates} {R : Type} [LinkRepository R] [LawfulLinkRepository R]
  {s : AppState R}

/-- Every cached response is the one of the stored link. -/
def Coherent (s : AppState R) : Prop :=
  ∀ code cached, s.cache.entry (linkKey code) = some cached →
    ∃ l, find s.repo code = some l ∧ cached = .ofLinkStats l

/-- A tick of the cleaner drops no link that is cached. -/
def PurgesUncached (s : AppState R) : Event config → Prop
  | .purgeExpired now => ∀ code l, find s.repo code = some l → l.link.isExpired now = true →
      s.cache.entry (linkKey code) = none
  | _ => True

/-- Coherent, and no `DEL` fails. -/
structure Kept (s : AppState R) : Prop where
  coherent : Coherent s
  deletes : s.cache.Deletes

/-! ## one event -/

/-- A change of the store under one code, with its key invalidated. -/
theorem coherent_of_invalidate (h : Kept s) {code : String} {r : R}
    (hother : ∀ code', code' ≠ code → find r code' = find s.repo code') :
    Coherent { s with repo := r, cache := s.cache.invalidate (linkKey code) } := by
  intro code' cached hentry
  by_cases hc : code' = code
  · rw [hc, Cache.entry_invalidate_self h.deletes] at hentry
    cases hentry
  · obtain ⟨l, hl, hcached⟩ := h.coherent code' cached (Cache.entry_of_entry_invalidate hentry)
    exact ⟨l, (hother code' hc).trans hl, hcached⟩

theorem kept_of_invalidate (h : Kept s) {code : String} {r : R}
    (hother : ∀ code', code' ≠ code → find r code' = find s.repo code') :
    Kept { s with repo := r, cache := s.cache.invalidate (linkKey code) } := by
  refine ⟨coherent_of_invalidate h hother, fun f hf => ?_⟩
  rw [Cache.faults_invalidate] at hf
  exact h.deletes f hf

/-- Every event but a tick that drops a cached link keeps the cache coherent. -/
theorem kept_of_effect {e : Event config} {s' : AppState R} (he : Effect s e s') (h : Kept s)
    (hc : PurgesUncached s e) : Kept s' := by
  cases he with
  | kept => exact h
  | looked _ code =>
      refine ⟨fun code' cached hentry => ?_, fun f hf => ?_⟩
      · simp only [Api.afterGet, Cache.entry_get] at hentry
        exact h.coherent code' cached hentry
      · rw [Api.afterGet, Cache.faults_get] at hf
        exact h.deletes f hf
  | filled _ code l hl =>
      refine ⟨fun code' cached hentry => ?_, fun f hf => ?_⟩
      · rcases Cache.entry_set hentry with ⟨hkey, hvalue⟩ | hentry
        · rw [linkKey_injective hkey]
          exact ⟨l, hl, hvalue⟩
        · simp only [Api.afterGet, Cache.entry_get] at hentry
          exact h.coherent code' cached hentry
      · rw [Cache.faults_set, Api.afterGet, Cache.faults_get] at hf
        exact h.deletes f hf
  | created _ code l r hfree hfind =>
      refine ⟨fun code' cached hentry => ?_, h.deletes⟩
      obtain ⟨l', hl', hcached⟩ := h.coherent code' cached hentry
      have hne : code' ≠ code := by
        rintro rfl
        rw [hfree] at hl'
        cases hl'
      exact ⟨l', by rw [hfind, Store.put_of_ne hne, hl'], hcached⟩
  | followed _ code l r hl hfind =>
      exact kept_of_invalidate h fun code' hne => by rw [hfind, Store.put_of_ne hne]
  | updated now requestId code req l r hfind =>
      exact kept_of_invalidate h fun code' hne => by rw [hfind, Store.put_of_ne hne]
  | deleted now requestId code r hfind =>
      exact kept_of_invalidate h fun code' hne => by rw [hfind, Store.drop_of_ne hne]
  | purged now r hfind =>
      refine ⟨fun code cached hentry => ?_, h.deletes⟩
      obtain ⟨l, hl, hcached⟩ := h.coherent code cached hentry
      have hlive : l.link.isExpired now = false := by
        refine Bool.eq_false_iff.mpr (fun hexp => ?_)
        rw [hc code l hl hexp] at hentry
        cases hentry
      exact ⟨l, by rw [hfind, Store.purge, hl]; simp [Option.filter, hlive], hcached⟩
  | expired key =>
      refine ⟨fun code cached hentry => ?_, fun f hf => ?_⟩
      · exact h.coherent code cached (Cache.entry_of_entry_expire hentry)
      · rw [Cache.faults_expire] at hf
        exact h.deletes f hf

theorem kept_step (e : Event config) (h : Kept s) (hc : PurgesUncached s e) :
    Kept (step crates s e) :=
  kept_of_effect (effect_step s e) h hc

/-- A tick that drops a cached link leaves a response without a link. -/
theorem purgesUncached_of_coherent (e : Event config) (h : Coherent (step crates s e)) :
    PurgesUncached s e := by
  cases e with
  | purgeExpired now =>
      intro code l hl hexp
      cases hentry : s.cache.entry (linkKey code) with
      | none => rfl
      | some cached =>
          obtain ⟨l', hl', _⟩ := h code cached hentry
          have hgone : find (step crates s (.purgeExpired now : Event config)).repo code = none := by
            have hfind := LawfulLinkRepository.find_purgeExpired now s.repo
            simp only [step, tick, hfind, Store.purge, hl, Option.filter_some, hexp]
            rfl
          rw [hgone] at hl'
          cases hl'
  | _ => trivial

/-! ## the same run without a cache -/

/-- The calls that do not read the cache. -/
def NoCacheGet : Call → Prop
  | .cacheGet _ => False
  | _ => True

/-- Two states with one repository, whatever their caches. -/
def SameStore (s t : AppState R) : Prop := t.repo = s.repo ∧ t.statsStorage = s.statsStorage

omit [LawfulLinkRepository R] in
theorem sameStore_exec (c : Call) (s t : AppState R) (hc : NoCacheGet c) (h : SameStore s t) :
    (AppState.exec c s).1 = (AppState.exec c t).1 ∧
      SameStore (AppState.exec c s).2 (AppState.exec c t).2 := by
  obtain ⟨repo, statsStorage, cache⟩ := s
  obtain ⟨repo', statsStorage', cache'⟩ := t
  obtain ⟨rfl, rfl⟩ := h
  cases c with
  | cacheGet key => exact absurd hc id
  | _ => exact ⟨rfl, rfl, rfl⟩

omit [LawfulLinkRepository R] in
/-- A handler that does not read the cache does the same over either. -/
theorem sameStore_run {ε α : Type} {h : Handler ε α} (hh : Handler.Only NoCacheGet h)
    {s t : AppState R} (hst : SameStore s t) :
    (h.run s).1 = (h.run t).1 ∧ SameStore (h.run s).2 (h.run t).2 :=
  Proc.run_simulation_of_only SameStore sameStore_exec hh s t hst

/-- Only a `get_link` reads the cache. -/
theorem noCacheGet_of_makes {req : Api.Request config} (hreq : ∀ code, req ≠ .getLink code) (c : Call)
    (h : Api.Makes req c) : NoCacheGet c := by
  cases h with
  | cacheGet code => exact absurd rfl (hreq code)
  | _ => trivial

omit [LawfulLinkRepository R] in
/-- A request that does not read the cache does the same over either. -/
theorem sameStore_handle {req : Api.Request config} (hreq : ∀ code, req ≠ .getLink code)
    (now : SystemTime) {s t : AppState R} (hst : SameStore s t) :
    ((Api.handle crates now req).run s).1 = ((Api.handle crates now req).run t).1 ∧
      SameStore ((Api.handle crates now req).run s).2 ((Api.handle crates now req).run t).2 :=
  sameStore_run ((Api.only_handle crates now req).mono (noCacheGet_of_makes hreq)) hst

/-- Two states with one repository, the first with a cache that is coherent, the
second without a cache. -/
structure Cached (s t : AppState R) : Prop where
  same : SameStore s t
  kept : Kept s
  disabled : t.cache = .disabled

/-- A read answers from the cache what the repository would have answered. -/
theorem getLink_of_cached {code : String} {t : AppState R} (h : Cached s t) :
    ((Api.getLink code).run s).1 = ((Api.getLink code).run t).1 ∧
      SameStore ((Api.getLink code).run s).2 ((Api.getLink code).run t).2 := by
  obtain ⟨hrepo, hstats⟩ := h.same
  have hmiss : (t.cache.get (linkKey code)).1 = none := by
    rw [h.disabled]
    rfl
  cases hget : (s.cache.get (linkKey code)).1 with
  | some cached =>
      obtain ⟨l, hl, rfl⟩ := h.kept.coherent code cached (Cache.entry_of_get hget)
      have hl' : find t.repo code = some l := by rw [hrepo, hl]
      rw [Api.run_getLink_hit hget, Api.run_getLink_miss hmiss hl']
      exact ⟨rfl, hrepo, hstats⟩
  | none =>
      cases hl : find s.repo code with
      | none =>
          have hl' : find t.repo code = none := by rw [hrepo, hl]
          rw [Api.run_getLink_absent hget hl, Api.run_getLink_absent hmiss hl']
          exact ⟨rfl, hrepo, hstats⟩
      | some l =>
          have hl' : find t.repo code = some l := by rw [hrepo, hl]
          rw [Api.run_getLink_miss hget hl, Api.run_getLink_miss hmiss hl']
          exact ⟨rfl, hrepo, hstats⟩

/-- Over a coherent cache a request is answered as without one. -/
theorem handle_of_cached {t : AppState R} (h : Cached s t) (now : SystemTime)
    (req : Api.Request config) :
    ((Api.handle crates now req).run s).1 = ((Api.handle crates now req).run t).1 ∧
      SameStore ((Api.handle crates now req).run s).2 ((Api.handle crates now req).run t).2 := by
  cases req with
  | getLink code => exact getLink_of_cached h
  | _ => exact sameStore_handle (by simp) now h.same

theorem noCacheGet_grpcCreateLink (now : SystemTime) (generated : Grpc.ShortUuid)
    (req : Grpc.CreateLinkRequest) :
    Handler.Only NoCacheGet (Grpc.createLink now generated req) := by
  rw [Grpc.createLink]
  split
  · exact Handler.only_fail _
  · refine Handler.only_bind (Handler.only_ask trivial) (fun answer => ?_)
    refine Handler.only_bind (Handler.only_ofExcept _ _) (fun _ => ?_)
    refine Handler.only_bind (Handler.only_ask trivial) (fun answer => ?_)
    exact Handler.only_bind (Handler.only_ofExcept _ _) (fun _ => Handler.only_pure _)

/-- Over a coherent cache an event changes the repository as without one. -/
theorem sameStore_step {t : AppState R} (h : Cached s t) (e : Event config) :
    SameStore (step crates s e) (step crates t e) := by
  cases e with
  | http a => exact (handle_of_cached h a.now a.req).2
  | grpcGetLink req =>
      rw [step, step, run_grpcGetLink_state, run_grpcGetLink_state]
      exact h.same
  | grpcCreateLink now generated req =>
      exact (sameStore_run (noCacheGet_grpcCreateLink now generated req) h.same).2
  | grpcListLinks now req =>
      rw [step, step, run_grpcListLinks_state, run_grpcListLinks_state]
      exact h.same
  | purgeExpired now =>
      obtain ⟨hrepo, hstats⟩ := h.same
      rw [step, step, tick, tick, SameStore, hrepo]
      exact ⟨rfl, hstats⟩
  | expire key => exact h.same

/-- A cache without a connection stays one. -/
theorem disabled_step {t : AppState R} (h : t.cache = .disabled) (e : Event config) :
    (step crates t e).cache = .disabled := by
  have heffect : Effect t e (step crates t e) := effect_step t e
  generalize step crates t e = t' at heffect
  cases heffect with
  | kept => exact h
  | looked _ code => rw [Api.afterGet, h]; rfl
  | filled _ code l hl => rw [Api.afterGet, h]; rfl
  | created => exact h
  | followed => rw [h]; rfl
  | updated => rw [h]; rfl
  | deleted => rw [h]; rfl
  | purged => exact h
  | expired key => rw [h]; rfl

/-- **Simulation step**: an event that drops no cached link looks the same with
and without the cache. -/
theorem cached_step {t : AppState R} (h : Cached s t) (e : Event config) (hc : PurgesUncached s e) :
    response crates s e = response crates t e ∧ Cached (step crates s e) (step crates t e) := by
  constructor
  · cases e with
    | http a =>
        rw [response, response, Api.serve, Api.serve, (handle_of_cached h a.now a.req).1]
    | _ => rfl
  · exact ⟨sameStore_step h e, kept_step e h.kept hc, disabled_step h.disabled e⟩

/-! ## runs -/

/-- The service over a repository and an empty cache whose `DEL`s succeed. -/
def start (repo : R) (stats : StatsStorage) (missGet dropSet : Nat → Bool) : AppState R where
  repo := repo
  statsStorage := stats
  cache := .fromManager ⟨missGet, dropSet, fun _ => false⟩

/-- The service over a repository and no cache. -/
def startDisabled (repo : R) (stats : StatsStorage) : AppState R := ⟨repo, stats, .disabled⟩

theorem cached_start (repo : R) (stats : StatsStorage) (missGet dropSet : Nat → Bool) :
    Cached (start repo stats missGet dropSet) (startDisabled repo stats) where
  same := ⟨rfl, rfl⟩
  kept := by
    refine ⟨fun code cached hentry => ?_, fun f hf n => ?_⟩
    · cases hentry
    · cases hf
      rfl
  disabled := rfl

/-- **Cache transparency**: every cached response stays that of the stored link,
in every state of a run, exactly when no tick of the cleaner drops a link that is
cached; and if none does, every HTTP response of the run is the one the service
gives without a cache. -/
theorem transparent_iff (crates : Crates) (repo : R) (stats : StatsStorage)
    (missGet dropSet : Nat → Bool) (events : List (Event config)) :
    (Run.Throughout (step crates) Coherent (start repo stats missGet dropSet) events ↔
      Run.Along (step crates) PurgesUncached (start repo stats missGet dropSet) events) ∧
    (Run.Along (step crates) PurgesUncached (start repo stats missGet dropSet) events →
      Run.outputs (step crates) (response crates) (start repo stats missGet dropSet) events =
        Run.outputs (step crates) (response crates) (startDisabled repo stats) events) := by
  have hstart := cached_start repo stats missGet dropSet
  constructor
  · exact Run.throughout_iff_along (fun _ h => h.coherent) (fun _ e h hc => kept_step e h hc)
      (fun _ e _ h => purgesUncached_of_coherent e h) hstart.kept
  · exact Run.outputs_eq_of_simulation Cached (fun _ _ e h hc => cached_step h e hc) hstart

/-- The configuration with codes of one character and one attempt. -/
def smallConfig : Config := ⟨1, 1⟩

/-- A link with a minute to live is created and read, the cleaner runs, and the
link is read again. -/
def readAroundTick (tickAt : SystemTime) : List (Event smallConfig) := [
  .http ⟨.UNIX_EPOCH, none, .createLink (fun _ => Api.letterA)
    ⟨"https://example.com/", some "promo2026", some 60⟩⟩,
  .http ⟨.UNIX_EPOCH, none, .getLink "promo2026"⟩,
  .purgeExpired tickAt,
  .http ⟨tickAt, none, .getLink "promo2026"⟩]

/-- The service the examples start from. -/
def fresh : AppState InMemoryRepo := start .new .new (fun _ => false) (fun _ => false)

/-- A tick before the expiry drops nothing, so the cache does not show. -/
theorem transparent_before_expiry :
    Run.outputs (step Api.oneUrl) (response Api.oneUrl) fresh (readAroundTick (.ofSecs 59)) =
      Run.outputs (step Api.oneUrl) (response Api.oneUrl) (startDisabled InMemoryRepo.new .new)
        (readAroundTick (.ofSecs 59)) := by
  refine (transparent_iff Api.oneUrl InMemoryRepo.new .new (fun _ => false) (fun _ => false) _).2 ?_
  refine ⟨trivial, trivial, ?_, trivial, trivial⟩
  intro code l hl hexp
  have hitem := Table.get?_eq_some_iff.mp (InMemoryRepo.find_eq_some_iff.mp hl)
  have hitems : (Run.reach (step Api.oneUrl) fresh
      ((readAroundTick (.ofSecs 59)).take 2)).repo.inner.items = [("promo2026", .new
        ((ShortLink.new .UNIX_EPOCH "promo2026" "https://example.com/").withExpiresAt
          (.ofSecs 60)))] := by decide
  have hlink : l.link = (ShortLink.new .UNIX_EPOCH "promo2026" "https://example.com/").withExpiresAt
      (.ofSecs 60) :=
    congrArg (fun p => p.2.link) (List.mem_singleton.mp (hitems ▸ hitem))
  rw [hlink] at hexp
  exact absurd hexp (by decide)

/-- A tick after the expiry drops the link and leaves it cached: the second read
answers 200, and 404 without a cache. -/
theorem not_transparent_after_expiry :
    ¬ Run.Throughout (step Api.oneUrl) Coherent fresh (readAroundTick (.ofSecs 60)) ∧
    Run.outputs (step Api.oneUrl) (response Api.oneUrl) fresh (readAroundTick (.ofSecs 60)) ≠
      Run.outputs (step Api.oneUrl) (response Api.oneUrl) (startDisabled InMemoryRepo.new .new)
        (readAroundTick (.ofSecs 60)) := by
  constructor
  · intro h
    have hlast : Coherent (Run.reach (step Api.oneUrl) fresh (readAroundTick (.ofSecs 60))) :=
      h.last
    have hcached : (Run.reach (step Api.oneUrl) fresh (readAroundTick (.ofSecs 60))).cache.entry
        (linkKey "promo2026") =
        some ⟨"promo2026", "https://example.com/", 0, some 60, 0, 1⟩ := by decide
    have hgone : find (Run.reach (step Api.oneUrl) fresh (readAroundTick (.ofSecs 60))).repo
        "promo2026" = none := by decide
    obtain ⟨l, hl, _⟩ := hlast _ _ hcached
    rw [hgone] at hl
    cases hl
  · decide

end Service

end Shorty
