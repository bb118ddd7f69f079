import Shorty.Lib.Run
import Shorty.Api.Handlers
import Shorty.Stats.Top

/-!
# Shorty.Api.StatsEndpoints

The statistics endpoints against what was served.  They read a storage of their
own that `main` creates empty and that no handler writes: the redirects are
counted by the repository.  So what they report is right exactly while there is
nothing to report.
-/

namespace Shorty

namespace Api

variable {config : Config} (crates : Crates) {R : Type} [LinkRepository R] [LawfulLinkRepository R]

open LawfulLinkRepository (find)

/-- A state and what was served: the redirects answered 307 for each code since
a create request for it was last answered 201. -/
structure Ledger (R : Type) where
  state : AppState R
  followed : String → Nat

namespace Ledger

/-- The state `main` builds over a repository and a cache.  A repository that
outlives the process has a past, so the counts start anywhere. -/
def start (repo : R) (cache : Cache) (followed : String → Nat) : Ledger R :=
  ⟨⟨repo, .new, cache⟩, followed⟩

/-- The counts after a request and its response. -/
def count (followed : String → Nat) : Request config → Option Response → String → Nat
  | .redirect code, some response =>
      if response.status = 307 then Function.update followed code (followed code + 1) else followed
  | .createLink _ _, some ⟨201, _, .link link⟩ => Function.update followed link.code 0
  | _, _ => followed

def step (l : Ledger R) (a : Arrival config) : Ledger R :=
  let out := serve crates a.now a.requestId a.req l.state
  ⟨out.2, count l.followed a.req out.1⟩

/-- A code with a link that is not expired. -/
def Live (l : Ledger R) (now : SystemTime) (code : String) : Prop :=
  ∃ s, find l.state.repo code = some s ∧ s.link.isExpired now = false

/-- What `GET /api/v1/links/{code}/stats` and `GET /api/v1/stats/top` have to
answer at `now`: for every live code the redirects served, and the followed live
codes with theirs. -/
structure Reports (l : Ledger R) (now : SystemTime) (requestId : Option String) : Prop where
  stats : ∀ code, l.Live now code → ∃ last60s,
    answer requestId ((getLinkStats now code).run l.state).1 =
      some (.ok (.linkStats ⟨code, l.followed code, last60s⟩))
  top : ∀ (codes : List String) (limit : Nat), codes.Nodup →
    (∀ code, code ∈ codes ↔ l.Live now code ∧ 0 < l.followed code) → codes.length ≤ limit →
    ∃ links, answer requestId ((getTopStats limit).run l.state).1 =
        some (.ok (.topStats links)) ∧
      links.Perm (codes.map (fun code => ⟨code, l.followed code⟩))

/-- No live code has been followed since it was last created. -/
def Unfollowed (l : Ledger R) (now : SystemTime) : Prop :=
  ∀ code, l.Live now code → l.followed code = 0

variable {crates} {l : Ledger R} {now : SystemTime} {requestId : Option String}

omit [LawfulLinkRepository R] in
/-- The storage of the endpoints stays empty. -/
theorem statsStorage_step (a : Arrival config) :
    (l.step crates a).state.statsStorage = l.state.statsStorage :=
  statsStorage_run _ _

omit [LawfulLinkRepository R] in
theorem statsStorage_reach (arrivals : List (Arrival config))
    (h : l.state.statsStorage = .new) :
    (Run.reach (step crates) l arrivals).state.statsStorage = .new :=
  Run.invariant (P := fun l : Ledger R => l.state.statsStorage = StatsStorage.new)
    (fun _ a h => (statsStorage_step a).trans h) h arrivals

/-- Over an empty storage the statistics of a live code are zero. -/
theorem answer_getLinkStats (h : l.state.statsStorage = .new) {code : String}
    (hlive : l.Live now code) :
    answer requestId ((getLinkStats now code).run l.state).1 =
      some (.ok (.linkStats ⟨code, 0, 0⟩)) := by
  obtain ⟨s, hs, hexp⟩ := hlive
  have hget : AppState.exec (.get code) l.state = (.ok s.link, l.state) :=
    AppState.exec_get_of_find hs
  have hwindow : AppState.exec (.window code) l.state = (none, l.state) := by
    rw [AppState.exec, h]
    rfl
  simp [getLinkStats, hget, hwindow, ofRepo, hexp, answer]

omit [LawfulLinkRepository R] in
/-- The answer is the top of the storage, cut at a hundred links. -/
theorem answer_getTopStats_eq (s : AppState R) (limit : Nat) :
    answer requestId ((getTopStats limit).run s).1 =
      some (.ok (.topStats ((s.statsStorage.getTop (min limit 100)).map (fun p => ⟨p.1, p.2⟩)))) := by
  have htop : AppState.exec (.top (min limit 100)) s =
      (s.statsStorage.getTop (min limit 100), s) := rfl
  simp [getTopStats, htop, answer]

omit [LawfulLinkRepository R] in
/-- Whatever the storage holds, the endpoint lists the links with the highest totals. -/
theorem answer_getTopStats_isTop (s : AppState R) (limit : Nat) :
    ∃ top, s.statsStorage.IsTop (min limit 100) top ∧
      answer requestId ((getTopStats limit).run s).1 =
        some (.ok (.topStats (top.map (fun p => ⟨p.1, p.2⟩)))) :=
  ⟨_, s.statsStorage.isTop_getTop (min limit 100), answer_getTopStats_eq s limit⟩

omit [LawfulLinkRepository R] in
/-- Over an empty storage the top is empty. -/
theorem answer_getTopStats (h : l.state.statsStorage = .new) (limit : Nat) :
    answer requestId ((getTopStats limit).run l.state).1 = some (.ok (.topStats [])) := by
  rw [answer_getTopStats_eq, h, StatsStorage.getTop_new]
  rfl

/-- Over an empty storage the endpoints are right when nothing was followed. -/
theorem reports_iff (h : l.state.statsStorage = .new) :
    Reports l now requestId ↔ l.Unfollowed now := by
  constructor
  · intro hr code hlive
    obtain ⟨_, hstats⟩ := hr.stats code hlive
    rw [answer_getLinkStats h hlive] at hstats
    simp only [Option.some.injEq, Response.ok, Response.mk.injEq, Body.linkStats.injEq,
      LinkStatsResponse.mk.injEq, true_and] at hstats
    exact hstats.1.symm
  · intro hu
    constructor
    · intro code hlive
      exact ⟨0, by rw [answer_getLinkStats h hlive, hu code hlive]⟩
    · intro codes limit _ hcodes _
      have hnil : codes = [] := by
        rw [List.eq_nil_iff_forall_not_mem]
        intro code hmem
        obtain ⟨hlive, hpos⟩ := (hcodes code).mp hmem
        have := hu code hlive
        omega
      exact ⟨[], answer_getTopStats h limit, by rw [hnil]; exact List.Perm.nil⟩

end Ledger

/-- **Statistics endpoints**: after any run of requests against the state `main`
builds, over either repository, the endpoints report the redirects served exactly
when no live code has been followed since it was last created. -/
theorem reports_reach_iff (config : Config) (repo : R) (cache : Cache) (followed : String → Nat)
    (arrivals : List (Arrival config)) (now : SystemTime) (requestId : Option String) :
    (Run.reach (Ledger.step crates) (.start repo cache followed) arrivals).Reports now requestId ↔
      (Run.reach (Ledger.step crates) (.start repo cache followed) arrivals).Unfollowed now :=
  Ledger.reports_iff (Ledger.statsStorage_reach arrivals rfl)

/-- The configuration with codes of one character and one attempt. -/
def shortCodes : Config := ⟨1, 1⟩

/-- A create request and a redirect of the code it chose. -/
def followedOnce : List (Arrival shortCodes) := [
  ⟨.UNIX_EPOCH, none, .createLink (fun _ => Api.letterA)
    ⟨"https://example.com/", some "promo2026", none⟩⟩,
  ⟨.UNIX_EPOCH, none, .redirect "promo2026"⟩]

/-- After one redirect the statistics of the link are still zero. -/
theorem not_reports_followedOnce :
    ¬ (Run.reach (Ledger.step oneUrl) (.start InMemoryRepo.new .disabled (fun _ => 0))
      followedOnce).Reports .UNIX_EPOCH none := by
  rw [Ledger.reports_iff (Ledger.statsStorage_reach followedOnce rfl)]
  intro h
  have hfollowed : (Run.reach (Ledger.step oneUrl) (.start InMemoryRepo.new .disabled (fun _ => 0))
      followedOnce).followed "promo2026" = 1 := by decide
  have hstored : find (Run.reach (Ledger.step oneUrl)
      (.start InMemoryRepo.new .disabled (fun _ => 0)) followedOnce).state.repo "promo2026" =
      some ⟨.new .UNIX_EPOCH "promo2026" "https://example.com/", 1⟩ := by decide
  rw [h "promo2026" ⟨_, hstored, by decide⟩] at hfollowed
  cases hfollowed

end Api

end Shorty
