import Shorty.Service.Transparency

/-!
# Shorty.Service.Hits

The number of redirects of a link, as the two transports show it.  Reading one link shows
the counter of the store; a listing of either transport, and the response to an update,
are built from a link without its counter and show zero.  So they agree on a link exactly
as long as it has not been followed.
-/

namespace Shorty

namespace Service

open LawfulLinkRepository (find)

variable {config : Config} {crates : Crates} {R : Type} [LinkRepository R] [LawfulLinkRepository R]
  {s s' : AppState R} {now : SystemTime} {code : String} {l : LinkStats}

/-- Every response that shows a link shows the counter the store has for it. -/
structure HitsAgree (crates : Crates) (s : AppState R) (code : String) (l : LinkStats) : Prop where
  /-- The response to an update, against the store just after it. -/
  updateLink : ∀ now req link s',
    (Api.updateLink crates now code req).run s = (.ok (.ok (.link link)), s') →
    ∃ l', find s'.repo code = some l' ∧ link.hits = l'.hits
  listLinks : ∀ now limit cursor page s',
    (Api.listLinks crates now limit cursor).run s = (.ok (.ok (.links page)), s') →
    ∀ link ∈ page.links, link.code = code → link.hits = l.hits
  grpcListLinks : ∀ now req page s', (Grpc.listLinks now req).run s = (.ok page, s') →
    ∀ link ∈ page.links, link.code = code → link.hits = l.hits
  getLink : ∃ link, ((Api.getLink code).run s).1 = .ok (.ok (.link link)) ∧ link.hits = l.hits
  grpcGetLink : ∃ link, ((Grpc.getLink ⟨code⟩).run s).1 = .ok link ∧ link.hits = l.hits

/-! ## reading a link -/

theorem getLink_hits (hcache : s.cache = .disabled) (h : find s.repo code = some l) :
    ∃ link, ((Api.getLink code).run s).1 = .ok (.ok (.link link)) ∧ link.hits = l.hits := by
  have hmiss : (s.cache.get (linkKey code)).1 = none := by
    rw [hcache]
    rfl
  rw [Api.run_getLink_miss hmiss h]
  exact ⟨_, rfl, rfl⟩

theorem grpcGetLink_hits (h : find s.repo code = some l) :
    ∃ link, ((Grpc.getLink ⟨code⟩).run s).1 = .ok link ∧ link.hits = l.hits := by
  rw [Grpc.getLink, Handler.run_ask_bind, AppState.exec_stats_of_find h]
  exact ⟨_, rfl, rfl⟩

/-! ## listings -/

omit [LawfulLinkRepository R] in
/-- A listing shows no redirects. -/
theorem listLinks_hits {limit cursor : Option String} {page : ListLinksResponse}
    (h : (Api.listLinks crates now limit cursor).run s = (.ok (.ok (.links page)), s')) :
    ∀ link ∈ page.links, link.hits = 0 := by
  rw [Api.run_listLinks, Prod.mk.injEq] at h
  unfold Api.pageAnswer at h
  split at h
  · cases h.1
    intro link hmem
    obtain ⟨_, _, rfl⟩ := List.mem_map.mp hmem
    rfl
  · cases h.1
  · cases h.1

omit [LawfulLinkRepository R] in
theorem grpcListLinks_hits {req : Grpc.ListLinksRequest} {page : Grpc.ListLinksResponse}
    (h : (Grpc.listLinks now req).run s = (.ok page, s')) : ∀ link ∈ page.links, link.hits = 0 := by
  rw [Grpc.run_listLinks, Prod.mk.injEq] at h
  unfold Grpc.pageAnswer at h
  split at h
  · cases h.1
    intro link hmem
    obtain ⟨_, _, rfl⟩ := List.mem_map.mp hmem
    rfl
  · cases h.1
  · cases h.1

/-! ## updates -/

/-- The response to an update shows no redirects, and the counter stays what it was. -/
theorem updateLink_hits {req : UpdateLinkRequest} {link : LinkResponse}
    (h : find s.repo code = some l)
    (hrun : (Api.updateLink crates now code req).run s = (.ok (.ok (.link link)), s')) :
    link.hits = 0 ∧ ∃ l', find s'.repo code = some l' ∧ l'.hits = l.hits := by
  cases hurl : parseTargetUrl crates.url req.targetUrl with
  | error e =>
      rw [Api.run_updateLink_invalid hurl] at hrun
      cases hrun
  | ok url =>
      rcases LawfulLinkRepository.update_cases now code url.asStr req.version s.repo with
        ⟨e, hup⟩ | ⟨l', hl', hok, hput⟩
      · rw [Api.run_updateLink_error hurl hup] at hrun
        cases hrun
      · rw [Api.run_updateLink_ok hurl (Prod.ext hok rfl)] at hrun
        rw [h] at hl'
        cases hl'
        cases hrun
        exact ⟨rfl, _, (congrFun hput code).trans Store.put_self, rfl⟩

/-- A link whose version can be counted on can be updated to any target that parses. -/
theorem updateLink_accepted {raw : String} {url : Url}
    (hurl : parseTargetUrl crates.url raw = .ok url) (h : find s.repo code = some l)
    (hlast : LawfulLinkRepository.exhausted R l.link.version = none) (now : SystemTime) :
    ∃ link s', (Api.updateLink crates now code ⟨raw, l.link.version⟩).run s =
      (.ok (.ok (.link link)), s') := by
  have htarget := LawfulLinkRepository.admitsTarget_of_isText (R := R) (isText_asStr url) url.nonempty
  have hok : (LinkRepository.update now code url.asStr l.link.version s.repo).1 =
      .ok (l.link.updated (LawfulLinkRepository.stamp R now) url.asStr) :=
    (LawfulLinkRepository.update_found h htarget (fun _ => rfl) hlast).1
  exact ⟨_, _, Api.run_updateLink_ok hurl (Prod.ext hok rfl)⟩

/-- The responses agree on a link that has not been followed ... -/
theorem hitsAgree_of_unfollowed (hcache : s.cache = .disabled) (h : find s.repo code = some l) (hzero : l.hits = 0) :
    HitsAgree crates s code l where
  updateLink now req link s' hrun := by
    obtain ⟨hlink, l', hl', hkept⟩ := updateLink_hits h hrun
    exact ⟨l', hl', by rw [hlink, hkept, hzero]⟩
  listLinks now limit cursor page s' hrun link hmem _ := by rw [listLinks_hits hrun link hmem, hzero]
  grpcListLinks now req page s' hrun link hmem _ := by rw [grpcListLinks_hits hrun link hmem, hzero]
  getLink := getLink_hits hcache h
  grpcGetLink := grpcGetLink_hits h

/-- ... and on no other: an update would show. -/
theorem HitsAgree.unfollowed (hagree : HitsAgree crates s code l) {raw : String} {url : Url}
    (hurl : parseTargetUrl crates.url raw = .ok url) (h : find s.repo code = some l)
    (hlast : LawfulLinkRepository.exhausted R l.link.version = none) : l.hits = 0 := by
  obtain ⟨link, s', hrun⟩ := updateLink_accepted hurl h hlast .UNIX_EPOCH
  obtain ⟨hzero, l', hl', hkept⟩ := updateLink_hits h hrun
  obtain ⟨l'', hl'', hshown⟩ := hagree.updateLink _ _ _ _ hrun
  rw [hl'] at hl''
  cases hl''
  rw [← hkept, ← hshown, hzero]

/-! ## runs -/

theorem disabled_reach (crates : Crates) (repo : R) (stats : StatsStorage)
    (events : List (Event config)) :
    (Run.reach (step crates) (startDisabled repo stats) events).cache = .disabled :=
  Run.invariant (P := fun s : AppState R => s.cache = .disabled) (fun _ e h => disabled_step h e) rfl
    events

/-- **Hits**: in every state the service reaches without a cache, over either repository,
all responses agree on a link if its counter is zero; and only then, if its version can be
counted on, and an update made. -/
theorem hitsAgree_reach_iff (crates : Crates) (raw : String) (url : Url)
    (hurl : parseTargetUrl crates.url raw = .ok url) (repo : R) (stats : StatsStorage)
    (events : List (Event config)) (code : String) (l : LinkStats)
    (h : find (Run.reach (step crates) (startDisabled repo stats) events).repo code = some l) :
    (l.hits = 0 → HitsAgree crates (Run.reach (step crates) (startDisabled repo stats) events) code l) ∧
      (LawfulLinkRepository.exhausted R l.link.version = none →
        HitsAgree crates (Run.reach (step crates) (startDisabled repo stats) events) code l → l.hits = 0) :=
  ⟨hitsAgree_of_unfollowed (disabled_reach crates repo stats events) h,
    fun hlast hagree => hagree.unfollowed hurl h hlast⟩

/-- A link is created and followed once. -/
def followedOnce : List (Event ⟨1, 1⟩) := [
  .http ⟨.UNIX_EPOCH, none, .createLink (fun _ => Api.letterA)
    ⟨"https://example.com/", some "promo2026", none⟩⟩,
  .http ⟨.UNIX_EPOCH, none, .redirect "promo2026"⟩]

/-- The link after that. -/
def followedLink : LinkStats := ⟨.new .UNIX_EPOCH "promo2026" "https://example.com/", 1⟩

theorem find_followedOnce : find (Run.reach (step Api.oneUrl)
    (startDisabled InMemoryRepo.new .new) followedOnce).repo "promo2026" = some followedLink := by
  decide

theorem hitsAgree_reach_followedOnce :
    (followedLink.hits = 0 → HitsAgree Api.oneUrl (Run.reach (step Api.oneUrl) (startDisabled InMemoryRepo.new .new)
        followedOnce) "promo2026" followedLink) ∧
      (LawfulLinkRepository.exhausted InMemoryRepo followedLink.link.version = none →
        HitsAgree Api.oneUrl (Run.reach (step Api.oneUrl) (startDisabled InMemoryRepo.new .new)
          followedOnce) "promo2026" followedLink → followedLink.hits = 0) :=
  hitsAgree_reach_iff Api.oneUrl "https://example.com/" _ rfl InMemoryRepo.new .new followedOnce
    "promo2026" followedLink find_followedOnce

/-- An update of the link shows zero, a read shows one. -/
theorem not_hitsAgree :
    ¬ ∀ (events : List (Event ⟨1, 1⟩)) (code : String) (l : LinkStats),
      find (Run.reach (step Api.oneUrl) (startDisabled InMemoryRepo.new .new) events).repo code =
        some l →
      HitsAgree Api.oneUrl (Run.reach (step Api.oneUrl) (startDisabled InMemoryRepo.new .new) events)
        code l := by
  intro h
  have hurl : parseTargetUrl Api.oneUrl.url "https://example.com/" =
      .ok (Api.plainUrl "https" "https://example.com/" (by decide) (by simp)) := rfl
  have hagree := h followedOnce "promo2026" followedLink find_followedOnce
  have hzero := hagree.unfollowed hurl find_followedOnce rfl
  exact absurd hzero (by decide)

end Service

end Shorty
