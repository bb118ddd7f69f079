import Shorty.Postgres.Expiry
import Shorty.Timed.Refinement

/-!
# Shorty.Backends

The service over the in-memory store against the service over PostgreSQL
(`create_repository` in `main.rs` chooses one).  The table keeps microseconds of its own
clock, and an expiry to the second; the texts a database refuses, the versions an update has
to name and can count on, a clock that is off and the fraction of a second an expiry loses
are where the two can be told apart.  A schedule
that keeps clear of these is answered alike by both: HTTP to the letter, and gRPC to the
second.
-/

namespace Shorty

namespace Backends

open LawfulLinkRepository (find missing)

variable {config : Config} {db : Database}

/-! ## what the two stores keep alike -/

/-- An instant to the second, as `INSERT` keeps an expiry. -/
def wholeSecs (t : SystemTime) : SystemTime where
  ns := t.secsSinceEpoch * 10 ^ 9
  inRange := by
    have := t.inRange
    unfold SystemTime.secsSinceEpoch
    omega

/-- A link of the in-memory store and the one of the table. -/
structure LinkAlike (l l' : ShortLink) : Prop where
  code : l'.code = l.code
  targetUrl : l'.targetUrl = l.targetUrl
  createdAt : l'.createdAt.secsSinceEpoch = l.createdAt.secsSinceEpoch
  updatedAt : l'.updatedAt.secsSinceEpoch = l.updatedAt.secsSinceEpoch
  expiresAt : l'.expiresAt = l.expiresAt.map wholeSecs
  version : l'.version = l.version

structure StatsAlike (l l' : LinkStats) : Prop where
  link : LinkAlike l.link l'.link
  hits : l'.hits = l.hits

/-- The same codes, with links alike. -/
def StoresAlike (s s' : Store) : Prop := ∀ code, Option.Rel StatsAlike (s code) (s' code)

/-- The state over one store and over the other. -/
structure AppAlike (s : AppState InMemoryRepo) (s' : AppState (PostgresRepo db)) : Prop where
  links : StoresAlike (find s.repo) (find s'.repo)
  statsStorage : s'.statsStorage = s.statsStorage
  cache : s'.cache = s.cache

@[simp] theorem secsSinceEpoch_wholeSecs (t : SystemTime) :
    (wholeSecs t).secsSinceEpoch = t.secsSinceEpoch := by
  unfold wholeSecs SystemTime.secsSinceEpoch
  simp only
  omega

theorem secsSinceEpoch_truncMicros (t : SystemTime) :
    t.truncMicros.secsSinceEpoch = t.secsSinceEpoch := by
  unfold SystemTime.truncMicros SystemTime.secsSinceEpoch
  simp only
  omega

/-- An expiry chrono has a date for; or what is stored when it has none. -/
def KeepsSecond (now e : SystemTime) : Prop :=
  (SystemTime.fromTimestamp e.secsSinceEpoch).isSome = true ∨ now.truncMicros = wholeSecs e

instance (now e : SystemTime) : Decidable (KeepsSecond now e) := inferInstanceAs (Decidable (_ ∨ _))

/-- The clocks of the service and of the database show the same second. -/
def SameSecond (db : Database) (now : SystemTime) : Prop := (db.clock now).secsSinceEpoch = now.secsSinceEpoch

instance (db : Database) (now : SystemTime) : Decidable (SameSecond db now) := inferInstanceAs (Decidable (_ = _))

/-- What the database stamps a row with. -/
theorem secsSinceEpoch_dbNow_iff {now : SystemTime} :
    (PostgresRepo.dbNow db now).secsSinceEpoch = now.secsSinceEpoch ↔ SameSecond db now := by
  rw [PostgresRepo.dbNow, secsSinceEpoch_truncMicros]
  rfl

/-- `INSERT` keeps the whole seconds of these. -/
theorem expiresColumn_eq_iff {now e : SystemTime} :
    PostgresRepo.expiresColumn now e = wholeSecs e ↔ KeepsSecond now e := by
  rw [KeepsSecond]
  cases h : SystemTime.fromTimestamp e.secsSinceEpoch with
  | some t =>
      have hsame : PostgresRepo.expiresColumn now e = wholeSecs e :=
        SystemTime.ns_injective (PostgresRepo.ns_expiresColumn_of_some now h)
      simp [hsame]
  | none => simp [PostgresRepo.expiresColumn_of_none h]

section Stores

variable {s s' : Store} {code : String} {l l' : LinkStats}

/-- A code has no link in either store, or has two that are alike. -/
theorem StoresAlike.cases (h : StoresAlike s s') (code : String) : (s code = none ∧ s' code = none) ∨
    ∃ l l', s code = some l ∧ s' code = some l' ∧ StatsAlike l l' := by
  have hcode := h code
  revert hcode
  cases s code <;> cases s' code <;> simp

theorem StoresAlike.put (h : StoresAlike s s') (hl : StatsAlike l l') :
    StoresAlike (s.put code l) (s'.put code l') := by
  intro code'
  by_cases hcode : code' = code
  · subst hcode
    rw [Store.put_self, Store.put_self]
    exact .some hl
  · rw [Store.put_of_ne hcode, Store.put_of_ne hcode]
    exact h code'

theorem StoresAlike.drop (h : StoresAlike s s') : StoresAlike (s.drop code) (s'.drop code) := by
  intro code'
  by_cases hcode : code' = code
  · subst hcode
    rw [Store.drop_self, Store.drop_self]
    exact .none
  · rw [Store.drop_of_ne hcode, Store.drop_of_ne hcode]
    exact h code'

end Stores

/-- An expiry is past in both stores or in neither: `now` is not in the fraction of a second
the table has lost. -/
def Clear (now : SystemTime) (link : ShortLink) : Prop :=
  ∀ e ∈ link.expiresAt, (wholeSecs e ≤ now ↔ e ≤ now)

instance (now : SystemTime) (link : ShortLink) : Decidable (Clear now link) := by
  unfold Clear
  infer_instance

theorem LinkAlike.isExpired_iff {l l' : ShortLink} (h : LinkAlike l l') {now : SystemTime} :
    l'.isExpired now = l.isExpired now ↔ Clear now l := by
  rw [ShortLink.isExpired, ShortLink.isExpired, h.expiresAt, Clear]
  cases l.expiresAt <;> simp

theorem StoresAlike.purge {s s' : Store} (h : StoresAlike s s') {now : SystemTime}
    (hclear : ∀ code l, s code = some l → Clear now l.link) : StoresAlike (s.purge now) (s'.purge now) := by
  intro code
  rw [Store.purge, Store.purge]
  obtain ⟨hnone, hnone'⟩ | ⟨l, l', hl, hl', halike⟩ := h.cases code
  · simp [hnone, hnone']
  · have hexp := halike.link.isExpired_iff.mpr (hclear code l hl)
    rw [hl, hl', Option.filter_some, Option.filter_some, hexp]
    cases l.link.isExpired now <;> simp [halike]

/-! ## what a request can be answered -/

/-- Two answers of the stores: results that are alike, or errors the API shows alike. -/
inductive Outcome {α : Type} (Q : α → α → Prop) : Except RepoError α → Except RepoError α → Prop where
  | ok {a b : α} (h : Q a b) : Outcome Q (.ok a) (.ok b)
  | error {e e' : RepoError} (h : AppError.ofRepoError e' = AppError.ofRepoError e) :
      Outcome Q (.error e) (.error e')

/-- Answers of the two stores that a request treats in one way. -/
def Alike (q : Timed.Request config) : (c : Call) → c.Resp → c.Resp → Prop
  | .insert _ _ => Outcome (fun _ _ => True)
  | .get _ => Outcome (fun l l' => LinkAlike l l' ∧ l'.isExpired q.now = l.isExpired q.now)
  | .update _ _ _ _ => Outcome LinkAlike
  | .remove _ => Outcome (fun _ _ => True)
  | .recordHit _ _ => Outcome (fun _ _ => True)
  | .stats _ => Outcome StatsAlike
  -- the cursor of a page is a text of its store
  | .list _ _ _ => fun _ _ => False
  | .cacheGet _ => Eq
  | .cacheSet _ _ => Eq
  | .cacheInvalidate _ => Eq
  | .window _ => Eq
  | .top _ => Eq

/-- What the handlers take care of: a new link is as `ShortLink::new` makes it, and a target
is a URL. -/
def Sent : Call → Prop
  | .insert now link => link.createdAt = now ∧ link.updatedAt = now ∧ link.version = 1
  | .update _ _ url _ => PostgresRepo.admitsTarget url = true
  | _ => True

/-- What a call has to meet to be answered alike: its texts are some that PostgreSQL can
hold, an update names the current version and can count it on, what is written is written
while the clocks show the same second, an expiry has a date, and no link is in the last
fraction of a second before its expiry. -/
def Portable (db : Database) (q : Timed.Request config) (s : AppState InMemoryRepo) : Call → Prop
  | .insert now link => PostgresRepo.insertRefusal link = none ∧
      (find s.repo link.code = none → SameSecond db now ∧ ∀ e ∈ link.expiresAt, KeepsSecond now e)
  | .get code => isText code = true ∧ ∀ l ∈ find s.repo code, Clear q.now l.link
  | .update now code _ v => isText code = true ∧ ∀ l ∈ find s.repo code,
      (l.link.version = v ∧ v ≠ Int64.maxValue) ∧ SameSecond db now
  | .remove code => isText code = true
  | .recordHit _ code => isText code = true
  | .stats code => isText code = true
  | .list _ _ _ => False
  | _ => True

instance (q : Timed.Request config) (s : AppState InMemoryRepo) (c : Call) : Decidable (Portable db q s c) := by
  cases c <;> unfold Portable <;> infer_instance

section Calls

variable {s : AppState InMemoryRepo} {s' : AppState (PostgresRepo db)} {q : Timed.Request config}
  {code : String}

/-- A text that is absent is not found in either store. -/
theorem missing_alike (h : isText code = true) :
    AppError.ofRepoError (missing (PostgresRepo db) code) = AppError.ofRepoError (missing InMemoryRepo code) := by
  have hpg : missing (PostgresRepo db) code = PostgresRepo.missingRow code := rfl
  rw [hpg, PostgresRepo.missingRow, if_pos h]
  rfl

theorem lookup_alike (h : StoresAlike (find s.repo) (find s'.repo)) (htext : isText code = true) :
    Outcome StatsAlike (Store.lookup (missing InMemoryRepo code) (find s.repo code))
      (Store.lookup (missing (PostgresRepo db) code) (find s'.repo code)) := by
  obtain ⟨hnone, hnone'⟩ | ⟨l, l', hl, hl', halike⟩ := h.cases code
  · rw [hnone, hnone']
    exact .error (missing_alike htext)
  · rw [hl, hl']
    exact .ok halike

/-- A new link is recorded alike. -/
theorem stored_alike {now : SystemTime} {link : ShortLink} (hc : Sent (.insert now link))
    (hclock : SameSecond db now) (hkeeps : ∀ e ∈ link.expiresAt, KeepsSecond now e) (r : InMemoryRepo)
    (r' : PostgresRepo db) : StatsAlike (storedLink r now link) (storedLink r' now link) := by
  obtain ⟨hcreated, hupdated, hversion⟩ := hc
  have hexpiry : (PostgresRepo.recorded db now link).expiresAt = link.expiresAt.map wholeSecs :=
    Option.map_congr (fun e he => expiresColumn_eq_iff.mpr (hkeeps e he))
  have hsecs : (PostgresRepo.recorded db now link).createdAt.secsSinceEpoch = now.secsSinceEpoch :=
    secsSinceEpoch_dbNow_iff.mpr hclock
  exact ⟨⟨rfl, rfl, hsecs.trans (by rw [← hcreated]; rfl), hsecs.trans (by rw [← hupdated]; rfl),
    hexpiry, hversion.symm⟩, rfl⟩

theorem insert_alike (h : AppAlike s s') {now : SystemTime} {link : ShortLink}
    (hc : Sent (.insert now link)) (hportable : Portable db q s (.insert now link)) :
    Outcome (fun _ _ => True) (AppState.exec (.insert now link) s).1 (AppState.exec (.insert now link) s').1 ∧
      AppAlike (AppState.exec (.insert now link) s).2 (AppState.exec (.insert now link) s').2 := by
  have hrefusal : LawfulLinkRepository.refusal (PostgresRepo db) link = none := hportable.1
  have hmemory : LawfulLinkRepository.refusal InMemoryRepo link = none := rfl
  obtain ⟨hnone, hnone'⟩ | ⟨l, l', hl, hl', _⟩ := h.links.cases link.code
  · rw [AppState.exec_insert_free now hmemory hnone, AppState.exec_insert_free now hrefusal hnone']
    refine ⟨.ok trivial, ?_, h.statsStorage, h.cache⟩
    simp only [find_inserted now hmemory hnone, find_inserted now hrefusal hnone']
    obtain ⟨hclock, hkeeps⟩ := hportable.2 hnone
    exact h.links.put (stored_alike hc hclock hkeeps _ _)
  · rw [AppState.exec_insert_taken now hmemory hl, AppState.exec_insert_taken now hrefusal hl']
    exact ⟨.error rfl, h⟩

theorem update_alike (h : AppAlike s s') {now : SystemTime} {url : String} {v : Int64}
    (hc : Sent (.update now code url v)) (hportable : Portable db q s (.update now code url v)) :
    Outcome LinkAlike (AppState.exec (.update now code url v) s).1 (AppState.exec (.update now code url v) s').1 ∧
      AppAlike (AppState.exec (.update now code url v) s).2 (AppState.exec (.update now code url v) s').2 := by
  obtain ⟨htext, hversion⟩ := hportable
  obtain ⟨hnone, hnone'⟩ | ⟨l, l', hl, hl', halike⟩ := h.links.cases code
  · simp only [AppState.exec, AppState.withRepo, LawfulLinkRepository.update_missing hnone,
      LawfulLinkRepository.update_missing hnone']
    have hurl : isText url = true := (Bool.and_eq_true_iff.mp hc).1
    have hmissing : LawfulLinkRepository.updateMissing (PostgresRepo db) code url = .notFound code :=
      if_pos ⟨hurl, htext⟩
    rw [hmissing]
    exact ⟨.error rfl, h⟩
  · obtain ⟨⟨hv, hmax⟩, hclock⟩ := hversion l hl
    have hv' : l'.link.version = v := halike.link.version.trans hv
    have hlast : PostgresRepo.exhausted l'.link.version = none := if_neg (by rw [hv']; exact hmax)
    obtain ⟨hok, hfind⟩ := @LawfulLinkRepository.update_found _ _ _ now _ url _ _ _ hl rfl (fun _ => hv) rfl
    obtain ⟨hok', hfind'⟩ :=
      @LawfulLinkRepository.update_found _ _ _ now _ url _ _ _ hl' hc (fun _ => hv') hlast
    have hlink : LinkAlike (l.link.updated now url) (l'.link.updated (PostgresRepo.dbNow db now) url) := {
      code := halike.link.code
      targetUrl := rfl
      createdAt := halike.link.createdAt
      updatedAt := secsSinceEpoch_dbNow_iff.mpr hclock
      expiresAt := halike.link.expiresAt
      version := congrArg (· + 1) halike.link.version }
    simp only [AppState.exec, AppState.withRepo]
    rw [hok, hok']
    refine ⟨.ok hlink, ?_, h.statsStorage, h.cache⟩
    simp only [hfind, hfind']
    exact h.links.put ⟨hlink, halike.hits⟩

/-- A call both stores can take is answered alike, and they stay alike. -/
theorem exec_alike (h : AppAlike s s') (c : Call) (hc : Sent c) (hportable : Portable db q s c) :
    Alike q c (AppState.exec c s).1 (AppState.exec c s').1 ∧
      AppAlike (AppState.exec c s).2 (AppState.exec c s').2 := by
  cases c with
  | insert now link => exact insert_alike h hc hportable
  | get code =>
      obtain ⟨htext, hclear⟩ := hportable
      rw [AppState.exec_get, AppState.exec_get]
      refine ⟨?_, h⟩
      obtain ⟨hnone, hnone'⟩ | ⟨l, l', hl, hl', halike⟩ := h.links.cases code
      · rw [hnone, hnone']
        exact .error (missing_alike htext)
      · rw [hl, hl']
        exact .ok ⟨halike.link, halike.link.isExpired_iff.mpr (hclear l hl)⟩
  | update now code url v => exact update_alike h hc hportable
  | remove code =>
      obtain ⟨hnone, hnone'⟩ | ⟨l, l', hl, hl', _⟩ := h.links.cases code
      · rw [AppState.exec_remove_of_absent hnone, AppState.exec_remove_of_absent hnone']
        exact ⟨.error (missing_alike hportable), h⟩
      · rw [AppState.exec_remove_of_find hl, AppState.exec_remove_of_find hl']
        refine ⟨.ok trivial, ?_, h.statsStorage, h.cache⟩
        simp only
        rw [(LawfulLinkRepository.remove_found hl).2, (LawfulLinkRepository.remove_found hl').2]
        exact h.links.drop
  | recordHit now code =>
      obtain ⟨hnone, hnone'⟩ | ⟨l, l', hl, hl', halike⟩ := h.links.cases code
      · simp only [AppState.exec, AppState.withRepo, LawfulLinkRepository.recordHit_missing hnone,
          LawfulLinkRepository.recordHit_missing hnone']
        exact ⟨.error (missing_alike hportable), h⟩
      · rw [AppState.exec_recordHit_of_find now hl, AppState.exec_recordHit_of_find now hl']
        refine ⟨.ok trivial, ?_, h.statsStorage, h.cache⟩
        simp only [(LawfulLinkRepository.recordHit_found hl).2, (LawfulLinkRepository.recordHit_found hl').2]
        exact h.links.put ⟨halike.link, congrArg (· + 1) halike.hits⟩
  | stats code =>
      rw [AppState.exec_stats, AppState.exec_stats]
      exact ⟨lookup_alike h.links hportable, h⟩
  | list now limit cursor => exact hportable.elim
  | cacheGet key =>
      have hget : AppState.exec (.cacheGet key) s' =
          ((s.cache.get key).1, { s' with cache := (s.cache.get key).2 }) := by
        rw [AppState.exec, h.cache]
        rfl
      rw [hget]
      exact ⟨rfl, h.links, h.statsStorage, rfl⟩
  | cacheSet key value => exact ⟨rfl, h.links, h.statsStorage, congrArg (·.set key value) h.cache⟩
  | cacheInvalidate key => exact ⟨rfl, h.links, h.statsStorage, congrArg (·.invalidate key) h.cache⟩
  | window code => exact ⟨congrArg (StatsStorage.get · code) h.statsStorage.symm, h⟩
  | top limit => exact ⟨congrArg (StatsStorage.getTop · limit) h.statsStorage.symm, h⟩

/-! ### what tells the two stores apart -/

/-- Only a text is not found in the table. -/
theorem isText_of_missing (h : AppAlike s s') (hmissing : find s.repo code = none →
    AppError.ofRepoError (missing (PostgresRepo db) code) = .notFound) : isText code = true := by
  obtain ⟨hnone, _⟩ | ⟨_, l', _, hl', _⟩ := h.links.cases code
  · by_contra htext
    have hrow : missing (PostgresRepo db) code = PostgresRepo.missingRow code := rfl
    have hcontra := hmissing hnone
    rw [hrow, PostgresRepo.missingRow, if_neg htext] at hcontra
    cases hcontra
  · obtain ⟨row, hrow, _⟩ := PostgresRepo.find_eq_some_iff.mp hl'
    exact PostgresRepo.isText_of_find? hrow

theorem find_none_of_alike (h : AppAlike s s') (hnone : find s.repo code = none) : find s'.repo code = none := by
  obtain ⟨_, hnone'⟩ | ⟨l, _, hl, _⟩ := h.links.cases code
  · exact hnone'
  · rw [hnone] at hl
    cases hl

theorem Outcome.of_ok {α : Type} {Q : α → α → Prop} {a : α} {x : Except RepoError α}
    (h : Outcome Q (.ok a) x) : ∃ b, x = .ok b ∧ Q a b := by
  cases h with
  | ok hab => exact ⟨_, rfl, hab⟩

/-- What is missing in the table as it is in memory is not found. -/
theorem ofRepoError_of_outcome {α : Type} {Q : α → α → Prop} {e e' : RepoError}
    (h : Outcome Q (.error e) (.error e')) : AppError.ofRepoError e' = AppError.ofRepoError e := by
  cases h with
  | error he => exact he

theorem portable_update (h : AppAlike s s') {now : SystemTime} {url : String} {v : Int64}
    (hc : Sent (.update now code url v))
    (hout : Outcome LinkAlike (AppState.exec (.update now code url v) s).1
      (AppState.exec (.update now code url v) s').1) : Portable db q s (.update now code url v) := by
  simp only [AppState.exec, AppState.withRepo] at hout
  obtain ⟨hnone, hnone'⟩ | ⟨l, l', hl, hl', halike⟩ := h.links.cases code
  · rw [LawfulLinkRepository.update_missing hnone, LawfulLinkRepository.update_missing hnone'] at hout
    have hmissing := ofRepoError_of_outcome hout
    have hrow : LawfulLinkRepository.updateMissing (PostgresRepo db) code url =
        PostgresRepo.updateMissing code url := rfl
    refine ⟨?_, fun l hl => ?_⟩
    · by_contra htext
      rw [hrow, PostgresRepo.updateMissing, if_neg (fun hboth => htext hboth.2)] at hmissing
      cases hmissing
    · rw [hnone] at hl
      cases hl
  · refine ⟨isText_of_missing h (fun hnone => ?_), fun k hk => ?_⟩
    · rw [hnone] at hl
      cases hl
    · rw [hl] at hk
      cases hk
      have hmemory := (@LawfulLinkRepository.update_found _ _ _ now _ url v _ _ hl rfl
        (fun hchecks => by cases hchecks) rfl).1
      rw [hmemory] at hout
      have hv : l.link.version = v := by
        by_contra hv
        have hconflict := @LawfulLinkRepository.update_conflict _ _ _ now _ _ _ _ _ hl' hc rfl
          (fun hsame => hv (halike.link.version.symm.trans hsame))
        rw [hconflict] at hout
        cases hout
      have hv' : l'.link.version = v := halike.link.version.trans hv
      cases hlast : PostgresRepo.exhausted l'.link.version with
      | some e =>
          have hexhausted := @LawfulLinkRepository.update_exhausted _ _ _ now _ _ _ _ _ _ hl' hc
            (fun _ => hv') hlast
          rw [hexhausted] at hout
          cases hout
      | none =>
          have hfound := (@LawfulLinkRepository.update_found _ _ _ now _ _ _ _ _ hl' hc (fun _ => hv') hlast).1
          rw [hfound] at hout
          obtain ⟨_, hsame, hlink⟩ := Outcome.of_ok hout
          cases hsame
          refine ⟨⟨hv, fun hmax => ?_⟩, secsSinceEpoch_dbNow_iff.mp hlink.updatedAt⟩
          rw [PostgresRepo.exhausted, if_pos (hv'.trans hmax)] at hlast
          cases hlast

theorem portable_insert (h : AppAlike s s') {now : SystemTime} {link : ShortLink}
    (hc : Sent (.insert now link))
    (hout : Outcome (fun _ _ => True) (AppState.exec (.insert now link) s).1 (AppState.exec (.insert now link) s').1)
    (hnext : AppAlike (AppState.exec (.insert now link) s).2 (AppState.exec (.insert now link) s').2) :
    Portable db q s (.insert now link) := by
  have hmemory : LawfulLinkRepository.refusal InMemoryRepo link = none := rfl
  have hadmitted : PostgresRepo.insertRefusal link = none := by
    cases hr : PostgresRepo.insertRefusal link with
    | none => rfl
    | some e =>
        have hrefusal : LawfulLinkRepository.refusal (PostgresRepo db) link = some e := hr
        rw [AppState.exec_insert_refused now hrefusal] at hout
        obtain ⟨hnone, _⟩ | ⟨l, _, hl, _⟩ := h.links.cases link.code
        · rw [AppState.exec_insert_free now hmemory hnone] at hout
          cases hout
        · rw [AppState.exec_insert_taken now hmemory hl] at hout
          cases hout with
          | error he =>
              -- a refusal is no collision
              have hne := fun message => LawfulLinkRepository.refusal_ne message hrefusal
              cases e <;> cases he
              exact absurd rfl (hne _)
  refine ⟨hadmitted, fun hnone => ?_⟩
  have hrefusal : LawfulLinkRepository.refusal (PostgresRepo db) link = none := hadmitted
  have hnone' := find_none_of_alike h hnone
  rw [AppState.exec_insert_free now hmemory hnone, AppState.exec_insert_free now hrefusal hnone'] at hnext
  have hstored := hnext.links link.code
  rw [find_inserted_self now hmemory hnone, find_inserted_self now hrefusal hnone', Option.rel_some_some] at hstored
  have hexpiry : link.expiresAt.map (PostgresRepo.expiresColumn now) = link.expiresAt.map wholeSecs :=
    hstored.link.expiresAt
  have hcreated : (PostgresRepo.dbNow db now).secsSinceEpoch = link.createdAt.secsSinceEpoch :=
    hstored.link.createdAt
  refine ⟨secsSinceEpoch_dbNow_iff.mp (by rw [hcreated, hc.1]), fun e he => ?_⟩
  rw [Option.mem_def.mp he] at hexpiry
  exact expiresColumn_eq_iff.mp (Option.some_inj.mp hexpiry)

/-- **Told apart**: the calls the handlers make, but for listings, are answered alike by the
two stores, which stay alike, exactly when they are portable. -/
theorem exec_alike_iff (h : AppAlike s s') (c : Call) (hc : Sent c)
    (hlist : ∀ now limit cursor, c ≠ .list now limit cursor) :
    (Alike q c (AppState.exec c s).1 (AppState.exec c s').1 ∧
      AppAlike (AppState.exec c s).2 (AppState.exec c s').2) ↔ Portable db q s c := by
  refine ⟨fun ⟨hout, hnext⟩ => ?_, exec_alike h c hc⟩
  cases c with
  | insert now link => exact portable_insert h hc hout hnext
  | get code =>
      rw [AppState.exec_get, AppState.exec_get] at hout
      refine ⟨isText_of_missing h (fun hnone => ?_), fun l hl => ?_⟩
      · rw [hnone, find_none_of_alike h hnone] at hout
        exact ofRepoError_of_outcome hout
      · obtain ⟨hnone, _⟩ | ⟨k, l', hk, hl', halike⟩ := h.links.cases code
        · rw [hnone] at hl
          cases hl
        · rw [hk] at hl
          cases hl
          rw [hk, hl'] at hout
          obtain ⟨_, hsame, _, hexp⟩ := Outcome.of_ok hout
          cases hsame
          exact halike.link.isExpired_iff.mp hexp
  | update now code url v => exact portable_update h hc hout
  | remove code =>
      refine isText_of_missing h (fun hnone => ?_)
      rw [AppState.exec_remove_of_absent hnone,
        AppState.exec_remove_of_absent (find_none_of_alike h hnone)] at hout
      exact ofRepoError_of_outcome hout
  | recordHit now code =>
      refine isText_of_missing h (fun hnone => ?_)
      simp only [AppState.exec, AppState.withRepo, LawfulLinkRepository.recordHit_missing hnone,
        LawfulLinkRepository.recordHit_missing (find_none_of_alike h hnone)] at hout
      exact ofRepoError_of_outcome hout
  | stats code =>
      refine isText_of_missing h (fun hnone => ?_)
      rw [AppState.exec_stats, AppState.exec_stats, hnone, find_none_of_alike h hnone] at hout
      exact ofRepoError_of_outcome hout
  | list now limit cursor => exact absurd rfl (hlist now limit cursor)
  | cacheGet key => trivial
  | cacheSet key value => trivial
  | cacheInvalidate key => trivial
  | window code => trivial
  | top limit => trivial

/-- New services are alike. -/
theorem appAlike_new : AppAlike ⟨InMemoryRepo.new, .new, .disabled⟩
    (⟨PostgresRepo.new, .new, .disabled⟩ : AppState (PostgresRepo db)) := ⟨fun _ => .none, rfl, rfl⟩

/-- One link, in memory ... -/
def promoInMemory : AppState InMemoryRepo :=
  (AppState.exec (.insert .UNIX_EPOCH RowCall.promoLink) ⟨InMemoryRepo.new, .new, .disabled⟩).2

/-- ... and in the table. -/
def promoInTable : AppState (PostgresRepo RowCall.plainDb) :=
  (AppState.exec (.insert .UNIX_EPOCH RowCall.promoLink) ⟨PostgresRepo.new, .new, .disabled⟩).2

/-- The client of the link. -/
def promoClient : Timed.Request ⟨8, 5⟩ := .grpc .UNIX_EPOCH .streamLinks

theorem appAlike_promo : AppAlike promoInMemory promoInTable := by
  have hsent : Sent (.insert .UNIX_EPOCH RowCall.promoLink) := ⟨rfl, rfl, rfl⟩
  have hportable : Portable RowCall.plainDb promoClient ⟨.new, .new, .disabled⟩
      (.insert .UNIX_EPOCH RowCall.promoLink) := by decide
  exact (exec_alike appAlike_new _ hsent hportable).2

/-- An update that names the version is answered alike, and one that names another is not. -/
theorem exec_alike_iff_promo :
    let named : Call := .update .UNIX_EPOCH "promo2026" "https://example.com/a" 1
    let stale : Call := .update .UNIX_EPOCH "promo2026" "https://example.com/a" 7
    ((Alike promoClient named (AppState.exec named promoInMemory).1 (AppState.exec named promoInTable).1 ∧
        AppAlike (AppState.exec named promoInMemory).2 (AppState.exec named promoInTable).2) ↔
      Portable RowCall.plainDb promoClient promoInMemory named) ∧
    ((Alike promoClient stale (AppState.exec stale promoInMemory).1 (AppState.exec stale promoInTable).1 ∧
        AppAlike (AppState.exec stale promoInMemory).2 (AppState.exec stale promoInTable).2) ↔
      Portable RowCall.plainDb promoClient promoInMemory stale) ∧
    Portable RowCall.plainDb promoClient promoInMemory named ∧
    ¬ Portable RowCall.plainDb promoClient promoInMemory stale :=
  ⟨exec_alike_iff appAlike_promo _ rfl (fun _ _ _ h => by cases h),
    exec_alike_iff appAlike_promo _ rfl (fun _ _ _ h => by cases h), by decide, by decide⟩

end Calls

/-! ## the handlers -/

section Handlers

open Handler

variable {q : Timed.Request config} {crates : Crates} {now : SystemTime}

/-- HTTP shows no more of an instant than its second. -/
theorem StatsAlike.shown {l l' : LinkStats} (h : StatsAlike l l') :
    LinkResponse.ofLinkStats l' = LinkResponse.ofLinkStats l := by
  have hexpiry : l'.link.expiresAt.map unixSecs = l.link.expiresAt.map unixSecs := by
    simp [h.link.expiresAt, show unixSecs = SystemTime.secsSinceEpoch from rfl, Function.comp_def]
  have hcreated : unixSecs l'.link.createdAt = unixSecs l.link.createdAt := h.link.createdAt
  simp only [LinkResponse.ofLinkStats, h.link.code, h.link.targetUrl, h.link.version, h.hits, hexpiry,
    hcreated]

theorem twin_ofRepo {α : Type} {Q : α → α → Prop} {x x' : Except RepoError α} (h : Outcome Q x x') :
    Twin Sent (Alike q) Q (Api.ofRepo x) (Api.ofRepo x') := by
  cases h with
  | ok hab => exact twin_pure hab
  | error he =>
      unfold Api.ofRepo Handler.ofExcept
      simp only [he]
      exact twin_throw _

theorem sent_newLink (url : String) (expiresAt : Option SystemTime) (code : String) :
    Sent (.insert now (Api.newLink now url expiresAt code)) := ⟨rfl, rfl, rfl⟩

theorem twin_tryCodes (url : String) (expiresAt : Option SystemTime) (codes : List String) :
    Twin Sent (Alike q) Eq (Api.tryCodes config now url expiresAt codes)
      (Api.tryCodes config now url expiresAt codes) := by
  induction codes with
  | nil => exact twin_throw _
  | cons code codes ih =>
      rw [Api.tryCodes, Api.tryInsertLink_eq]
      refine (twin_ask (sent_newLink url expiresAt code)).bind (fun out out' hout => ?_)
      cases (hout : Outcome _ out out') with
      | ok _ => exact twin_pure rfl
      | @error e e' he =>
          cases e <;> cases e' <;> cases he
          · exact ih
          all_goals exact twin_throw _

theorem twin_showCreated (code : String) :
    Twin Sent (Alike q) Eq (Api.showCreated code) (Api.showCreated code) := by
  refine (twin_ask (show Sent (.stats code) from trivial)).bind (fun out out' hout => ?_)
  refine (twin_ofRepo hout).bind (fun l l' hl => ?_)
  rw [hl.shown]
  exact twin_pure rfl

theorem twin_createLink (draw : Nat → Nanoid config.codeLength) (req : CreateLinkRequest) :
    Twin Sent (Alike q) Eq (Api.createLink config crates now draw req)
      (Api.createLink config crates now draw req) := by
  rw [Api.createLink_eq]
  cases Api.validateCreate crates now req with
  | error failure => exact twin_throw failure
  | ok checked =>
      refine Twin.bind (Q := Eq) ?_ (fun code code' hcode => hcode ▸ twin_showCreated code)
      cases req.customCode with
      | none => exact twin_tryCodes _ _ _
      | some code =>
          refine Twin.bind (Q := fun _ _ => True) ?_ (fun _ _ _ => twin_pure rfl)
          rw [Api.insertLink, Api.tryInsertLink_eq]
          exact (twin_ask (sent_newLink _ _ _)).bind (fun _ _ hout => twin_ofRepo hout)

/-- The HTTP handlers treat in one way what is alike. -/
theorem twin_handle (req : Api.Request config) (hnow : q.now = now) :
    Twin Sent (Alike q) Eq (Api.handle crates now req) (Api.handle crates now req) := by
  cases req with
  | createLink draw req => exact twin_createLink draw req
  | updateLink code req =>
      refine (twin_ofExcept _ _).bind (fun url url' hurl => ?_)
      subst hurl
      have hc : Sent (.update now code url.asStr req.version) :=
        Bool.and_eq_true_iff.mpr ⟨isText_asStr url, decide_eq_true url.nonempty⟩
      refine (twin_ask hc).bind (fun out out' hout => ?_)
      refine (twin_ofRepo hout).bind (fun l l' hl => ?_)
      refine (twin_ask (show Sent (.cacheInvalidate (linkKey code)) from trivial)).bind (fun _ _ _ => ?_)
      have halike : StatsAlike ⟨l, 0⟩ ⟨l', 0⟩ := ⟨hl, rfl⟩
      have hshown : LinkResponse.ofShortLink l' = LinkResponse.ofShortLink l := halike.shown
      exact twin_pure (by rw [hshown])
  | getLink code =>
      refine (twin_ask (show Sent (.cacheGet (linkKey code)) from trivial)).bind (fun found found' hfound => ?_)
      obtain rfl : found = found' := hfound
      cases (found : Option LinkResponse) with
      | some cached => exact twin_pure rfl
      | none =>
          refine (twin_ask (show Sent (.stats code) from trivial)).bind (fun out out' hout => ?_)
          refine (twin_ofRepo hout).bind (fun l l' hl => ?_)
          rw [hl.shown]
          refine (twin_ask (show Sent (.cacheSet (linkKey code) _) from trivial)).bind (fun _ _ _ => ?_)
          exact twin_pure rfl
  | listLinks limit cursor =>
      exact (twin_ask (show Sent (.list now _ _) from trivial)).bind (fun _ _ hout => hout.elim)
  | redirect code =>
      refine (twin_ask (show Sent (.get code) from trivial)).bind (fun out out' hout => ?_)
      refine (twin_ofRepo hout).bind (fun l l' ⟨hl, hexp⟩ => ?_)
      rw [hnow] at hexp
      simp only [hexp, hl.targetUrl]
      split
      · exact twin_throw _
      · refine (twin_ask (show Sent (.recordHit now code) from trivial)).bind (fun hits hits' hhits => ?_)
        refine (twin_ofRepo hhits).bind (fun _ _ _ => ?_)
        refine (twin_ask (show Sent (.cacheInvalidate (linkKey code)) from trivial)).bind (fun _ _ _ => ?_)
        exact twin_pure rfl
  | deleteLink code =>
      refine (twin_ask (show Sent (.remove code) from trivial)).bind (fun out out' hout => ?_)
      refine (twin_ofRepo hout).bind (fun _ _ _ => ?_)
      refine (twin_ask (show Sent (.cacheInvalidate (linkKey code)) from trivial)).bind (fun _ _ _ => ?_)
      exact twin_pure rfl
  | getLinkStats code =>
      refine (twin_ask (show Sent (.get code) from trivial)).bind (fun out out' hout => ?_)
      refine (twin_ofRepo hout).bind (fun l l' ⟨_, hexp⟩ => ?_)
      rw [hnow] at hexp
      simp only [hexp]
      split
      · exact twin_throw _
      · refine (twin_ask (show Sent (.window code) from trivial)).bind (fun stats stats' hstats => ?_)
        obtain rfl : stats = stats' := hstats
        exact twin_pure rfl
  | getTopStats limit =>
      refine (twin_ask (show Sent (.top (min limit 100)) from trivial)).bind (fun top top' htop => ?_)
      obtain rfl : top = top' := htop
      exact twin_pure rfl

/-! ### gRPC -/

/-- A timestamp without its fraction of a second. -/
def toSecond (t : Grpc.Timestamp) : Grpc.Timestamp := { t with nanos := 0 }

def linkToSecond (r : Grpc.GetLinkResponse) : Grpc.GetLinkResponse :=
  { r with
    createdAt := toSecond r.createdAt
    updatedAt := toSecond r.updatedAt
    expiresAt := r.expiresAt.map toSecond }

def createdToSecond (r : Grpc.CreateLinkResponse) : Grpc.CreateLinkResponse :=
  { r with
    createdAt := toSecond r.createdAt
    expiresAt := r.expiresAt.map toSecond }

/-- The events of a stream, the instants of their links to the second. -/
def eventsToSecond (es : List Grpc.LinkEvent) : List Grpc.LinkEvent :=
  es.map (fun e => { e with link := linkToSecond e.link })

/-- A reply with the instants of its links to the second. -/
def replyToSecond : Grpc.Reply → Grpc.Reply
  | .link r => .link (linkToSecond r)
  | .created r => .created (createdToSecond r)
  | .links r => .links { r with links := r.links.map linkToSecond }
  | .events es => .events (eventsToSecond es)

theorem toSecond_protobufTimestamp (t : SystemTime) :
    toSecond (Grpc.protobufTimestamp t) = ⟨t.secsSinceEpoch, 0⟩ := by
  unfold Grpc.protobufTimestamp
  split
  · rfl
  · rename_i h
    have hzero : t.secsSinceEpoch = 0 := by
      unfold SystemTime.secsSinceEpoch
      omega
    rw [hzero]
    rfl

theorem StatsAlike.replied {l l' : LinkStats} (h : StatsAlike l l') :
    linkToSecond (.ofLinkStats l') = linkToSecond (.ofLinkStats l) := by
  simp only [linkToSecond, Grpc.GetLinkResponse.ofLinkStats, toSecond_protobufTimestamp, Option.map_map,
    Function.comp_def, h.link.code, h.link.targetUrl, h.link.createdAt, h.link.updatedAt, h.link.expiresAt,
    h.link.version, h.hits, secsSinceEpoch_wholeSecs]

theorem StatsAlike.repliedCreated {l l' : LinkStats} (h : StatsAlike l l') :
    createdToSecond (.ofLinkStats l') = createdToSecond (.ofLinkStats l) := by
  simp only [createdToSecond, Grpc.CreateLinkResponse.ofLinkStats, toSecond_protobufTimestamp, Option.map_map,
    Function.comp_def, h.link.code, h.link.targetUrl, h.link.createdAt, h.link.expiresAt,
    h.link.version, secsSinceEpoch_wholeSecs]

theorem mapRepoError_eq {e e' : RepoError} (code : String)
    (h : AppError.ofRepoError e' = AppError.ofRepoError e) :
    Grpc.mapRepoError code e' = Grpc.mapRepoError code e := by
  cases e <;> cases e' <;> first | rfl | cases h

theorem twin_mapRepoError {α : Type} {Q : α → α → Prop} {x x' : Except RepoError α} (h : Outcome Q x x')
    (code : String) : Twin Sent (Alike q) Q (Handler.ofExcept (Grpc.mapRepoError code) x)
      (Handler.ofExcept (Grpc.mapRepoError code) x') := by
  cases h with
  | ok hab => exact twin_pure hab
  | error he =>
      unfold Handler.ofExcept
      simp only [mapRepoError_eq code he]
      exact twin_throw _

theorem twin_linkEvent (code : String) :
    Twin Sent (Alike q) (fun es es' => eventsToSecond es' = eventsToSecond es) (Grpc.linkEvent now code)
      (Grpc.linkEvent now code) := by
  refine (twin_ask (show Sent (.stats code) from trivial)).bind (fun out out' hout => ?_)
  cases (hout : Outcome _ out out') with
  | ok hl => exact twin_pure (by simp [eventsToSecond, hl.replied])
  | error he => exact twin_pure rfl

/-- The gRPC methods treat in one way, to the second, what is alike. -/
theorem twin_method (rpc : Grpc.Rpc) :
    Twin Sent (Alike q) (fun r r' => replyToSecond r' = replyToSecond r) (Grpc.method now rpc)
      (Grpc.method now rpc) := by
  cases rpc with
  | getLink req =>
      refine Twin.bind (Q := fun r r' => linkToSecond r' = linkToSecond r) ?_
        (fun r r' hr => twin_pure (congrArg Grpc.Reply.link hr))
      refine (twin_ask (show Sent (.stats req.code) from trivial)).bind (fun out out' hout => ?_)
      refine (twin_mapRepoError hout req.code).bind (fun l l' hl => ?_)
      exact twin_pure hl.replied
  | createLink generated req =>
      refine Twin.bind (Q := fun r r' => createdToSecond r' = createdToSecond r) ?_
        (fun r r' hr => twin_pure (congrArg Grpc.Reply.created hr))
      unfold Grpc.createLink
      split
      · exact twin_throw _
      · have hinsert : Sent (.insert now (.new now ((Grpc.customCode req).getD generated.code) req.targetUrl)) :=
          ⟨rfl, rfl, rfl⟩
        refine (twin_ask hinsert).bind (fun out out' hout => ?_)
        refine (twin_mapRepoError hout _).bind (fun _ _ _ => ?_)
        refine (twin_ask (show Sent (.stats _) from trivial)).bind (fun shown shown' hshown => ?_)
        refine (twin_mapRepoError hshown _).bind (fun l l' hl => ?_)
        exact twin_pure hl.repliedCreated
  | listLinks req =>
      refine Twin.bind (Q := Eq) ?_ (fun r r' hr => hr ▸ twin_pure rfl)
      exact (twin_ask (show Sent (.list now _ _) from trivial)).bind (fun _ _ hout => hout.elim)
  | streamLinks =>
      refine Twin.bind (Q := fun es es' => eventsToSecond es' = eventsToSecond es) ?_
        (fun es es' hes => twin_pure (congrArg Grpc.Reply.events hes))
      refine (twin_linkEvent _).bind (fun first first' hfirst => ?_)
      refine (twin_linkEvent _).bind (fun second second' hsecond => ?_)
      refine twin_pure ?_
      unfold eventsToSecond at hfirst hsecond ⊢
      simp only [List.map_append, hfirst, hsecond]

/-! ## the services -/

/-- Answers of the two services: HTTP to the letter, gRPC to the second. -/
def AnswerAlike : Timed.Answer → Timed.Answer → Prop
  | .http response, .http response' => response' = response
  | .grpc out, .grpc out' => Ends (fun r r' => replyToSecond r' = replyToSecond r) out out'
  | _, _ => False

theorem twin_program (crates : Crates) (q : Timed.Request config) :
    Proc.Twin Sent (Alike q) AnswerAlike (Timed.program crates q) (Timed.program crates q) := by
  cases q with
  | http a =>
      refine Proc.Twin.map (Q := Eq) (Proc.Twin.map (twin_handle a.req rfl) ?_) (fun r r' hr => hr.symm)
      intro out out' hout
      cases hout with
      | ok hr => rw [hr]
      | error failure => rfl
  | grpc now rpc => exact Proc.Twin.map (twin_method rpc) (fun _ _ hout => hout)

end Handlers

open Timed (PlainClients PlainEvent plainStep)

/-- What a move has to meet to be matched over the other store. -/
def PortableMove (db : Database) (p : PlainClients config InMemoryRepo) :
    Pool.Move (Timed.Request config) PlainEvent → Prop
  | .advance i => ∀ t ∈ p.tasks[i]?, ∀ c ∈ t.rest.call?, Portable db t.request p.state c
  | .env (.purge now) => ∀ e ∈ p.state.repo.inner.items, Clear now e.2.link
  | _ => True

instance (p : PlainClients config InMemoryRepo) (m : Pool.Move (Timed.Request config) PlainEvent) :
    Decidable (PortableMove db p m) := by
  unfold PortableMove
  split <;> infer_instance

/-- The two services, with the same requests in progress. -/
abbrev Services (p : PlainClients config InMemoryRepo) (p' : PlainClients config (PostgresRepo db)) : Prop :=
  Pool.Twins (fun _ => Sent) Alike (fun _ => AnswerAlike) AppAlike p p'

theorem services_step (crates : Crates) {p : PlainClients config InMemoryRepo}
    {p' : PlainClients config (PostgresRepo db)} (m : Pool.Move (Timed.Request config) PlainEvent)
    (h : Services p p') (hm : PortableMove db p m) : Services (plainStep crates p m) (plainStep crates p' m) := by
  cases m with
  | start q => exact h.start (twin_program crates q)
  | advance i =>
      refine h.advance i (fun t c k ht hrest hc => ?_)
      exact exec_alike h.state c hc (hm t ht c (by rw [hrest]; rfl))
  | env e =>
      refine h.elapsed ?_
      cases e with
      | purge now =>
          refine ⟨?_, h.state.statsStorage, h.state.cache⟩
          show StoresAlike (find (LinkRepository.purgeExpired now p.state.repo).2)
            (find (LinkRepository.purgeExpired now p'.state.repo).2)
          rw [LawfulLinkRepository.find_purgeExpired, LawfulLinkRepository.find_purgeExpired]
          refine h.state.links.purge (fun code l hl => ?_)
          have hget := InMemoryRepo.find_eq_some_iff.mp hl
          exact hm _ (Table.get?_eq_some_iff.mp hget)
      | expire key => exact ⟨h.state.links, h.state.statsStorage, congrArg (·.expire key) h.state.cache⟩

/-- The same requests have been made, those that are answered over one store are answered over
the other, and alike; and the stores hold the same links, to the second. -/
structure SameService (p : PlainClients config InMemoryRepo) (p' : PlainClients config (PostgresRepo db)) :
    Prop where
  answers : List.Forall₂ (fun t t' => t.request = t'.request ∧
    Option.Rel AnswerAlike t.rest.result? t'.rest.result?) p.tasks p'.tasks
  state : AppAlike p.state p'.state

/-- **Backends**: a schedule of requests of both transports, purges and cache expiries that
both stores can take is answered alike by both. -/
theorem sameService_reach (crates : Crates) {s : AppState InMemoryRepo} {s' : AppState (PostgresRepo db)}
    (hs : AppAlike s s') {moves : List (Pool.Move (Timed.Request config) PlainEvent)}
    (h : Run.Along (plainStep crates) (PortableMove db) (Pool.new s) moves) :
    SameService (Run.reach (plainStep crates) (Pool.new s) moves)
      (Run.reach (plainStep crates) (Pool.new s') moves) := by
  have hend : Services (Run.reach (plainStep crates) (Pool.new s) moves)
      (Run.reach (plainStep crates) (Pool.new s') moves) :=
    Run.reach_of_simulation Services (fun _ _ m hp hm => services_step crates m hp hm) (Pool.twins_new hs) h
  exact ⟨hend.result?, hend.state⟩

/-- Half a second past the epoch. -/
def halfPast : SystemTime := ⟨500000000, by omega⟩

/-- A link is created to live ninety seconds, followed while the client that has created it
waits, changed, kept by a purge and read over gRPC. -/
def visit : List (Pool.Move (Timed.Request ⟨1, 5⟩) PlainEvent) := [
  .start (.http ⟨halfPast, none, .createLink (fun _ => Api.letterA)
    ⟨"https://example.com/", some "promo2026", some 90⟩⟩),
  .advance 0,
  .start (.http ⟨halfPast, none, .redirect "promo2026"⟩), .advance 1, .advance 0, .advance 1, .advance 1,
  .start (.http ⟨halfPast, none, .updateLink "promo2026" ⟨"https://example.com/", 1⟩⟩), .advance 2, .advance 2,
  .env (.purge halfPast),
  .start (.grpc halfPast (.getLink ⟨"promo2026"⟩)), .advance 3]

/-- The visit is answered alike, and the link it ends with is at its second version. -/
theorem sameService_visit : SameService
      (Run.reach (plainStep Api.oneUrl) (Pool.new ⟨InMemoryRepo.new, .new, .disabled⟩) visit)
      (Run.reach (plainStep Api.oneUrl)
        (Pool.new (⟨PostgresRepo.new, .new, .disabled⟩ : AppState (PostgresRepo RowCall.plainDb))) visit) ∧
    ((Run.reach (plainStep Api.oneUrl) (Pool.new ⟨InMemoryRepo.new, .new, .disabled⟩) visit).tasks.map
      (fun t => t.rest.result?.isSome)) = [true, true, true, true] :=
  ⟨sameService_reach Api.oneUrl appAlike_new (by decide), by decide⟩

end Backends

end Shorty
