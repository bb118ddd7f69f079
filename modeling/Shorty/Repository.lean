import Mathlib.Logic.Function.Basic
import Shorty.InMemory
import Shorty.Postgres

/-!
# Shorty.Repository

What a link store is for: a partial map from codes to links with their hits,
`Store`.  `LawfulLinkRepository` says which store a repository stands for
(`find`) and what every method answers and does to it, errors included; both
repositories of the service are instances.  What they differ in is kept as data:
the texts a database refuses, its clock and the precision of its timestamps, and whether
an update looks at the version and how far it can count it on.
-/

namespace Shorty

/-- The links of a store by code, each with its hits. -/
abbrev Store := String → Option LinkStats

namespace Store

/-- The store with a link under its code. -/
def put (s : Store) (code : String) (l : LinkStats) : Store := Function.update s code (some l)

/-- The store without a code. -/
def drop (s : Store) (code : String) : Store := Function.update s code none

/-- The store without the links expired at `now`. -/
def purge (s : Store) (now : SystemTime) : Store :=
  fun code => (s code).filter (fun l => !l.link.isExpired now)

/-- The answer of a lookup. -/
def lookup (missing : RepoError) : Option LinkStats → Except RepoError LinkStats
  | some l => .ok l
  | none => .error missing

variable {s : Store} {code code' : String} {l : LinkStats}

@[simp] theorem put_self : s.put code l code = some l := Function.update_self ..

@[simp] theorem put_of_ne (h : code' ≠ code) : s.put code l code' = s code' :=
  Function.update_of_ne h ..

@[simp] theorem drop_self : s.drop code code = none := Function.update_self ..

@[simp] theorem drop_of_ne (h : code' ≠ code) : s.drop code code' = s code' :=
  Function.update_of_ne h ..

@[simp] theorem lookup_some (missing : RepoError) : lookup missing (some l) = .ok l := rfl

@[simp] theorem lookup_none (missing : RepoError) : lookup missing none = .error missing := rfl

end Store

/-- The link an update leaves behind; `stamp` is the time as the store keeps it. -/
def ShortLink.updated (stamp : SystemTime) (targetUrl : String) (link : ShortLink) : ShortLink :=
  { link with targetUrl := targetUrl, updatedAt := stamp, version := link.version + 1 }

/-- A repository that does what its trait promises. -/
class LawfulLinkRepository (R : Type) [LinkRepository R] where
  /-- The store a repository stands for. -/
  find : R → Store
  /-- What a lookup of an absent code answers. -/
  missing : String → RepoError
  /-- What an insert of a taken code answers. -/
  taken : String → RepoError
  /-- Why a link is refused whatever is stored, if it is. -/
  refusal : ShortLink → Option RepoError
  /-- A link as an insert at a given time records it, its identifier aside. -/
  recorded : SystemTime → ShortLink → ShortLink
  /-- The identifier a link is recorded with. -/
  newId : R → ShortLink → Option Uuid
  /-- The time of an update as it is recorded. -/
  stamp : SystemTime → SystemTime
  /-- Whether an update looks at the version. -/
  checksVersion : Bool
  /-- Why an update cannot count a version on, if it cannot. -/
  exhausted : Int64 → Option RepoError
  /-- Whether an update can store a target. -/
  admitsTarget : String → Bool
  /-- What an update of an absent code answers. -/
  updateMissing : String → String → RepoError
  code_of_find : ∀ {r code l}, find r code = some l → l.link.code = code
  missing_of_find : ∀ {r code l}, find r code = some l → missing code = .notFound code
  admitsTarget_of_isText : ∀ {url}, isText url = true → 0 < url.length → admitsTarget url = true
  updateMissing_of_find : ∀ {r code l url}, find r code = some l → admitsTarget url = true →
    updateMissing code url = .notFound code
  taken_eq : ∀ code, ∃ message, taken code = .codeTaken message
  refusal_ne : ∀ {link e} message, refusal link = some e → e ≠ .codeTaken message
  exhausted_eq : ∀ {v e}, exhausted v = some e → ∃ message, e = .internal message
  code_recorded : ∀ now link, (recorded now link).code = link.code
  targetUrl_recorded : ∀ now link, (recorded now link).targetUrl = link.targetUrl
  get_eq : ∀ code (r : R),
    LinkRepository.get code r = ((Store.lookup (missing code) (find r code)).map LinkStats.link, r)
  stats_eq : ∀ code (r : R),
    LinkRepository.stats code r = (Store.lookup (missing code) (find r code), r)
  insert_refused : ∀ {now link e} {r : R}, refusal link = some e →
    LinkRepository.insert now link r = (.error e, r)
  insert_taken : ∀ {now link l} {r : R}, refusal link = none → find r link.code = some l →
    LinkRepository.insert now link r = (.error (taken link.code), r)
  insert_free : ∀ {now link} {r : R}, refusal link = none → find r link.code = none →
    (LinkRepository.insert now link r).1 = .ok () ∧
      find (LinkRepository.insert now link r).2 =
        (find r).put link.code ⟨{ recorded now link with id := newId r link }, 0⟩
  update_missing : ∀ {now code url v} {r : R}, find r code = none →
    LinkRepository.update now code url v r = (.error (updateMissing code url), r)
  update_conflict : ∀ {now code url v l} {r : R}, find r code = some l → admitsTarget url = true →
    checksVersion = true → l.link.version ≠ v →
    LinkRepository.update now code url v r = (.error .versionConflict, r)
  update_exhausted : ∀ {now code url v l e} {r : R}, find r code = some l → admitsTarget url = true →
    (checksVersion = true → l.link.version = v) → exhausted l.link.version = some e →
    LinkRepository.update now code url v r = (.error e, r)
  update_found : ∀ {now code url v l} {r : R}, find r code = some l → admitsTarget url = true →
    (checksVersion = true → l.link.version = v) → exhausted l.link.version = none →
    (LinkRepository.update now code url v r).1 = .ok (l.link.updated (stamp now) url) ∧
      find (LinkRepository.update now code url v r).2 =
        (find r).put code { l with link := l.link.updated (stamp now) url }
  update_refused : ∀ {now code url v} {r : R}, admitsTarget url = false →
    ∃ e, LinkRepository.update now code url v r = (.error e, r)
  remove_missing : ∀ {code} {r : R}, find r code = none →
    LinkRepository.remove code r = (.error (missing code), r)
  remove_found : ∀ {code l} {r : R}, find r code = some l →
    (LinkRepository.remove code r).1 = .ok () ∧
      find (LinkRepository.remove code r).2 = (find r).drop code
  recordHit_missing : ∀ {now code} {r : R}, find r code = none →
    LinkRepository.recordHit now code r = (.error (missing code), r)
  recordHit_found : ∀ {now code l} {r : R}, find r code = some l →
    (LinkRepository.recordHit now code r).1 = .ok (l.hits + 1) ∧
      find (LinkRepository.recordHit now code r).2 =
        (find r).put code { l with hits := l.hits + 1 }
  find_purgeExpired : ∀ now (r : R),
    find (LinkRepository.purgeExpired now r).2 = (find r).purge now
  list_unchanged : ∀ now limit cursor (r : R), (LinkRepository.list now limit cursor r).2 = r

/-- An update fails and changes nothing, or changes the link it found. -/
theorem LawfulLinkRepository.update_cases {R : Type} [LinkRepository R] [LawfulLinkRepository R]
    (now : SystemTime) (code url : String) (v : Int64) (r : R) :
    (∃ e, LinkRepository.update now code url v r = (.error e, r)) ∨
    ∃ l, find r code = some l ∧
      (LinkRepository.update now code url v r).1 = .ok (l.link.updated (stamp R now) url) ∧
      find (LinkRepository.update now code url v r).2 =
        (find r).put code { l with link := l.link.updated (stamp R now) url } := by
  cases h : find r code with
  | none => exact Or.inl ⟨_, update_missing h⟩
  | some l =>
      cases ht : admitsTarget R url with
      | false => exact Or.inl (update_refused ht)
      | true =>
          by_cases hv : checksVersion R = true → l.link.version = v
          · cases hlast : exhausted R l.link.version with
            | some e => exact Or.inl ⟨e, update_exhausted h ht hv hlast⟩
            | none => exact Or.inr ⟨l, rfl, update_found h ht hv hlast⟩
          · rw [Classical.not_imp] at hv
            exact Or.inl ⟨_, update_conflict h ht hv.1 hv.2⟩

section Insert

variable {R : Type} [LinkRepository R] [LawfulLinkRepository R]

/-- The link an insert leaves in the store. -/
def storedLink (r : R) (now : SystemTime) (link : ShortLink) : LinkStats :=
  ⟨{ LawfulLinkRepository.recorded R now link with
      id := LawfulLinkRepository.newId r link }, 0⟩

/-- The repository after an insert. -/
def inserted (r : R) (now : SystemTime) (link : ShortLink) : R :=
  (LinkRepository.insert now link r).2

theorem find_inserted {r : R} {link : ShortLink} (now : SystemTime)
    (hr : LawfulLinkRepository.refusal R link = none)
    (h : LawfulLinkRepository.find r link.code = none) :
    LawfulLinkRepository.find (inserted r now link) =
      (LawfulLinkRepository.find r).put link.code (storedLink r now link) :=
  (LawfulLinkRepository.insert_free hr h).2

/-- An inserted link is found. -/
theorem find_inserted_self {r : R} {link : ShortLink} (now : SystemTime)
    (hr : LawfulLinkRepository.refusal R link = none)
    (h : LawfulLinkRepository.find r link.code = none) :
    LawfulLinkRepository.find (inserted r now link) link.code = some (storedLink r now link) := by
  rw [find_inserted now hr h]
  exact Store.put_self

end Insert

/-! ## the in-memory store -/

namespace InMemoryRepo

/-- The store the map stands for. -/
def find (r : InMemoryRepo) : Store := fun code => (r.inner.get? code).map LinkEntry.stats

variable {r : InMemoryRepo} {code : String} {l : LinkStats}

theorem find_eq_some_iff :
    r.find code = some l ↔ r.inner.get? code = some ⟨l.link, l.hits⟩ := by
  rw [find, Option.map_eq_some_iff]
  constructor
  · rintro ⟨e, he, rfl⟩
    exact he
  · intro h
    exact ⟨_, h, rfl⟩

theorem find_eq_none_iff : r.find code = none ↔ r.inner.get? code = none := Option.map_eq_none_iff

/-- A map that changed under one code stands for a store changed there. -/
theorem find_eq_put {r' : InMemoryRepo} {e : LinkEntry}
    (h : ∀ code', r'.inner.get? code' = if code' = code then some e else r.inner.get? code') :
    r'.find = r.find.put code e.stats := by
  funext code'
  by_cases hc : code' = code <;> simp [find, h, hc]

theorem find_eq_drop {r' : InMemoryRepo}
    (h : ∀ code', r'.inner.get? code' = if code' = code then none else r.inner.get? code') :
    r'.find = r.find.drop code := by
  funext code'
  by_cases hc : code' = code <;> simp [find, h, hc]

theorem find_purgeExpiredSync (r : InMemoryRepo) (now : SystemTime) :
    (r.purgeExpiredSync now).2.find = r.find.purge now := by
  funext code
  rw [find, get?_purgeExpiredSync, Store.purge, find]
  cases r.inner.get? code with
  | none => rfl
  | some e =>
      rw [Option.map_some, Option.filter_some, Option.filter_some]
      cases h : e.link.isExpired now with
      | true => simp [LinkEntry.stats, h]
      | false => simp [LinkEntry.stats, h]

end InMemoryRepo

/-- The in-memory store records a link as it is handed over and looks at no
version. -/
instance : LawfulLinkRepository InMemoryRepo where
  find := InMemoryRepo.find
  missing := .notFound
  taken := .codeTaken
  refusal _ := none
  recorded _ link := link
  newId _ link := link.id
  stamp now := now
  checksVersion := false
  exhausted _ := none
  admitsTarget _ := true
  updateMissing code _ := .notFound code
  code_of_find h := InMemoryRepo.code_of_get? (InMemoryRepo.find_eq_some_iff.mp h)
  missing_of_find _ := rfl
  admitsTarget_of_isText _ _ := rfl
  updateMissing_of_find _ _ := rfl
  taken_eq code := ⟨code, rfl⟩
  refusal_ne _ h := by cases h
  exhausted_eq h := by cases h
  code_recorded _ _ := rfl
  targetUrl_recorded _ _ := rfl
  get_eq code r := by
    cases h : r.inner.get? code <;>
      simp [LinkRepository.get, InMemoryRepo.getSync, InMemoryRepo.find, h, Except.map,
        LinkEntry.stats]
  stats_eq code r := by
    cases h : r.inner.get? code <;>
      simp [LinkRepository.stats, InMemoryRepo.statsSync, InMemoryRepo.find, h]
  insert_refused h := by cases h
  insert_taken _ h := InMemoryRepo.insertSync_of_taken (InMemoryRepo.find_eq_some_iff.mp h)
  insert_free {now link r} _ h := by
    obtain ⟨hres, _, hget⟩ :=
      InMemoryRepo.get?_insertSync link (InMemoryRepo.find_eq_none_iff.mp h)
    exact ⟨hres, InMemoryRepo.find_eq_put hget⟩
  update_missing h := InMemoryRepo.updateSync_of_none (InMemoryRepo.find_eq_none_iff.mp h)
  update_conflict _ _ h := by cases h
  update_exhausted _ _ _ h := by cases h
  update_found {now code url v l r} h _ _ _ := by
    obtain ⟨hres, _, hget⟩ := InMemoryRepo.get?_updateSync now url
      (InMemoryRepo.find_eq_some_iff.mp h)
    exact ⟨hres, InMemoryRepo.find_eq_put hget⟩
  update_refused h := by cases h
  remove_missing h := InMemoryRepo.removeSync_of_none (InMemoryRepo.find_eq_none_iff.mp h)
  remove_found h := by
    obtain ⟨hres, _, hget⟩ := InMemoryRepo.get?_removeSync (InMemoryRepo.find_eq_some_iff.mp h)
    exact ⟨hres, InMemoryRepo.find_eq_drop hget⟩
  recordHit_missing h := InMemoryRepo.recordHitSync_of_none (InMemoryRepo.find_eq_none_iff.mp h)
  recordHit_found {now code l r} h := by
    obtain ⟨hres, hget, _⟩ := InMemoryRepo.get?_recordHitSync now
      (InMemoryRepo.find_eq_some_iff.mp h)
    exact ⟨hres, InMemoryRepo.find_eq_put hget⟩
  find_purgeExpired now r := InMemoryRepo.find_purgeExpiredSync r now
  list_unchanged _ _ _ _ := rfl

/-! ## the PostgreSQL store -/

namespace PostgresRepo

variable {db : Database}

/-- The store the table stands for. -/
def find (r : PostgresRepo db) : Store := fun code => (r.links.find? code).map LinkRow.toLinkStats

/-- What a statement that names a code answers when no row has it. -/
def missingRow (code : String) : RepoError :=
  if isText code then .notFound code else mapSqlError .badEncoding

/-- Why `INSERT` refuses a link whatever the table holds. -/
def insertRefusal (link : ShortLink) : Option RepoError :=
  if isText link.code = true ∧ isText link.targetUrl = true then
    if passesChecks link.code link.targetUrl = true then none
    else some (mapSqlError .checkViolation)
  else some (mapSqlError .badEncoding)

/-- A link as `INSERT` records it, its identifier aside. -/
def recorded (db : Database) (now : SystemTime) (link : ShortLink) : ShortLink where
  id := none
  code := link.code
  targetUrl := link.targetUrl
  createdAt := dbNow db now
  updatedAt := dbNow db now
  expiresAt := link.expiresAt.map (expiresColumn now)
  version := 1

variable {r : PostgresRepo db} {now : SystemTime} {code url : String} {row : LinkRow} {v : Int64}

theorem find_eq_some_iff {l : LinkStats} :
    r.find code = some l ↔ ∃ row, r.links.find? code = some row ∧ row.toLinkStats = l :=
  Option.map_eq_some_iff

theorem find_eq_none_iff : r.find code = none ↔ r.links.find? code = none := Option.map_eq_none_iff

theorem isText_of_find? (h : r.links.find? code = some row) : isText code = true := by
  have htext := (r.wellFormed row (Keyed.mem_of_find? h)).text.1
  rwa [Keyed.key_of_find? h] at htext

theorem selectRow_of_find? (h : r.links.find? code = some row) :
    r.selectRow code = .ok (some row) := by
  rw [selectRow, if_pos (isText_of_find? h), h]

/-- A table that changed under one code stands for a store changed there. -/
theorem find_eq_put {r' : PostgresRepo db}
    (h : ∀ code', r'.links.find? code' = if code' = code then some row else r.links.find? code') :
    r'.find = r.find.put code row.toLinkStats := by
  funext code'
  by_cases hc : code' = code <;> simp [find, h, hc]

theorem lookup_find (r : PostgresRepo db) (code : String) :
    r.getStatsInternal code = Store.lookup (missingRow code) (r.find code) := by
  cases h : r.links.find? code with
  | some row =>
      rw [getStatsInternal, selectRow_of_find? h, find, h]
      rfl
  | none =>
      rw [getStatsInternal, selectRow, missingRow, find, h]
      cases isText code <;> rfl

theorem get_eq_map (r : PostgresRepo db) (code : String) :
    r.get code = (r.getStatsInternal code).map LinkStats.link := by
  rw [get, getStatsInternal]
  cases r.selectRow code with
  | error e => rfl
  | ok found => cases found <;> rfl

theorem insert_of_refusal {link : ShortLink} {e : RepoError} (h : insertRefusal link = some e) :
    r.insert now link = (.error e, r) := by
  rw [insertRefusal] at h
  rw [insert]
  by_cases ht : isText link.code = true ∧ isText link.targetUrl = true
  · rw [if_pos ht] at h
    rw [dif_pos ht]
    by_cases hc : passesChecks link.code link.targetUrl = true
    · rw [if_pos hc] at h
      cases h
    · rw [if_neg hc] at h
      cases h
      rw [dif_neg hc]
  · rw [if_neg ht] at h
    cases h
    rw [dif_neg ht]

theorem admitted_of_refusal {link : ShortLink} (h : insertRefusal link = none) :
    (isText link.code = true ∧ isText link.targetUrl = true) ∧
      passesChecks link.code link.targetUrl = true := by
  rw [insertRefusal] at h
  split at h
  · rename_i ht
    split at h
    · rename_i hc
      exact ⟨ht, hc⟩
    · cases h
  · cases h

theorem find?_insert {link : ShortLink} (now : SystemTime) (ha : insertRefusal link = none)
    (h : r.links.find? link.code = none) :
    (r.insert now link).1 = .ok () ∧ ∀ code', (r.insert now link).2.links.find? code' =
      if code' = link.code then some (r.insertedRow now link) else r.links.find? code' := by
  obtain ⟨ht, hc⟩ := admitted_of_refusal ha
  rw [insert, dif_pos ht, dif_pos hc, h]
  exact ⟨rfl, fun code' => Keyed.find?_put (r.insertedRow now link) r.links code'⟩

theorem insert_of_taken {link : ShortLink} (ha : insertRefusal link = none)
    (h : r.links.find? link.code = some row) :
    r.insert now link = (.error (.codeTaken "code already exists"), r) := by
  obtain ⟨ht, hc⟩ := admitted_of_refusal ha
  rw [insert, dif_pos ht, dif_pos hc, h]
  rfl

theorem find?_updateRow {f : LinkRow → LinkRow} {hcode : ∀ row, (f row).code = row.code}
    {hf : ∀ row, row.WellFormed → (f row).WellFormed} (h : r.links.find? code = some row)
    (code' : String) : (r.updateRow code f hcode hf).links.find? code' =
      if code' = code then some (f row) else r.links.find? code' := by
  rw [updateRow, Keyed.find?_modify]
  by_cases hc : code' = code <;> simp [hc, h]

/-- Whether `UPDATE` can store a target. -/
def admitsTarget (targetUrl : String) : Bool := isText targetUrl && decide (0 < targetUrl.length)

theorem find_eq_drop {r' : PostgresRepo db}
    (h : ∀ code', r'.links.find? code' = if code' = code then none else r.links.find? code') :
    r'.find = r.find.drop code := by
  funext code'
  by_cases hc : code' = code <;> simp [find, h, hc]

theorem find?_deleteWhere (p : LinkRow → Bool) (code : String) :
    (r.deleteWhere p).links.find? code = (r.links.find? code).filter (fun row => !p row) :=
  Keyed.find?_filter ..

/-- The condition of the purge is the expiry of the link: the column has no more
than microseconds. -/
theorem expiredRow_eq (now : SystemTime) (h : row.WellFormed) :
    expiredRow now row = row.toShortLink.isExpired now := by
  rw [expiredRow, ShortLink.isExpired, LinkRow.toShortLink]
  cases he : row.expiresAt with
  | none => rfl
  | some e =>
      have hmicros := h.expiresAt_micros e (by rw [he]; rfl)
      simp only [Option.any_some, decide_eq_decide]
      exact SystemTime.le_truncMicros_iff hmicros

/-- What an update of an absent code answers. -/
def updateMissing (code targetUrl : String) : RepoError :=
  if isText targetUrl = true ∧ isText code = true then .notFound code
  else mapSqlError .badEncoding

theorem update_of_none (h : r.links.find? code = none) :
    r.update now code url v = (.error (updateMissing code url), r) := by
  rw [update, updateWhereVersion, updateMissing]
  by_cases ht : isText url = true ∧ isText code = true
  · rw [dif_pos ht, if_pos ht, h]
    simp only [updateMissed, selectRow, ht.2, h]
    rfl
  · rw [dif_neg ht, if_neg ht]

theorem updateMissed_of_find? (h : r.links.find? code = some row) :
    r.updateMissed code = .error .versionConflict := by
  rw [updateMissed, selectRow_of_find? h]
  rfl

theorem update_of_stale (h : r.links.find? code = some row) (hu : isText url = true)
    (hv : row.version ≠ v) : r.update now code url v = (.error .versionConflict, r) := by
  rw [update, updateWhereVersion, dif_pos ⟨hu, isText_of_find? h⟩, h]
  simp only [if_neg hv]
  rw [updateMissed_of_find? h]

/-- Why `UPDATE` cannot count a version on. -/
def exhausted (version : Int64) : Option RepoError :=
  if version = Int64.maxValue then some (mapSqlError .outOfRange) else none

theorem find?_update (now : SystemTime) (h : r.links.find? code = some row) (hu : isText url = true)
    (hne : 0 < url.length) (hv : row.version = v) (hmax : row.version ≠ Int64.maxValue) :
    (r.update now code url v).1 = .ok (updatedRow db now url row).toShortLink ∧
      ∀ code', (r.update now code url v).2.links.find? code' =
        if code' = code then some (updatedRow db now url row) else r.links.find? code' := by
  rw [update, updateWhereVersion, dif_pos ⟨hu, isText_of_find? h⟩, h]
  simp only [if_pos hv, if_neg hmax, dif_pos hne]
  exact ⟨trivial, find?_updateRow h⟩

theorem update_of_exhausted (h : r.links.find? code = some row) (hu : isText url = true)
    (hv : row.version = v) (hmax : row.version = Int64.maxValue) :
    r.update now code url v = (.error (mapSqlError .outOfRange), r) := by
  rw [update, updateWhereVersion, dif_pos ⟨hu, isText_of_find? h⟩, h]
  simp only [if_pos hv, if_pos hmax]

theorem update_of_not_admitsTarget (hu : admitsTarget url = false) :
    ∃ e, r.update now code url v = (.error e, r) := by
  cases h : r.links.find? code with
  | none => exact ⟨_, update_of_none h⟩
  | some row =>
      cases ht : isText url with
      | false =>
          have hnot : ¬ (isText url = true ∧ isText code = true) := by simp [ht]
          rw [update, updateWhereVersion, dif_neg hnot]
          exact ⟨_, rfl⟩
      | true =>
          have hempty : ¬ 0 < url.length := by simpa [admitsTarget, ht] using hu
          by_cases hv : row.version = v
          · by_cases hmax : row.version = Int64.maxValue
            · exact ⟨_, update_of_exhausted h ht hv hmax⟩
            · rw [update, updateWhereVersion, dif_pos ⟨ht, isText_of_find? h⟩, h]
              simp only [if_pos hv, if_neg hmax, dif_neg hempty]
              exact ⟨_, rfl⟩
          · exact ⟨_, update_of_stale h ht hv⟩

theorem remove_of_none (h : r.links.find? code = none) :
    r.remove code = (.error (missingRow code), r) := by
  rw [remove, selectRow, missingRow, h]
  cases isText code <;> rfl

theorem find?_remove (h : r.links.find? code = some row) :
    (r.remove code).1 = .ok () ∧ ∀ code', (r.remove code).2.links.find? code' =
      if code' = code then none else r.links.find? code' := by
  rw [remove, selectRow_of_find? h]
  refine ⟨rfl, fun code' => ?_⟩
  rw [find?_deleteWhere]
  cases h' : r.links.find? code' with
  | none => simp
  | some row' =>
      have hkey := Keyed.key_of_find? h'
      by_cases hc : code' = code <;> simp [Option.filter, hkey, hc]

theorem recordHit_of_none (h : r.links.find? code = none) :
    r.recordHit code = (.error (missingRow code), r) := by
  rw [recordHit, selectRow, missingRow, h]
  cases isText code <;> rfl

theorem find?_recordHit (h : r.links.find? code = some row) :
    (r.recordHit code).1 = .ok (row.hits + 1) ∧
      ∀ code', (r.recordHit code).2.links.find? code' =
        if code' = code then some (hitRow row) else r.links.find? code' := by
  rw [recordHit, selectRow_of_find? h]
  dsimp only
  exact ⟨rfl, find?_updateRow h⟩

theorem find_purgeExpired (r : PostgresRepo db) (now : SystemTime) :
    (r.purgeExpired now none).2.find = r.find.purge now := by
  funext code
  rw [find, purgeExpired, deleteExpired]
  dsimp only
  rw [find?_deleteWhere, Store.purge, find]
  cases h : r.links.find? code with
  | none => rfl
  | some row =>
      have hexp := expiredRow_eq now (r.wellFormed row (Keyed.mem_of_find? h))
      simp only [Option.filter_some, Option.map_some, LinkRow.toLinkStats, ← hexp]
      cases expiredRow now row <;> rfl

end PostgresRepo

/-- The PostgreSQL store refuses what the table's constraints refuse, keeps the
microseconds of its own clock and checks versions. -/
instance (db : Database) : LawfulLinkRepository (PostgresRepo db) where
  find := PostgresRepo.find
  missing := PostgresRepo.missingRow
  taken _ := .codeTaken "code already exists"
  refusal := PostgresRepo.insertRefusal
  recorded := PostgresRepo.recorded db
  newId r _ := some r.nextId
  stamp := PostgresRepo.dbNow db
  checksVersion := true
  exhausted := PostgresRepo.exhausted
  admitsTarget := PostgresRepo.admitsTarget
  updateMissing := PostgresRepo.updateMissing
  code_of_find {r code l} h := by
    obtain ⟨row, hrow, rfl⟩ := PostgresRepo.find_eq_some_iff.mp h
    have hcode : row.code = code := Keyed.key_of_find? hrow
    exact hcode
  missing_of_find h := by
    obtain ⟨row, hrow, _⟩ := PostgresRepo.find_eq_some_iff.mp h
    rw [PostgresRepo.missingRow, if_pos (PostgresRepo.isText_of_find? hrow)]
  admitsTarget_of_isText ht hne := Bool.and_eq_true_iff.mpr ⟨ht, decide_eq_true hne⟩
  updateMissing_of_find h hu := by
    obtain ⟨row, hrow, _⟩ := PostgresRepo.find_eq_some_iff.mp h
    have ht := (Bool.and_eq_true_iff.mp hu).1
    rw [PostgresRepo.updateMissing, if_pos ⟨ht, PostgresRepo.isText_of_find? hrow⟩]
  taken_eq _ := ⟨_, rfl⟩
  refusal_ne {link e} message h := by
    have hcheck : mapSqlError .checkViolation ≠ .codeTaken message := by
      rintro heq
      cases heq
    have hencoding : mapSqlError .badEncoding ≠ .codeTaken message := by
      rintro heq
      cases heq
    rw [PostgresRepo.insertRefusal] at h
    split at h
    · split at h
      · cases h
      · cases h
        exact hcheck
    · cases h
      exact hencoding
  exhausted_eq h := by
    obtain ⟨_, he⟩ := Option.ite_none_right_eq_some.mp h
    exact ⟨_, (Option.some.inj he).symm⟩
  code_recorded _ _ := rfl
  targetUrl_recorded _ _ := rfl
  get_eq code r := Prod.ext
    ((PostgresRepo.get_eq_map r code).trans (by rw [PostgresRepo.lookup_find])) rfl
  stats_eq code r := Prod.ext (PostgresRepo.lookup_find r code) rfl
  insert_refused h := PostgresRepo.insert_of_refusal h
  insert_taken ha h := by
    obtain ⟨row, hrow, _⟩ := PostgresRepo.find_eq_some_iff.mp h
    exact PostgresRepo.insert_of_taken ha hrow
  insert_free {now link r} ha h := by
    obtain ⟨hres, hfind⟩ :=
      PostgresRepo.find?_insert now ha (PostgresRepo.find_eq_none_iff.mp h)
    exact ⟨hres, PostgresRepo.find_eq_put hfind⟩
  update_missing h := PostgresRepo.update_of_none (PostgresRepo.find_eq_none_iff.mp h)
  update_conflict h hu _ hv := by
    obtain ⟨row, hrow, rfl⟩ := PostgresRepo.find_eq_some_iff.mp h
    exact PostgresRepo.update_of_stale hrow (Bool.and_eq_true_iff.mp hu).1 hv
  update_exhausted h hu hv hlast := by
    obtain ⟨row, hrow, rfl⟩ := PostgresRepo.find_eq_some_iff.mp h
    obtain ⟨hmax, he⟩ := Option.ite_none_right_eq_some.mp hlast
    rw [← Option.some.inj he]
    exact PostgresRepo.update_of_exhausted hrow (Bool.and_eq_true_iff.mp hu).1 (hv rfl) hmax
  update_found {now code url v l r} h hu hv hlast := by
    obtain ⟨row, hrow, rfl⟩ := PostgresRepo.find_eq_some_iff.mp h
    obtain ⟨ht, hne⟩ := Bool.and_eq_true_iff.mp hu
    have hmax : row.version ≠ Int64.maxValue := fun hmax => by
      simp [PostgresRepo.exhausted, LinkRow.toLinkStats, LinkRow.toShortLink, hmax] at hlast
    obtain ⟨hres, hfind⟩ := PostgresRepo.find?_update now hrow ht
      (of_decide_eq_true hne) (hv rfl) hmax
    exact ⟨hres, PostgresRepo.find_eq_put hfind⟩
  update_refused hu := PostgresRepo.update_of_not_admitsTarget hu
  remove_missing h := PostgresRepo.remove_of_none (PostgresRepo.find_eq_none_iff.mp h)
  remove_found h := by
    obtain ⟨row, hrow, _⟩ := PostgresRepo.find_eq_some_iff.mp h
    obtain ⟨hres, hfind⟩ := PostgresRepo.find?_remove hrow
    exact ⟨hres, PostgresRepo.find_eq_drop hfind⟩
  recordHit_missing h := PostgresRepo.recordHit_of_none (PostgresRepo.find_eq_none_iff.mp h)
  recordHit_found h := by
    obtain ⟨row, hrow, rfl⟩ := PostgresRepo.find_eq_some_iff.mp h
    obtain ⟨hres, hfind⟩ := PostgresRepo.find?_recordHit hrow
    exact ⟨hres, PostgresRepo.find_eq_put hfind⟩
  find_purgeExpired now r := PostgresRepo.find_purgeExpired r now
  list_unchanged _ _ _ _ := rfl

end Shorty
