import Mathlib.Data.Prod.Lex
import Mathlib.Data.String.Basic
import Shorty.Lib.Paging
import Shorty.Domain
import Shorty.Stats

/-!
# Shorty.InMemory

The in-memory link store (`crates/storage/src/in_memory.rs`): a hash map from
codes to entries next to a statistics storage of its own.  Every method holds
the map's lock for its whole effect, so a method is one state transition.

The map is only ever filled under `link.code`, and no method changes the code
of a stored link; the field `keyed` carries that.
-/

namespace Shorty

/-- A stored link and its redirect counter. -/
structure LinkEntry where
  link : ShortLink
  hits : Nat
deriving DecidableEq

namespace LinkEntry

def new (link : ShortLink) : LinkEntry := ⟨link, 0⟩

def stats (e : LinkEntry) : LinkStats := ⟨e.link, e.hits⟩

end LinkEntry

/-- The in-memory store. -/
structure InMemoryRepo where
  inner : Table String LinkEntry
  stats : StatsStorage
  /-- Entries are stored under the code of their link. -/
  keyed : ∀ p ∈ inner.items, p.2.link.code = p.1

/-- What a listing is ordered by, descending: creation time, then code. -/
def ShortLink.listKey (link : ShortLink) : SystemTime ×ₗ String := toLex (link.createdAt, link.code)

/-- The first component of a listing cursor: whole seconds, in decimal. -/
def ShortLink.cursorTs (link : ShortLink) : String := toString link.createdAt.secsSinceEpoch

/-- Whether a listing cursor names this link. -/
def ShortLink.named (cursor : String × String) (link : ShortLink) : Bool :=
  link.cursorTs = cursor.1 ∧ link.code = cursor.2

namespace InMemoryRepo

def new : InMemoryRepo := ⟨Keyed.empty, .new, by simp [Keyed.empty]⟩

def insertSync (r : InMemoryRepo) (link : ShortLink) : Except RepoError Unit × InMemoryRepo :=
  match r.inner.get? link.code with
  | some _ => (.error (.codeTaken link.code), r)
  | none =>
      (.ok (),
        { r with
          inner := r.inner.set link.code (.new link)
          keyed := fun p hp => by
            rcases Keyed.mem_put hp with rfl | hp
            · rfl
            · exact r.keyed p hp })

def getSync (r : InMemoryRepo) (code : String) : Except RepoError ShortLink :=
  match r.inner.get? code with
  | some e => .ok e.link
  | none => .error (.notFound code)

def removeSync (r : InMemoryRepo) (code : String) : Except RepoError Unit × InMemoryRepo :=
  match r.inner.get? code with
  | some _ =>
      (.ok (),
        { r with
          inner := r.inner.erase code
          keyed := fun p hp => r.keyed p (Keyed.mem_erase.mp hp).1 })
  | none => (.error (.notFound code), r)

/-- Change the entry of a code, its link's code aside. -/
def alterEntry (r : InMemoryRepo) (code : String) (f : LinkEntry → LinkEntry)
    (hf : ∀ e, (f e).link.code = e.link.code) : InMemoryRepo :=
  { r with
    inner := r.inner.alter code f
    keyed := fun p hp => by
      rcases Keyed.mem_modify hp with hp | ⟨q, hq, _, rfl⟩
      · exact r.keyed p hp
      · exact (hf q.2).trans (r.keyed q hq) }

/-- Count a hit on the entry and in the statistics of its code. -/
def recordHitSync (r : InMemoryRepo) (now : SystemTime) (code : String) :
    Except RepoError Nat × InMemoryRepo :=
  match r.inner.get? code with
  | none => (.error (.notFound code), r)
  | some e =>
      let r' := r.alterEntry code (fun e => { e with hits := e.hits + 1 }) (fun _ => rfl)
      (.ok (e.hits + 1),
        { r' with stats := (r.stats.getOrCreate code).write code (·.recordHit now) })

/-- The link an update leaves behind.  The version is counted on as a release build does
it, around from the last `i64` to the first. -/
def updatedLink (now : SystemTime) (targetUrl : String) (link : ShortLink) : ShortLink :=
  { link with targetUrl := targetUrl, updatedAt := now, version := link.version + 1 }

def updateSync (r : InMemoryRepo) (now : SystemTime) (code targetUrl : String) :
    Except RepoError ShortLink × InMemoryRepo :=
  match r.inner.get? code with
  | none => (.error (.notFound code), r)
  | some e =>
      (.ok (updatedLink now targetUrl e.link),
        r.alterEntry code (fun e => { e with link := updatedLink now targetUrl e.link })
          (fun _ => rfl))

/-- All links, in the iteration order of the map. -/
def links (r : InMemoryRepo) : List ShortLink := r.inner.items.map (fun p => p.2.link)

/-- The listing position a cursor resumes at: after the link it names, and at
the front when no stored link has that second and code. -/
def listStart (entries : List ShortLink) : Option (String × String) → Nat
  | some cursor => ((entries.findIdx? (·.named cursor)).map (· + 1)).getD 0
  | none => 0

/-- A page of the listing and the cursor of the next, `none` where computing the
page's end overflows the machine word and the thread panics. -/
def listSync (r : InMemoryRepo) (limit : Nat) (cursor : Option (String × String)) :
    Option ListPage :=
  let entries := Paging.descending ShortLink.listKey r.links
  let start := listStart entries cursor
  if start + limit < 2 ^ 64 then
    let stop := min (start + limit) entries.length
    let page := (entries.drop start).take (stop - start)
    some (page, page.getLast?.map (fun link => (link.cursorTs, link.code)))
  else none

def statsSync (r : InMemoryRepo) (code : String) : Except RepoError LinkStats :=
  match r.inner.get? code with
  | some e => .ok e.stats
  | none => .error (.notFound code)

/-- Drop a code from the map and from the statistics. -/
def dropCode (r : InMemoryRepo) (code : String) : InMemoryRepo where
  inner := r.inner.erase code
  stats := r.stats.remove code
  keyed := fun p hp => r.keyed p (Keyed.mem_erase.mp hp).1

/-- The codes whose links are expired at `now`, in iteration order. -/
def expiredCodes (r : InMemoryRepo) (now : SystemTime) : List String :=
  (r.inner.items.filter (fun p => p.2.link.isExpired now)).map Prod.fst

def purgeExpiredSync (r : InMemoryRepo) (now : SystemTime) : Nat × InMemoryRepo :=
  let before := r.inner.size
  let r' := (r.expiredCodes now).foldl dropCode r
  (before - r'.inner.size, r')

end InMemoryRepo

/-- The store behind the trait.  The trait's `update` is handed a version and
does not pass it on. -/
instance : LinkRepository InMemoryRepo where
  insert _ link r := r.insertSync link
  get code r := (r.getSync code, r)
  update now code targetUrl _version r := r.updateSync now code targetUrl
  remove code r := r.removeSync code
  recordHit now code r := r.recordHitSync now code
  stats code r := (r.statsSync code, r)
  list _ limit cursor r := ((r.listSync limit cursor).map .ok, r)
  purgeExpired now r := r.purgeExpiredSync now

namespace InMemoryRepo

/-! ## what the methods do to the map -/

variable {r : InMemoryRepo} {now : SystemTime} {code code' url : String} {e : LinkEntry}

theorem code_of_get? (h : r.inner.get? code = some e) : e.link.code = code :=
  r.keyed _ (Table.get?_eq_some_iff.mp h)

theorem get?_insertSync (link : ShortLink) (h : r.inner.get? link.code = none) :
    (r.insertSync link).1 = .ok () ∧ (r.insertSync link).2.stats = r.stats ∧
      ∀ code', (r.insertSync link).2.inner.get? code' =
        if code' = link.code then some (.new link) else r.inner.get? code' := by
  simp [insertSync, h, Table.get?_set]

theorem insertSync_of_taken {link : ShortLink} (h : r.inner.get? link.code = some e) :
    r.insertSync link = (.error (.codeTaken link.code), r) := by
  simp [insertSync, h]

theorem removeSync_of_none (h : r.inner.get? code = none) :
    r.removeSync code = (.error (.notFound code), r) := by
  simp [removeSync, h]

theorem get?_removeSync (h : r.inner.get? code = some e) :
    (r.removeSync code).1 = .ok () ∧ (r.removeSync code).2.stats = r.stats ∧
      ∀ code', (r.removeSync code).2.inner.get? code' =
        if code' = code then none else r.inner.get? code' := by
  simp [removeSync, h, Table.get?_erase]

theorem recordHitSync_of_none (h : r.inner.get? code = none) :
    r.recordHitSync now code = (.error (.notFound code), r) := by
  simp [recordHitSync, h]

theorem get?_recordHitSync (now : SystemTime) (h : r.inner.get? code = some e) :
    (r.recordHitSync now code).1 = .ok (e.hits + 1) ∧
      (∀ code', (r.recordHitSync now code).2.inner.get? code' =
        if code' = code then some { e with hits := e.hits + 1 } else r.inner.get? code') ∧
      ∀ code', (r.recordHitSync now code).2.stats.get code' =
        if code' = code then some (((r.stats.get code).getD .new).recordHit now)
        else r.stats.get code' := by
  refine ⟨by simp [recordHitSync, h], ?_, ?_⟩
  · intro code'
    simp only [recordHitSync, h, alterEntry, Table.get?_alter]
    by_cases hc : code' = code
    · simp [hc, h]
    · simp [hc]
  · intro code'
    simp only [recordHitSync, h, StatsStorage.get_write, StatsStorage.get_getOrCreate]
    by_cases hc : code' = code
    · simp [hc]
    · simp [hc]

theorem updateSync_of_none (h : r.inner.get? code = none) :
    r.updateSync now code url = (.error (.notFound code), r) := by
  simp [updateSync, h]

theorem get?_updateSync (now : SystemTime) (url : String) (h : r.inner.get? code = some e) :
    (r.updateSync now code url).1 = .ok (updatedLink now url e.link) ∧
      (r.updateSync now code url).2.stats = r.stats ∧
      ∀ code', (r.updateSync now code url).2.inner.get? code' =
        if code' = code then some { e with link := updatedLink now url e.link }
        else r.inner.get? code' := by
  refine ⟨by simp [updateSync, h], by simp [updateSync, h, alterEntry], ?_⟩
  intro code'
  simp only [updateSync, h, alterEntry, Table.get?_alter]
  by_cases hc : code' = code
  · simp [hc, h]
  · simp [hc]

/-! ## what a purge does -/

theorem get?_foldl_dropCode (codes : List String) (r : InMemoryRepo) (code : String) :
    (codes.foldl dropCode r).inner.get? code =
      if code ∈ codes then none else r.inner.get? code := by
  induction codes generalizing r with
  | nil => simp
  | cons c codes ih =>
      rw [List.foldl_cons, ih, dropCode, Table.get?_erase]
      by_cases h : code ∈ codes
      · simp [h]
      · by_cases hc : code = c <;> simp [h, hc]

theorem stats_get_foldl_dropCode (codes : List String) (r : InMemoryRepo) (code : String) :
    (codes.foldl dropCode r).stats.get code =
      if code ∈ codes then none else r.stats.get code := by
  induction codes generalizing r with
  | nil => simp
  | cons c codes ih =>
      rw [List.foldl_cons, ih, dropCode, StatsStorage.get_remove]
      by_cases h : code ∈ codes
      · simp [h]
      · by_cases hc : code = c <;> simp [h, hc]

theorem mem_expiredCodes :
    code ∈ r.expiredCodes now ↔ ∃ e, r.inner.get? code = some e ∧ e.link.isExpired now = true := by
  simp only [expiredCodes, List.mem_map, List.mem_filter]
  constructor
  · rintro ⟨⟨c, e⟩, ⟨hmem, hexp⟩, rfl⟩
    exact ⟨e, Table.get?_eq_some_iff.mpr hmem, hexp⟩
  · rintro ⟨e, he, hexp⟩
    exact ⟨(code, e), ⟨Table.get?_eq_some_iff.mp he, hexp⟩, rfl⟩

/-- A purge drops exactly the entries whose links are expired. -/
theorem get?_purgeExpiredSync (r : InMemoryRepo) (now : SystemTime) (code : String) :
    (r.purgeExpiredSync now).2.inner.get? code =
      (r.inner.get? code).filter (fun e => !e.link.isExpired now) := by
  rw [purgeExpiredSync, get?_foldl_dropCode]
  cases he : r.inner.get? code with
  | none => simp
  | some e =>
      have hmem : code ∈ r.expiredCodes now ↔ e.link.isExpired now = true := by
        rw [mem_expiredCodes, he]
        simp
      by_cases hexp : e.link.isExpired now = true
      · simp [hmem, hexp, Option.filter]
      · simp [hmem, hexp, Option.filter]

/-- A purge drops the statistics of the codes it drops. -/
theorem stats_get_purgeExpiredSync (r : InMemoryRepo) (now : SystemTime) (code : String) :
    (r.purgeExpiredSync now).2.stats.get code =
      if code ∈ r.expiredCodes now then none else r.stats.get code := by
  rw [purgeExpiredSync, stats_get_foldl_dropCode]

end InMemoryRepo

/-! ## calls -/

/-- A call that changes the in-memory store. -/
inductive RepoOp where
  | insert (link : ShortLink)
  | update (now : SystemTime) (code targetUrl : String)
  | recordHit (now : SystemTime) (code : String)
  | remove (code : String)
  | purgeExpired (now : SystemTime)

namespace InMemoryRepo

/-- The store after a call. -/
def apply (r : InMemoryRepo) : RepoOp → InMemoryRepo
  | .insert link => (r.insertSync link).2
  | .update now code targetUrl => (r.updateSync now code targetUrl).2
  | .recordHit now code => (r.recordHitSync now code).2
  | .remove code => (r.removeSync code).2
  | .purgeExpired now => (r.purgeExpiredSync now).2

/-- What a call can do to the entry of one code. -/
inductive EntryChange (code : String) : Option LinkEntry → Option LinkEntry → Prop where
  | same (e : Option LinkEntry) : EntryChange code e e
  | stored (link : ShortLink) (h : link.code = code) : EntryChange code none (some (.new link))
  | updated (e : LinkEntry) (now : SystemTime) (targetUrl : String) :
      EntryChange code (some e) (some { e with link := updatedLink now targetUrl e.link })
  | hit (e : LinkEntry) : EntryChange code (some e) (some { e with hits := e.hits + 1 })
  | dropped (e : LinkEntry) : EntryChange code (some e) none

/-- A command that writes the entry of one code changes the entries as it changes that one. -/
theorem entryChange_of_written {r : InMemoryRepo} {c : String} {e' : Option LinkEntry}
    (h : EntryChange c (r.inner.get? c) e') (code : String) :
    EntryChange code (r.inner.get? code) (if code = c then e' else r.inner.get? code) := by
  by_cases hc : code = c
  · rw [if_pos hc, hc]
    exact h
  · rw [if_neg hc]
    exact .same _

theorem entryChange_apply (r : InMemoryRepo) (op : RepoOp) (code : String) :
    EntryChange code (r.inner.get? code) ((r.apply op).inner.get? code) := by
  cases op with
  | insert link =>
      cases hl : r.inner.get? link.code with
      | some e =>
          rw [apply, insertSync_of_taken hl]
          exact .same _
      | none =>
          rw [apply, (get?_insertSync link hl).2.2]
          apply entryChange_of_written
          rw [hl]
          exact .stored link rfl
  | update now c url =>
      cases he : r.inner.get? c with
      | none =>
          rw [apply, updateSync_of_none he]
          exact .same _
      | some e =>
          rw [apply, (get?_updateSync now url he).2.2]
          apply entryChange_of_written
          rw [he]
          exact .updated e now url
  | recordHit now c =>
      cases he : r.inner.get? c with
      | none =>
          rw [apply, recordHitSync_of_none he]
          exact .same _
      | some e =>
          rw [apply, (get?_recordHitSync now he).2.1]
          apply entryChange_of_written
          rw [he]
          exact .hit e
  | remove c =>
      cases he : r.inner.get? c with
      | none =>
          rw [apply, removeSync_of_none he]
          exact .same _
      | some e =>
          rw [apply, (get?_removeSync he).2.2]
          apply entryChange_of_written
          rw [he]
          exact .dropped e
  | purgeExpired now =>
      rw [apply, get?_purgeExpiredSync]
      cases he : r.inner.get? code with
      | none => exact .same _
      | some e =>
          rw [Option.filter_some]
          split
          · exact .same _
          · exact .dropped e

end InMemoryRepo

end Shorty
