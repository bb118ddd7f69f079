import Shorty.Lib.Run
import Shorty.InMemory

/-!
# Shorty.InMemory.Locking

Optimistic locking: an update names the version its caller has read, and a store
that locks refuses it when the stored version has moved on.  `PostgresRepo`
does; the in-memory store drops the version on the way to `updateSync`.  Here is
the contract of one locked update, when the in-memory store honours it, and what
that means for clients that read a link and then write it.
-/

namespace Shorty

namespace InMemoryRepo

/-! ## one update -/

/-- The contract of `update code targetUrl v` under optimistic locking, of the
answer and the store it leaves behind. -/
structure LockedUpdate (r : InMemoryRepo) (now : SystemTime) (code targetUrl : String) (v : Int64)
    (out : Except RepoError ShortLink × InMemoryRepo) : Prop where
  /-- It succeeds exactly on the stored version. -/
  ok_iff : (∃ link, out.1 = .ok link) ↔ ∃ e, r.inner.get? code = some e ∧ e.link.version = v
  /-- Success stores the new target under the next version and nothing else. -/
  written : ∀ link, out.1 = .ok link → link.targetUrl = targetUrl ∧ link.version.toInt = v.toInt + 1 ∧
    ∀ code', (out.2.inner.get? code').map LinkEntry.link =
      if code' = code then some link else (r.inner.get? code').map LinkEntry.link
  /-- A link with another version is a conflict. -/
  conflict : ∀ e, r.inner.get? code = some e → e.link.version ≠ v →
    out.1 = .error .versionConflict
  /-- An error leaves the store alone. -/
  unchanged : ∀ err, out.1 = .error err → out.2 = r

/-- The stored link, if there is one, has the version the update names. -/
def VersionCurrent (r : InMemoryRepo) (code : String) (v : Int64) : Prop :=
  ∀ e, r.inner.get? code = some e → e.link.version = v

/-- It has, and is not at the last version. -/
def VersionCounts (r : InMemoryRepo) (code : String) (v : Int64) : Prop :=
  ∀ e, r.inner.get? code = some e → e.link.version = v ∧ v ≠ Int64.maxValue

variable {r : InMemoryRepo} {now : SystemTime} {code url : String} {v : Int64}

theorem lockedUpdate_of_none (he : r.inner.get? code = none) :
    LockedUpdate r now code url v (LinkRepository.update now code url v r) := by
  have hrun : LinkRepository.update now code url v r = (.error (.notFound code), r) :=
    updateSync_of_none he
  rw [hrun]
  constructor
  · simp [he]
  · intro link h
    cases h
  · simp [he]
  · intro err _
    rfl

theorem lockedUpdate_of_current {e : LinkEntry} (he : r.inner.get? code = some e)
    (hmax : e.link.version ≠ Int64.maxValue) :
    LockedUpdate r now code url e.link.version
      (LinkRepository.update now code url e.link.version r) := by
  obtain ⟨hres, _, hget⟩ := get?_updateSync now url he
  have hok : (LinkRepository.update now code url e.link.version r).1 =
      .ok (updatedLink now url e.link) := hres
  constructor
  · rw [hok, he]
    simp
  · intro link hlink
    rw [hok] at hlink
    cases hlink
    refine ⟨rfl, toInt_succ hmax, fun code' => ?_⟩
    have hget' : (LinkRepository.update now code url e.link.version r).2.inner.get? code' = _ :=
      hget code'
    rw [hget']
    by_cases hc : code' = code <;> simp [hc]
  · intro e' he' hne
    rw [he] at he'
    cases he'
    exact absurd rfl hne
  · intro err herr
    rw [hok] at herr
    cases herr

/-- The in-memory update answers without looking at the version, and counts on from the
last one to the first, so it honours the contract exactly when the version is current and
not the last, or there is no link. -/
theorem lockedUpdate_iff :
    LockedUpdate r now code url v (LinkRepository.update now code url v r) ↔
      VersionCounts r code v := by
  constructor
  · intro h e he
    have hok : (LinkRepository.update now code url v r).1 = .ok (updatedLink now url e.link) :=
      (get?_updateSync now url he).1
    obtain ⟨e', he', hv⟩ := h.ok_iff.mp ⟨_, hok⟩
    rw [he] at he'
    cases he'
    refine ⟨hv, fun hmax => ?_⟩
    have hsucc : (e.link.version + 1).toInt = v.toInt + 1 := (h.written _ hok).2.1
    rw [hv, hmax] at hsucc
    exact absurd hsucc (by decide)
  · intro h
    cases he : r.inner.get? code with
    | none => exact lockedUpdate_of_none he
    | some e =>
        obtain ⟨hv, hmax⟩ := h e he
        rw [← hv]
        exact lockedUpdate_of_current he (by rw [hv]; exact hmax)

/-! ## clients that read and then write -/

/-- What a client knows of the link it has read.  `seen` is not the client's: it
counts the updates the link had had when it was read. -/
structure Held where
  code : String
  version : Int64
  seen : Nat

/-- A store and its clients.  `writes` counts the successful updates of each
code. -/
structure Session where
  repo : InMemoryRepo
  writes : String → Nat
  held : Nat → Option Held

/-- One step of one client: read a link, or update the link read last with the
version read. -/
inductive ClientStep where
  | read (client : Nat) (code : String)
  | update (client : Nat) (now : SystemTime) (targetUrl : String)

namespace Session

def start (r : InMemoryRepo) : Session := ⟨r, fun _ => 0, fun _ => none⟩

def step (s : Session) : ClientStep → Session
  | .read client code =>
      match (LinkRepository.get code s.repo).1 with
      | .ok link =>
          { s with held := Function.update s.held client (some ⟨code, link.version, s.writes code⟩) }
      | .error _ => s
  | .update client now targetUrl =>
      match s.held client with
      | none => s
      | some h =>
          match LinkRepository.update now h.code targetUrl h.version s.repo with
          | (.ok _, repo) =>
              { s with
                repo := repo
                writes := Function.update s.writes h.code (s.writes h.code + 1) }
          | (.error _, repo) => { s with repo := repo }

/-- The step is an update that succeeds although the link has been updated since
the client read it. -/
def Overwrites (s : Session) : ClientStep → Prop
  | .read _ _ => False
  | .update client now targetUrl =>
      ∃ h link, s.held client = some h ∧
        (LinkRepository.update now h.code targetUrl h.version s.repo).1 = .ok link ∧
        h.seen < s.writes h.code

/-- The step, if it is an update, names the current version, which has not come round
since the client read it. -/
def Current (s : Session) : ClientStep → Prop
  | .read _ _ => True
  | .update client _ _ => ∀ h, s.held client = some h →
      VersionCurrent s.repo h.code h.version ∧ s.writes h.code < h.seen + 2 ^ 64

/-- Versions count updates: each stored link is at the version it started from
plus the updates it has had, and each client holds a version the link once had. -/
structure Counting (base : String → Int64) (s : Session) : Prop where
  stored : ∀ code e, s.repo.inner.get? code = some e →
    e.link.version = base code + Int64.ofNat (s.writes code)
  held : ∀ client h, s.held client = some h →
    h.version = base h.code + Int64.ofNat h.seen ∧ h.seen ≤ s.writes h.code ∧
      s.repo.inner.get? h.code ≠ none

/-- The version each code starts from. -/
def baseVersion (r : InMemoryRepo) (code : String) : Int64 :=
  ((r.inner.get? code).map (·.link.version)).getD 0

theorem counting_start (r : InMemoryRepo) : Counting (baseVersion r) (start r) where
  stored := fun code e he => by
    have hstart : r.inner.get? code = some e := he
    simp [baseVersion, start, hstart]
  held := fun _ _ h => by cases h

variable {base : String → Int64} {s : Session}

theorem counting_read (hs : Counting base s) (client : Nat) (code : String) :
    Counting base (s.step (.read client code)) := by
  cases he : s.repo.inner.get? code with
  | none =>
      have hrun : (LinkRepository.get code s.repo).1 = .error (.notFound code) := by
        simp [LinkRepository.get, getSync, he]
      rw [step, hrun]
      exact hs
  | some e =>
      have hrun : (LinkRepository.get code s.repo).1 = .ok e.link := by
        simp [LinkRepository.get, getSync, he]
      rw [step, hrun]
      refine ⟨hs.stored, fun client' h hh => ?_⟩
      by_cases hc : client' = client
      · simp only [hc, Function.update_self, Option.some.injEq] at hh
        subst hh
        exact ⟨hs.stored code e he, Nat.le_refl _, by rw [he]; exact Option.some_ne_none e⟩
      · simp only [Function.update_of_ne hc] at hh
        exact hs.held client' h hh

theorem counting_update (hs : Counting base s) (client : Nat) (now : SystemTime) (url : String) :
    Counting base (s.step (.update client now url)) := by
  cases hh : s.held client with
  | none =>
      rw [step, hh]
      exact hs
  | some h =>
      obtain ⟨_, _, hstored⟩ := hs.held client h hh
      obtain ⟨e, he⟩ := Option.ne_none_iff_exists'.mp hstored
      obtain ⟨hres, _, hget⟩ := get?_updateSync now url he
      have hrun : LinkRepository.update now h.code url h.version s.repo =
          (.ok (updatedLink now url e.link), (s.repo.updateSync now h.code url).2) :=
        Prod.ext hres rfl
      rw [step, hh]
      simp only [hrun]
      constructor
      · intro code e' he'
        rw [hget] at he'
        by_cases hc : code = h.code
        · rw [if_pos hc] at he'
          cases he'
          have hv : e.link.version = base h.code + Int64.ofNat (s.writes h.code) := hs.stored h.code e he
          simp only [hc, Function.update_self, updatedLink, hv]
          exact add_ofNat_succ _ _
        · rw [if_neg hc] at he'
          simp only [Function.update_of_ne hc]
          exact hs.stored code e' he'
      · intro client' h' hh'
        obtain ⟨hv, hle, hne⟩ := hs.held client' h' hh'
        refine ⟨hv, ?_, ?_⟩
        · by_cases hc : h'.code = h.code
          · rw [hc] at hle
            simp only [hc, Function.update_self]
            omega
          · simp only [Function.update_of_ne hc]
            exact hle
        · rw [hget]
          by_cases hc : h'.code = h.code
          · rw [if_pos hc]
            exact Option.some_ne_none _
          · rw [if_neg hc]
            exact hne

theorem counting_step (hs : Counting base s) (e : ClientStep) : Counting base (s.step e) := by
  cases e with
  | read client code => exact counting_read hs client code
  | update client now url => exact counting_update hs client now url

/-- Where versions count updates, an update misses another one exactly when it
names a version that is no longer current. -/
theorem not_overwrites_iff (hs : Counting base s) (e : ClientStep) :
    ¬ Overwrites s e ↔ Current s e := by
  cases e with
  | read client code => simp [Overwrites, Current]
  | update client now url =>
      cases hh : s.held client with
      | none => simp [Overwrites, Current, hh]
      | some h =>
          obtain ⟨hv, hle, hstored⟩ := hs.held client h hh
          obtain ⟨e, he⟩ := Option.ne_none_iff_exists'.mp hstored
          have hev : e.link.version = base h.code + Int64.ofNat (s.writes h.code) := hs.stored h.code e he
          have hok : (LinkRepository.update now h.code url h.version s.repo).1 =
              .ok (updatedLink now url e.link) := (get?_updateSync now url he).1
          have hover : Overwrites s (.update client now url) ↔ h.seen < s.writes h.code := by
            simp [Overwrites, hh, hok]
          have hcurrent : Current s (.update client now url) ↔
              e.link.version = h.version ∧ s.writes h.code < h.seen + 2 ^ 64 := by
            simp [Current, VersionCurrent, hh, he]
          -- less than a round apart, the versions are those of different counts
          have hround : s.writes h.code < h.seen + 2 ^ 64 →
              (e.link.version = h.version ↔ h.seen = s.writes h.code) := by
            intro hlt
            rw [hev, hv, Int64.add_right_inj, eq_comm]
            exact ofNat_eq_ofNat_iff hle hlt
          rw [hover, hcurrent]
          constructor
          · intro hnot
            have hlt : s.writes h.code < h.seen + 2 ^ 64 := by omega
            exact ⟨(hround hlt).mpr (by omega), hlt⟩
          · rintro ⟨heq, hlt⟩
            have hseen := (hround hlt).mp heq
            omega

end Session

/-- **Optimistic locking in the in-memory store**: an update honours the
locking contract exactly when it names the current version of the link, short of the last
one, or there is no link, and no update of an interleaving of reading and writing clients
overwrites one its client has not seen exactly when every update names the
current version, which has not come round since it was read. -/
theorem update_locks_iff (r : InMemoryRepo) (now : SystemTime) (code url : String) (v : Int64)
    (steps : List ClientStep) :
    (LockedUpdate r now code url v (LinkRepository.update now code url v r) ↔
      VersionCounts r code v) ∧
    (Run.Along Session.step (fun s e => ¬ s.Overwrites e) (.start r) steps ↔
      Run.Along Session.step Session.Current (.start r) steps) := by
  constructor
  · exact lockedUpdate_iff
  · exact Run.along_congr
      (fun s e (h : Session.Counting (Session.baseVersion r) s) => Session.counting_step h e)
      (fun _ e h => Session.not_overwrites_iff h e) (Session.counting_start r)

/-- A store with one link, at version 1. -/
def oneLink : InMemoryRepo :=
  (new.insertSync (.new .UNIX_EPOCH "ol-test" "https://example.com/ol")).2

/-- Two clients read version 1 and both write. -/
def twoWriters : List ClientStep := [
  .read 0 "ol-test",
  .read 1 "ol-test",
  .update 0 .UNIX_EPOCH "https://example.com/v2",
  .update 1 .UNIX_EPOCH "https://example.com/v3"]

/-- The update of version 7 of a link at version 1 is accepted, and of two
clients that read version 1 the second silently overwrites the first. -/
theorem update_does_not_lock :
    ¬ LockedUpdate oneLink .UNIX_EPOCH "ol-test" "https://example.com/v2" 7
        (LinkRepository.update .UNIX_EPOCH "ol-test" "https://example.com/v2" 7 oneLink) ∧
    ¬ Run.Along Session.step (fun s e => ¬ s.Overwrites e) (.start oneLink) twoWriters := by
  constructor
  · rw [lockedUpdate_iff]
    intro h
    have hstored : oneLink.inner.get? "ol-test" =
        some (.new (.new .UNIX_EPOCH "ol-test" "https://example.com/ol")) := by decide
    exact absurd (h _ hstored).1 (by decide)
  · rintro ⟨_, _, _, hover, _⟩
    exact hover ⟨⟨"ol-test", 1, 0⟩, _, rfl, rfl, by decide⟩

end InMemoryRepo

end Shorty
