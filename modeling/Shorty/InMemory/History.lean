import Shorty.Lib.Run
import Shorty.InMemory

/-!
# Shorty.InMemory.History

The in-memory store by what was done to it.  A run keeps its calls with their
answers, and everything a lookup answers is read off that history: the last
successful insert under the code, and the calls since.
-/

namespace Shorty

/-- A call of the in-memory store. -/
inductive SyncCall where
  | insert (link : ShortLink)
  | get (code : String)
  | update (now : SystemTime) (code targetUrl : String)
  | remove (code : String)
  | recordHit (now : SystemTime) (code : String)
  | stats (code : String)
  | purgeExpired (now : SystemTime)

/-- What a call answers. -/
inductive SyncAnswer where
  | unit (out : Except RepoError Unit)
  | link (out : Except RepoError ShortLink)
  | hits (out : Except RepoError Nat)
  | stats (out : Except RepoError LinkStats)
  | purged (n : Nat)

/-- A call and its answer. -/
abbrev Answered := SyncCall × SyncAnswer

namespace InMemoryRepo

/-- Make a call. -/
def call (r : InMemoryRepo) : SyncCall → SyncAnswer × InMemoryRepo
  | .insert link => (.unit (r.insertSync link).1, (r.insertSync link).2)
  | .get code => (.link (r.getSync code), r)
  | .update now code targetUrl =>
      (.link (r.updateSync now code targetUrl).1, (r.updateSync now code targetUrl).2)
  | .remove code => (.unit (r.removeSync code).1, (r.removeSync code).2)
  | .recordHit now code => (.hits (r.recordHitSync now code).1, (r.recordHitSync now code).2)
  | .stats code => (.stats (r.statsSync code), r)
  | .purgeExpired now => (.purged (r.purgeExpiredSync now).1, (r.purgeExpiredSync now).2)

end InMemoryRepo

/-- The call was refused. -/
def SyncAnswer.Failed : SyncAnswer → Prop
  | .unit out => ∃ e, out = .error e
  | .link out => ∃ e, out = .error e
  | .hits out => ∃ e, out = .error e
  | .stats out => ∃ e, out = .error e
  | .purged _ => False

/-- A store and its history, the newest call first. -/
structure Ledger where
  repo : InMemoryRepo
  history : List Answered

namespace Ledger

def start : Ledger := ⟨.new, []⟩

def step (w : Ledger) (c : SyncCall) : Ledger :=
  ⟨(w.repo.call c).2, (c, (w.repo.call c).1) :: w.history⟩

end Ledger

/-! ## reading a history -/

section Reading

variable (code : String)

/-- The link a call has stored under the code. -/
def insertedLink : Answered → Option ShortLink
  | (.insert link, .unit (.ok ())) => if link.code = code then some link else none
  | _ => none

/-- The target a call has given the link of the code. -/
def updatedTarget : Answered → Option String
  | (.update _ c targetUrl, .link (.ok _)) => if c = code then some targetUrl else none
  | _ => none

/-- When a call has updated the link of the code. -/
def updateTime : Answered → Option SystemTime
  | (.update now c _, .link (.ok _)) => if c = code then some now else none
  | _ => none

/-- A call has counted a hit on the code. -/
def countsHit : Answered → Bool
  | (.recordHit _ c, .hits (.ok _)) => c = code
  | _ => false

/-- A call has ended a link stored under the code: a successful remove, or a purge
at or after its expiry. -/
def endsLink (link : ShortLink) : Answered → Bool
  | (.remove c, .unit (.ok ())) => c = code
  | (.purgeExpired now, _) => link.isExpired now
  | _ => false

/-- The link the last successful insert under the code has stored, and the calls
since. -/
def lastInsert : List Answered → Option (ShortLink × List Answered)
  | [] => none
  | x :: history =>
      match insertedLink code x with
      | some link => some (link, [])
      | none => (lastInsert history).map (fun p => (p.1, x :: p.2))

/-- A link with the calls since its insert applied. -/
def sinceInsert (link : ShortLink) (since : List Answered) : LinkEntry where
  link :=
    { link with
      targetUrl := (since.findSome? (updatedTarget code)).getD link.targetUrl
      updatedAt := (since.findSome? (updateTime code)).getD link.updatedAt
      version := link.version + Int64.ofNat (since.countP (fun x => (updatedTarget code x).isSome)) }
  hits := since.countP (countsHit code)

/-- The entry a history leaves under the code. -/
def remembered (history : List Answered) : Option LinkEntry :=
  (lastInsert code history).bind (fun p =>
    if p.2.any (endsLink code p.1) then none else some (sinceInsert code p.1 p.2))

end Reading

/-! ## one more call -/

variable {code : String} {x : Answered} {history : List Answered}

/-- What a call that has not stored does to an entry. -/
def advanceEntry (code : String) (x : Answered) (e : LinkEntry) : Option LinkEntry :=
  if endsLink code e.link x then none
  else some
    { link :=
        { e.link with
          targetUrl := (updatedTarget code x).getD e.link.targetUrl
          updatedAt := (updateTime code x).getD e.link.updatedAt
          version := e.link.version + if (updatedTarget code x).isSome then 1 else 0 }
      hits := e.hits + if countsHit code x then 1 else 0 }

theorem remembered_cons_of_insert {link : ShortLink} (h : insertedLink code x = some link) :
    remembered code (x :: history) = some (.new link) := by
  simp [remembered, lastInsert, h, sinceInsert, LinkEntry.new]

theorem endsLink_congr {link link' : ShortLink} (h : link.expiresAt = link'.expiresAt) :
    endsLink code link x = endsLink code link' x := by
  obtain ⟨c, a⟩ := x
  cases c <;> simp [endsLink, ShortLink.isExpired, h]

theorem remembered_cons_of_not_insert (h : insertedLink code x = none) :
    remembered code (x :: history) = (remembered code history).bind (advanceEntry code x) := by
  unfold remembered
  simp only [lastInsert, h]
  cases hlast : lastInsert code history with
  | none => rfl
  | some p =>
      obtain ⟨link, since⟩ := p
      simp only [Option.map_some, Option.bind_some, List.any_cons, Bool.or_eq_true]
      have hends : endsLink code (sinceInsert code link since).link x = endsLink code link x :=
        endsLink_congr rfl
      by_cases hbefore : since.any (endsLink code link) = true
      · simp [hbefore]
      · by_cases hnow : endsLink code link x = true
        · simp [hbefore, hnow, advanceEntry, hends]
        · simp only [hbefore, hnow, advanceEntry, hends, or_self, Bool.false_eq_true, if_false,
            Option.bind_some, Option.some.injEq]
          simp only [sinceInsert, List.findSome?_cons, List.countP_cons, LinkEntry.mk.injEq,
            ShortLink.mk.injEq, and_true, true_and]
          cases updatedTarget code x <;> cases updateTime code x <;> simp [Int64.add_assoc]

/-- A call that neither stores, ends, updates nor counts leaves the entry. -/
theorem remembered_cons_of_idle (hinsert : insertedLink code x = none)
    (hend : ∀ link, endsLink code link x = false) (htarget : updatedTarget code x = none)
    (htime : updateTime code x = none) (hhit : countsHit code x = false) :
    remembered code (x :: history) = remembered code history := by
  rw [remembered_cons_of_not_insert hinsert]
  cases remembered code history with
  | none => rfl
  | some e => simp [advanceEntry, hend, htarget, htime, hhit]

namespace Ledger

/-- The store holds under every code what its history leaves there. -/
def Kept (w : Ledger) : Prop := ∀ code, w.repo.inner.get? code = remembered code w.history

theorem kept_start : start.Kept := fun _ => rfl

variable {w : Ledger}

theorem kept_insert (h : w.Kept) (link : ShortLink) : (w.step (.insert link)).Kept := by
  intro code
  simp only [step, InMemoryRepo.call]
  cases hl : w.repo.inner.get? link.code with
  | some e =>
      rw [InMemoryRepo.insertSync_of_taken hl, remembered_cons_of_idle rfl (fun _ => rfl) rfl rfl rfl]
      exact h code
  | none =>
      obtain ⟨hok, _, hget⟩ := InMemoryRepo.get?_insertSync link hl
      simp only [hok, hget]
      by_cases hc : code = link.code
      · have hinserted : insertedLink code (.insert link, .unit (.ok ())) = some link := by
          simp [insertedLink, hc]
        rw [if_pos hc, remembered_cons_of_insert hinserted]
      · have hinserted : insertedLink code (.insert link, .unit (.ok ())) = none := by
          simp [insertedLink, Ne.symm hc]
        rw [if_neg hc, remembered_cons_of_idle hinserted (fun _ => rfl) rfl rfl rfl]
        exact h code

/-- A call on a stored link that does to its entry what the history says of it, and
nothing to the others. -/
theorem kept_of_entry (h : w.Kept) {c : String} {e : LinkEntry} {entry : Option LinkEntry}
    {r : InMemoryRepo} {x : Answered} (he : w.repo.inner.get? c = some e)
    (hget : ∀ code, r.inner.get? code = if code = c then entry else w.repo.inner.get? code)
    (hself : advanceEntry c x e = entry) (hinsert : ∀ code, insertedLink code x = none)
    (hother : ∀ code, c ≠ code → (∀ link, endsLink code link x = false) ∧
      updatedTarget code x = none ∧ updateTime code x = none ∧ countsHit code x = false) :
    Kept ⟨r, x :: w.history⟩ := by
  intro code
  simp only [hget]
  by_cases hc : code = c
  · have hentry : remembered code w.history = some e := by rw [← h code, hc, he]
    rw [if_pos hc, remembered_cons_of_not_insert (hinsert code), hentry, Option.bind_some, hc, hself]
  · obtain ⟨hend, htarget, htime, hhit⟩ := hother code (Ne.symm hc)
    rw [if_neg hc, remembered_cons_of_idle (hinsert code) hend htarget htime hhit]
    exact h code

theorem kept_update (h : w.Kept) (now : SystemTime) (c url : String) :
    (w.step (.update now c url)).Kept := by
  simp only [step, InMemoryRepo.call]
  cases he : w.repo.inner.get? c with
  | none =>
      intro code
      rw [InMemoryRepo.updateSync_of_none he, remembered_cons_of_idle rfl (fun _ => rfl) rfl rfl rfl]
      exact h code
  | some e =>
      obtain ⟨hok, _, hget⟩ := InMemoryRepo.get?_updateSync now url he
      rw [hok]
      refine kept_of_entry h he hget ?_ (fun _ => rfl) fun code hne => ?_
      · simp [advanceEntry, endsLink, updatedTarget, updateTime, countsHit, InMemoryRepo.updatedLink]
      · simp [endsLink, updatedTarget, updateTime, countsHit, hne]

theorem kept_remove (h : w.Kept) (c : String) : (w.step (.remove c)).Kept := by
  simp only [step, InMemoryRepo.call]
  cases he : w.repo.inner.get? c with
  | none =>
      intro code
      rw [InMemoryRepo.removeSync_of_none he, remembered_cons_of_idle rfl (fun _ => rfl) rfl rfl rfl]
      exact h code
  | some e =>
      obtain ⟨hok, _, hget⟩ := InMemoryRepo.get?_removeSync he
      rw [hok]
      refine kept_of_entry h he hget ?_ (fun _ => rfl) fun code hne => ?_
      · simp [advanceEntry, endsLink]
      · simp [endsLink, updatedTarget, updateTime, countsHit, hne]

theorem kept_recordHit (h : w.Kept) (now : SystemTime) (c : String) :
    (w.step (.recordHit now c)).Kept := by
  simp only [step, InMemoryRepo.call]
  cases he : w.repo.inner.get? c with
  | none =>
      intro code
      rw [InMemoryRepo.recordHitSync_of_none he,
        remembered_cons_of_idle rfl (fun _ => rfl) rfl rfl rfl]
      exact h code
  | some e =>
      obtain ⟨hok, hget, _⟩ := InMemoryRepo.get?_recordHitSync now he
      rw [hok]
      refine kept_of_entry h he hget ?_ (fun _ => rfl) fun code hne => ?_
      · simp [advanceEntry, endsLink, updatedTarget, updateTime, countsHit]
      · simp [endsLink, updatedTarget, updateTime, countsHit, hne]

theorem kept_purgeExpired (h : w.Kept) (now : SystemTime) : (w.step (.purgeExpired now)).Kept := by
  intro code
  simp only [step, InMemoryRepo.call]
  simp only [InMemoryRepo.get?_purgeExpiredSync, h code]
  rw [remembered_cons_of_not_insert rfl]
  cases remembered code w.history with
  | none => rfl
  | some e =>
      by_cases hexp : e.link.isExpired now = true
      · simp [advanceEntry, endsLink, hexp]
      · simp [advanceEntry, endsLink, updatedTarget, updateTime, countsHit, hexp]

/-- Every call keeps the store what its history says. -/
theorem kept_step (h : w.Kept) (c : SyncCall) : (w.step c).Kept := by
  cases c with
  | insert link => exact kept_insert h link
  | get c =>
      intro code
      rw [step, remembered_cons_of_idle rfl (fun _ => rfl) rfl rfl rfl]
      exact h code
  | update now c url => exact kept_update h now c url
  | remove c => exact kept_remove h c
  | recordHit now c => exact kept_recordHit h now c
  | stats c =>
      intro code
      rw [step, remembered_cons_of_idle rfl (fun _ => rfl) rfl rfl rfl]
      exact h code
  | purgeExpired now => exact kept_purgeExpired h now

/-! ## the store implements its history -/

/-- The code's last successful insert, with nothing since that has ended it. -/
def Stands (w : Ledger) (code : String) (link : ShortLink) (since : List Answered) : Prop :=
  lastInsert code w.history = some (link, since) ∧ ∀ x ∈ since, endsLink code link x = false

/-- What every method answers, read off the history. -/
structure Implements (w : Ledger) : Prop where
  /-- A code is present exactly when its last successful insert still stands. -/
  present : ∀ code, (w.repo.inner.get? code).isSome = true ↔
    ∃ link since, w.Stands code link since
  /-- An insert is refused exactly when the code is present. -/
  taken : ∀ link : ShortLink, (w.repo.insertSync link).1 =
    if (w.repo.inner.get? link.code).isSome then .error (.codeTaken link.code) else .ok ()
  /-- A present code is shown as inserted, with what was done since. -/
  shown : ∀ code link since, w.Stands code link since →
    ∃ got, w.repo.getSync code = .ok got ∧
      w.repo.statsSync code = .ok ⟨got, since.countP (countsHit code)⟩ ∧
      got.code = link.code ∧ got.createdAt = link.createdAt ∧ got.expiresAt = link.expiresAt ∧
      got.targetUrl = (since.findSome? (updatedTarget code)).getD link.targetUrl ∧
      got.version = link.version + Int64.ofNat (since.countP (fun x => (updatedTarget code x).isSome)) ∧
      (link.version.toInt + since.countP (fun x => (updatedTarget code x).isSome) < 2 ^ 63 →
        got.version.toInt = link.version.toInt + since.countP (fun x => (updatedTarget code x).isSome))
  /-- An absent code is not found. -/
  absent : ∀ code, w.repo.inner.get? code = none →
    w.repo.getSync code = .error (.notFound code) ∧ w.repo.statsSync code = .error (.notFound code)
  /-- A call that fails changes nothing. -/
  failed : ∀ c, (w.repo.call c).1.Failed → (w.repo.call c).2 = w.repo

theorem Kept.get?_of_stands {link : ShortLink} {since : List Answered} (h : w.Kept)
    (hs : w.Stands code link since) : w.repo.inner.get? code = some (sinceInsert code link since) := by
  obtain ⟨hlast, hnone⟩ := hs
  have hends : since.any (endsLink code link) = false := by
    rw [List.any_eq_false]
    intro x hx
    simp [hnone x hx]
  rw [h code]
  simp [remembered, hlast, hends]

theorem Kept.stands_of_get? {e : LinkEntry} (h : w.Kept) (he : w.repo.inner.get? code = some e) :
    ∃ link since, w.Stands code link since := by
  rw [h code, remembered] at he
  obtain ⟨⟨link, since⟩, hlast, hentry⟩ := Option.bind_eq_some_iff.mp he
  by_cases hends : since.any (endsLink code link) = true
  · simp [hends] at hentry
  · rw [Bool.not_eq_true, List.any_eq_false] at hends
    exact ⟨link, since, hlast, fun x hx => by simpa using hends x hx⟩

/-- A call that fails leaves the store as it is. -/
theorem call_of_failed (c : SyncCall) (h : (w.repo.call c).1.Failed) :
    (w.repo.call c).2 = w.repo := by
  cases c with
  | insert link =>
      cases hl : w.repo.inner.get? link.code with
      | some e => simp only [InMemoryRepo.call, InMemoryRepo.insertSync_of_taken hl]
      | none => simp [InMemoryRepo.call, (InMemoryRepo.get?_insertSync link hl).1,
          SyncAnswer.Failed] at h
  | update now c url =>
      cases he : w.repo.inner.get? c with
      | none => simp only [InMemoryRepo.call, InMemoryRepo.updateSync_of_none he]
      | some e => simp [InMemoryRepo.call, (InMemoryRepo.get?_updateSync now url he).1,
          SyncAnswer.Failed] at h
  | remove c =>
      cases he : w.repo.inner.get? c with
      | none => simp only [InMemoryRepo.call, InMemoryRepo.removeSync_of_none he]
      | some e => simp [InMemoryRepo.call, (InMemoryRepo.get?_removeSync he).1,
          SyncAnswer.Failed] at h
  | recordHit now c =>
      cases he : w.repo.inner.get? c with
      | none => simp only [InMemoryRepo.call, InMemoryRepo.recordHitSync_of_none he]
      | some e => simp [InMemoryRepo.call, (InMemoryRepo.get?_recordHitSync now he).1,
          SyncAnswer.Failed] at h
  | purgeExpired now => exact absurd h id
  | _ => rfl

theorem Kept.implements (h : w.Kept) : w.Implements where
  present := by
    intro code
    constructor
    · intro hsome
      obtain ⟨e, he⟩ := Option.isSome_iff_exists.mp hsome
      exact h.stands_of_get? he
    · rintro ⟨link, since, hs⟩
      simp [h.get?_of_stands hs]
  taken := by
    intro link
    cases hl : w.repo.inner.get? link.code with
    | some e => simp [InMemoryRepo.insertSync_of_taken hl]
    | none => simp [(InMemoryRepo.get?_insertSync link hl).1]
  shown := by
    intro code link since hs
    have hget := h.get?_of_stands hs
    refine ⟨(sinceInsert code link since).link, ?_, ?_, rfl, rfl, rfl, rfl, rfl, toInt_add_ofNat⟩
    · simp [InMemoryRepo.getSync, hget]
    · simp [InMemoryRepo.statsSync, hget, LinkEntry.stats, sinceInsert]
  absent := by
    intro code hnone
    simp [InMemoryRepo.getSync, InMemoryRepo.statsSync, hnone]
  failed := call_of_failed

/-- **The store implements its history**: in every state of every run, what the
methods answer is what the calls made so far say. -/
theorem throughout_implements (calls : List SyncCall) :
    Run.Throughout step Implements start calls := by
  have hkept : Run.Throughout step Kept start calls :=
    Run.throughout_of_step (C := fun _ _ => True) (fun _ c h _ => kept_step h c) kept_start
      (Run.along_of_forall (fun _ _ => trivial))
  exact hkept.mono (fun _ => Kept.implements)

/-- The version of a present code is, as a number, the inserted one plus the updates since. -/
def CountsOn (w : Ledger) : Prop :=
  ∀ code link since, w.Stands code link since → ∀ got, w.repo.getSync code = .ok got →
    got.version.toInt = link.version.toInt + since.countP (fun x => (updatedTarget code x).isSome)

/-- A link at the last version. -/
def lastVersion : ShortLink :=
  { ShortLink.new .UNIX_EPOCH "last" "https://example.com/a" with version := Int64.maxValue }

/-- An update of a link at the last version shows it at the first. -/
theorem not_countsOn_lastVersion : ¬ Run.Throughout step CountsOn start [
    .insert lastVersion, .update .UNIX_EPOCH "last" "https://example.com/b"] := by
  rintro ⟨_, _, hcounts⟩
  have hstands : ((start.step (.insert lastVersion)).step (.update .UNIX_EPOCH "last" "https://example.com/b")).Stands
      "last" lastVersion [(.update .UNIX_EPOCH "last" "https://example.com/b", .link (.ok
        (InMemoryRepo.updatedLink .UNIX_EPOCH "https://example.com/b" lastVersion)))] := ⟨rfl, by simp [endsLink]⟩
  exact absurd (hcounts _ _ _ hstands _ rfl) (by decide)

end Ledger

end Shorty
