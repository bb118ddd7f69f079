import Shorty.Lib.Pool
import Shorty.Postgres.Statements

/-!
# Shorty.Postgres.NoLostUpdate

Clients of one row: any number of calls of `update`, `record_hit`, `get` and
`stats`, their statements interleaved.  `Tallied` says how the row is accounted for
by the calls that succeeded; every statement keeps it, and what a task has done
determines what it answers.
-/

namespace Shorty

/-- What a method answers. -/
inductive RepoAnswer where
  | unit (result : Except RepoError Unit)
  | link (result : Except RepoError ShortLink)
  | hits (result : Except RepoError Nat)
  | stats (result : Except RepoError LinkStats)
  | page (result : Except RepoError ListPage)
  | purged (number : Nat)

namespace RepoCall

def answer : (c : RepoCall) → c.Resp → RepoAnswer
  | insert _ _ => .unit
  | get _ => .link
  | update _ _ _ _ => .link
  | remove _ => .unit
  | recordHit _ => .hits
  | stats _ => .stats
  | list _ _ _ => .page
  | purgeExpired _ _ => .purged

/-- A method as a task among others. -/
def task (c : RepoCall) : Proc Statement.Resp RepoAnswer := c.answer <$> c.program

end RepoCall

/-- A call on one row. -/
inductive RowCall where
  | update (now : SystemTime) (targetUrl : String) (version : Int64)
  | recordHit
  | get
  | stats

/-- The call on the row of a code. -/
def RowCall.on (code : String) : RowCall → RepoCall
  | update now targetUrl version => .update now code targetUrl version
  | recordHit => .recordHit code
  | get => .get code
  | stats => .stats code

/-- An update that succeeded: the version and the target it was given, and the link
it returned. -/
structure OkUpdate where
  given : Int64
  targetUrl : String
  link : ShortLink

/-- How a row is accounted for by the updates that succeeded and the answers of the
hits that did. -/
structure Tallied (row₀ row : LinkRow) (updates : List OkUpdate) (counts : List Nat) : Prop where
  version : row.version.toInt = row₀.version.toInt + updates.length
  /-- The updates returned consecutive versions. -/
  versions : (updates.map (fun u => u.link.version.toInt)).Perm
    ((List.range updates.length).map (fun n : Nat => row₀.version.toInt + 1 + n))
  /-- Each was given the version before. -/
  given : ∀ u ∈ updates, u.link.version.toInt = u.given.toInt + 1
  /-- The last one's target is the row's. -/
  target : ∀ u ∈ updates, (∀ u' ∈ updates, u'.link.version ≤ u.link.version) →
    row.targetUrl = u.targetUrl
  hits : row.hits = row₀.hits + counts.length
  results : counts.Perm ((List.range counts.length).map (row₀.hits + 1 + ·))

section Tallied

open PostgresRepo (updatedRow hitRow)

variable {row₀ row : LinkRow} {updates updates' : List OkUpdate} {counts counts' : List Nat}

theorem Tallied.start (row : LinkRow) : Tallied row row [] [] := by
  constructor <;> simp

theorem Tallied.perm (h : Tallied row₀ row updates counts) (hu : updates'.Perm updates)
    (hh : counts'.Perm counts) : Tallied row₀ row updates' counts' where
  version := by rw [h.version, hu.length_eq]
  versions := by
    rw [hu.length_eq]
    exact (hu.map _).trans h.versions
  given u hmem := h.given u (hu.mem_iff.mp hmem)
  target u hmem hmax := h.target u (hu.mem_iff.mp hmem)
    (fun u' hmem' => hmax u' (hu.mem_iff.mpr hmem'))
  hits := by rw [h.hits, hh.length_eq]
  results := by
    rw [hh.length_eq]
    exact hh.trans h.results

/-- No update has returned a version above the row's. -/
theorem Tallied.le (h : Tallied row₀ row updates counts) {u : OkUpdate} (hu : u ∈ updates) :
    u.link.version ≤ row.version := by
  rw [Int64.le_iff_toInt_le]
  obtain ⟨n, hn, heq⟩ := List.mem_map.mp (h.versions.mem_iff.mp (List.mem_map_of_mem hu))
  have hlt := List.mem_range.mp hn
  have hversion := h.version
  omega

/-- The row counts one more update. -/
theorem Tallied.update (h : Tallied row₀ row updates counts) (hmax : row.version ≠ Int64.maxValue)
    (db : Database) (now : SystemTime) (targetUrl : String) :
    Tallied row₀ (updatedRow db now targetUrl row)
      (⟨row.version, targetUrl, (updatedRow db now targetUrl row).toShortLink⟩ :: updates) counts where
  version := by
    have hversion := h.version
    simp only [updatedRow, List.length_cons, toInt_succ hmax]
    omega
  versions := by
    have hlast : (row.version + 1).toInt = row₀.version.toInt + 1 + updates.length := by
      have hversion := h.version
      rw [toInt_succ hmax]
      omega
    simp only [List.map_cons, List.length_cons, List.range_succ, List.map_append, List.map_nil]
    refine List.Perm.trans (List.Perm.cons _ h.versions) ?_
    simp only [updatedRow, LinkRow.toShortLink, hlast]
    exact (List.perm_append_singleton _ _).symm
  given := by
    intro u hu
    rcases List.mem_cons.mp hu with rfl | hu
    · exact toInt_succ hmax
    · exact h.given u hu
  target := by
    intro u hu hlast
    rcases List.mem_cons.mp hu with rfl | hu
    · rfl
    · have hle := Int64.le_iff_toInt_le.mp (h.le hu)
      have hge := Int64.le_iff_toInt_le.mp (hlast _ List.mem_cons_self)
      simp only [updatedRow, LinkRow.toShortLink, toInt_succ hmax] at hge
      omega
  hits := h.hits
  results := h.results

/-- The row counts one more hit. -/
theorem Tallied.hit (h : Tallied row₀ row updates counts) :
    Tallied row₀ (hitRow row) updates ((row.hits + 1) :: counts) where
  version := h.version
  versions := h.versions
  given := h.given
  target := h.target
  hits := by
    have hhits := h.hits
    simp only [hitRow, List.length_cons]
    omega
  results := by
    have hlast : row.hits + 1 = row₀.hits + 1 + counts.length := by
      have hhits := h.hits
      omega
    simp only [List.length_cons, List.range_succ, List.map_append, List.map_cons, List.map_nil]
    refine List.Perm.trans (List.Perm.cons _ h.results) ?_
    rw [hlast]
    exact (List.perm_append_singleton _ _).symm

end Tallied

namespace RowCall

variable {db : Database} {code : String}

/-- The clients of a row. -/
abbrev Clients (db : Database) := Pool RowCall Statement.Resp RepoAnswer (PostgresRepo db)

abbrev ClientTask (db : Database) := Pool.Task RowCall Statement.Resp RepoAnswer (PostgresRepo db)

/-- One move of the clients. -/
def step (code : String) : Clients db → Pool.Move RowCall Empty → Clients db :=
  Pool.step Statement.exec (fun q => (q.on code).task) (fun e => e.elim)

/-- The update of a task, if it has succeeded. -/
def okUpdate? (t : ClientTask db) : Option OkUpdate :=
  match t.request, t.rest with
  | .update _ targetUrl version, .done (.link (.ok link)) => some ⟨version, targetUrl, link⟩
  | _, _ => none

/-- The answer of a `record_hit` that has succeeded. -/
def okHit? (t : ClientTask db) : Option Nat :=
  match t.request, t.rest with
  | .recordHit, .done (.hits (.ok hits)) => some hits
  | _, _ => none

/-- The row is there and accounted for. -/
def NoneLost (code : String) (row₀ : LinkRow) (p : Clients db) : Prop :=
  ∃ row, p.state.links.find? code = some row ∧
    Tallied row₀ row (p.tasks.filterMap okUpdate?) (p.tasks.filterMap okHit?)

/-! ## what a statement counts for -/

/-- The update a statement has made. -/
def updated? (d : Pool.Deed Statement (PostgresRepo db)) : Option OkUpdate :=
  match d.call with
  | .updateWhereVersion now code targetUrl version =>
      match (d.before.updateWhereVersion now code targetUrl version).1 with
      | .ok (some row) => some ⟨version, targetUrl, row.toShortLink⟩
      | _ => none
  | _ => none

/-- The hit a statement has counted. -/
def counted? (d : Pool.Deed Statement (PostgresRepo db)) : Option Nat :=
  match d.call with
  | .recordHit code =>
      match (d.before.incrementHits code).1 with
      | .ok found => found
      | .error _ => none
  | _ => none

/-- The statements of the clients of a row. -/
inductive OnRow (code : String) : Statement → Prop where
  | update (now : SystemTime) (targetUrl : String) (version : Int64) :
      OnRow code (.updateWhereVersion now code targetUrl version)
  | select : OnRow code (.selectRow code)
  | hit : OnRow code (.recordHit code)

theorem only_task (q : RowCall) : Proc.Only (OnRow code) (q.on code).task := by
  cases q with
  | update now targetUrl version =>
      refine .call _ _ (.update now targetUrl version) (fun answer => ?_)
      cases answer with
      | error e => exact .done _
      | ok found =>
          cases found with
          | some row => exact .done _
          | none => exact .call _ _ .select (fun _ => .done _)
  | recordHit => exact .call _ _ .hit (fun _ => .done _)
  | get => exact .call _ _ .select (fun _ => .done _)
  | stats => exact .call _ _ .select (fun _ => .done _)

/-- A statement keeps the row accounted for. -/
theorem tallied_exec {row₀ row : LinkRow} {updates : List OkUpdate} {counts : List Nat}
    {st : Statement} (hst : OnRow code st) {r : PostgresRepo db} (hrow : r.links.find? code = some row)
    (h : Tallied row₀ row updates counts) (time : Nat) :
    ∃ row', (st.exec r).2.links.find? code = some row' ∧
      Tallied row₀ row' ((updated? ⟨time, st, r⟩).toList ++ updates)
        ((counted? ⟨time, st, r⟩).toList ++ counts) := by
  cases hst with
  | update now targetUrl version =>
      rcases PostgresRepo.updateWhereVersion_cases now code targetUrl version r with
        ⟨e, herror⟩ | ⟨hmissed, _⟩ | ⟨row', hrow', hv, hmax, hok, hfind⟩
      · have hnone : updated? ⟨time, .updateWhereVersion now code targetUrl version, r⟩ = none := by
          simp [updated?, herror]
        refine ⟨row, ?_, ?_⟩
        · simpa [Statement.exec, herror] using hrow
        · simpa [hnone, counted?] using h
      · have hnone : updated? ⟨time, .updateWhereVersion now code targetUrl version, r⟩ = none := by
          simp [updated?, hmissed]
        refine ⟨row, ?_, ?_⟩
        · simpa [Statement.exec, hmissed] using hrow
        · simpa [hnone, counted?] using h
      · obtain rfl : row = row' := Option.some.inj (hrow.symm.trans hrow')
        have hsome : updated? ⟨time, .updateWhereVersion now code targetUrl version, r⟩ =
            some ⟨version, targetUrl, (PostgresRepo.updatedRow db now targetUrl row).toShortLink⟩ := by
          simp [updated?, hok]
        refine ⟨_, (hfind code).trans (if_pos rfl), ?_⟩
        rw [hsome, ← hv]
        exact h.update hmax db now targetUrl
  | select => exact ⟨row, hrow, by simpa [updated?, counted?] using h⟩
  | hit =>
      obtain ⟨hres, hfind⟩ := PostgresRepo.find?_incrementHits hrow
      have hsome : counted? ⟨time, .recordHit code, r⟩ = some (row.hits + 1) := by
        simp [counted?, hres]
      refine ⟨_, (hfind code).trans (if_pos rfl), ?_⟩
      rw [hsome]
      exact h.hit

/-! ## tasks -/

theorem missed_eq_error (code : String) (answer : Except RepoError (Option LinkRow)) :
    ∃ e, RepoCall.missed code answer = .error e := by
  cases answer with
  | error e => exact ⟨e, rfl⟩
  | ok found => cases found <;> exact ⟨_, rfl⟩

section Tasks

variable {ds : List (Pool.Deed Statement (PostgresRepo db))} {rest : Proc Statement.Resp RepoAnswer}

/-- An update task has made an update exactly when it answers the link. -/
theorem filterMap_update {now : SystemTime} {targetUrl : String} {version : Int64}
    (h : Pool.Follows Statement.exec ((update now targetUrl version).on code).task ds rest)
    (startedAt : Nat) :
    ds.filterMap updated? = (okUpdate? ⟨.update now targetUrl version, rest, startedAt, ds⟩).toList ∧
      ds.filterMap counted? = [] := by
  rcases Pool.follows_call_iff.mp h with ⟨rfl, rfl⟩ | ⟨time, r, ds', rfl, hnext⟩
  · exact ⟨rfl, rfl⟩
  · change Pool.Follows Statement.exec (RepoAnswer.link <$>
      RepoCall.afterUpdate code (r.updateWhereVersion now code targetUrl version).1) ds' rest at hnext
    cases hout : (r.updateWhereVersion now code targetUrl version).1 with
    | error e =>
        rw [hout] at hnext
        obtain ⟨rfl, rfl⟩ := Pool.follows_done_iff.mp hnext
        simp [updated?, counted?, hout, okUpdate?]
    | ok found =>
        rw [hout] at hnext
        cases found with
        | some row =>
            obtain ⟨rfl, rfl⟩ := Pool.follows_done_iff.mp hnext
            simp [updated?, counted?, hout, okUpdate?]
        | none =>
            rcases Pool.follows_call_iff.mp hnext with ⟨rfl, rfl⟩ | ⟨time', r', ds'', rfl, hlast⟩
            · simp [updated?, counted?, hout, okUpdate?]
            · obtain ⟨rfl, rfl⟩ := Pool.follows_done_iff.mp hlast
              obtain ⟨e, he⟩ := missed_eq_error code (Statement.exec (.selectRow code) r').1
              simp [updated?, counted?, hout, okUpdate?, he]

/-- A hit task has counted a hit exactly when it answers the number. -/
theorem filterMap_recordHit (h : Pool.Follows Statement.exec (recordHit.on code).task ds rest)
    (startedAt : Nat) :
    ds.filterMap updated? = [] ∧
      ds.filterMap counted? = (okHit? ⟨.recordHit, rest, startedAt, ds⟩).toList := by
  rcases Pool.follows_call_iff.mp h with ⟨rfl, rfl⟩ | ⟨time, r, ds', rfl, hnext⟩
  · exact ⟨rfl, rfl⟩
  · change Pool.Follows Statement.exec
      (.done (.hits (RepoCall.expectRow code id (r.incrementHits code).1))) ds' rest at hnext
    obtain ⟨rfl, rfl⟩ := Pool.follows_done_iff.mp hnext
    cases hout : (r.incrementHits code).1 with
    | error e => simp [updated?, counted?, hout, okHit?, RepoCall.expectRow]
    | ok found =>
        cases found <;> simp [updated?, counted?, hout, okHit?, RepoCall.expectRow]

/-- A task that only reads has made no update and counted no hit. -/
theorem filterMap_read {f : Except RepoError (Option LinkRow) → RepoAnswer}
    (h : Pool.Follows Statement.exec (.call (.selectRow code) (fun row => .done (f row))) ds rest) :
    ds.filterMap updated? = [] ∧ ds.filterMap counted? = [] := by
  rcases Pool.follows_call_iff.mp h with ⟨rfl, rfl⟩ | ⟨time, r, ds', rfl, hnext⟩
  · exact ⟨rfl, rfl⟩
  · obtain ⟨rfl, _⟩ := Pool.follows_done_iff.mp hnext
    exact ⟨rfl, rfl⟩

/-- **What a task answers** is what it has done. -/
theorem filterMap_task {q : RowCall} (h : Pool.Follows Statement.exec (q.on code).task ds rest)
    (startedAt : Nat) :
    ds.filterMap updated? = (okUpdate? ⟨q, rest, startedAt, ds⟩).toList ∧
      ds.filterMap counted? = (okHit? ⟨q, rest, startedAt, ds⟩).toList := by
  cases q with
  | update now targetUrl version => exact filterMap_update h startedAt
  | recordHit => exact filterMap_recordHit h startedAt
  | get => exact filterMap_read h
  | stats => exact filterMap_read h

end Tasks

/-! ## schedules -/

/-- The row is accounted for by the statements. -/
def Accounted (code : String) (row₀ : LinkRow) (p : Clients db) : Prop :=
  ∃ row, p.state.links.find? code = some row ∧
    Tallied row₀ row (p.deeds.filterMap updated?) (p.deeds.filterMap counted?)

abbrev Sound (code : String) (p : Clients db) : Prop :=
  Pool.Sound Statement.exec (fun q : RowCall => (q.on code).task) (fun e : Empty => e.elim) p

theorem accounted_step {row₀ : LinkRow} {p : Clients db} (hsound : Sound code p)
    (h : Accounted code row₀ p) (m : Pool.Move RowCall Empty) : Accounted code row₀ (step code p m) := by
  cases m with
  | start q =>
      obtain ⟨row, hrow, htallied⟩ := h
      refine ⟨row, hrow, ?_⟩
      rw [step, Pool.deeds_start]
      exact htallied
  | env e => exact e.elim
  | advance i =>
      rw [step]
      rcases Pool.step_advance p i with hsame | ⟨t, c, k, ht, hr, hstep⟩
      · rw [hsame]
        exact h
      · obtain ⟨row, hrow, htallied⟩ := h
        have hfollows := hsound.follows t (List.mem_of_getElem? ht)
        have honly := (Pool.only_of_follows hfollows (only_task t.request)).1
        rw [hr] at honly
        cases honly with
        | call _ _ hc _ =>
            obtain ⟨row', hrow', htallied'⟩ := tallied_exec hc hrow htallied p.clock
            rw [hstep]
            exact ⟨row', hrow', htallied'.perm (Pool.filterMap_deeds_called ht updated?)
              (Pool.filterMap_deeds_called ht counted?)⟩

/-- **No lost update, no lost hit**: whatever the order of the statements, the row's
version, target and hits are accounted for by the calls that succeeded. -/
theorem noneLost_reach (code : String) (r : PostgresRepo db) (row₀ : LinkRow)
    (h : r.links.find? code = some row₀) (moves : List (Pool.Move RowCall Empty)) :
    NoneLost code row₀ (Run.reach (step code) (Pool.new r) moves) := by
  have hboth : ∀ (p : Clients db) (m : Pool.Move RowCall Empty),
      Sound code p ∧ Accounted code row₀ p → Sound code (step code p m) ∧ Accounted code row₀ (step code p m) :=
    fun p m ⟨hsound, haccounted⟩ => ⟨hsound.step m, accounted_step hsound haccounted m⟩
  have hstart : Sound code (Pool.new r) ∧ Accounted code row₀ (Pool.new r) :=
    ⟨Pool.sound_new r, row₀, h, .start row₀⟩
  obtain ⟨hsound, row, hrow, htallied⟩ := Run.invariant hboth hstart moves
  refine ⟨row, hrow, ?_⟩
  have htask := fun t ht => filterMap_task (hsound.follows t ht) t.startedAt
  rwa [Pool.filterMap_deeds (fun t ht => (htask t ht).1),
    Pool.filterMap_deeds (fun t ht => (htask t ht).2)] at htallied

/-- A database that compares texts by their characters, and that nobody lists. -/
def plainDb : Database := ⟨inferInstance, id, ⟨fun _ => "", fun _ => none⟩⟩

/-- The link of the table below. -/
def promoLink : ShortLink := .new .UNIX_EPOCH "promo2026" "https://example.com/"

/-- A table with one row. -/
def oneRow : PostgresRepo plainDb := (PostgresRepo.new.insert .UNIX_EPOCH promoLink).2

/-- Two updates that were given the same version, and a hit between their
statements. -/
theorem noneLost_reach_oneRow :
    NoneLost "promo2026" ((PostgresRepo.new : PostgresRepo plainDb).insertedRow .UNIX_EPOCH promoLink)
      (Run.reach (step "promo2026") (Pool.new oneRow)
        [.start (.update .UNIX_EPOCH "https://example.com/a" 1),
          .start (.update .UNIX_EPOCH "https://example.com/b" 1), .start .recordHit,
          .advance 1, .advance 2, .advance 0, .advance 0]) := by
  have hrow : oneRow.links.find? "promo2026" =
      some ((PostgresRepo.new : PostgresRepo plainDb).insertedRow .UNIX_EPOCH promoLink) :=
    (PostgresRepo.find?_insert .UNIX_EPOCH rfl rfl).2 "promo2026"
  exact noneLost_reach "promo2026" oneRow _ hrow _

end RowCall

end Shorty
