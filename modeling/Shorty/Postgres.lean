import Mathlib.Data.Prod.Lex
import Mathlib.Data.List.Infix
import Mathlib.Data.String.Basic
import Shorty.Lib.Keyed
import Shorty.Lib.Paging
import Shorty.Domain

/-!
# Shorty.Postgres

The PostgreSQL link store (`crates/storage/src/postgres.rs` and the migration
that creates the table `links`).  A statement is atomic, so a method that issues
one statement is one state transition; `update` issues a second one only when the
first has changed nothing.

The database is taken to be reachable, so the only statements that fail are those that
a constraint of the table, the range of a column or the encoding of a text refuses.  A
purge hides its failure from its caller, and is modelled with it.
-/

namespace Shorty

/-- What the store uses of chrono: printing and parsing RFC 3339 timestamps. -/
structure Chrono where
  toRfc3339 : SystemTime → String
  parseFromRfc3339 : String → Option SystemTime

/-- What differs from one deployment to the next: the order the database gives
texts, its clock, and chrono. -/
structure Database where
  collation : LinearOrder String
  /-- What `now()` is in the database while the clock of the service shows an instant. -/
  clock : SystemTime → SystemTime
  chrono : Chrono

/-- A text under the order of a database. -/
structure Collated (db : Database) where
  text : String

namespace Collated

variable {db : Database}

theorem text_injective : Function.Injective (text : Collated db → String) := by
  rintro ⟨a⟩ ⟨b⟩ h
  cases h
  rfl

instance : LinearOrder (Collated db) :=
  letI := db.collation
  LinearOrder.lift' text text_injective

end Collated

/-! ## errors -/

/-- What sqlx reports. -/
inductive SqlError where
  | rowNotFound
  | database (code message : String)
  | poolTimedOut
  | poolClosed
  | other (message : String)

/-- Whether a text contains another. -/
def containsText (text part : String) : Bool := decide (part.toList <:+: text.toList)

def mapSqlError : SqlError → RepoError
  | .rowNotFound => .notFound "not found"
  | .database code message =>
      if code = "23505" then
        if containsText message "code" then .codeTaken "code already exists"
        else .codeTaken "duplicate value"
      else .internal message
  | .poolTimedOut => .unavailable
  | .poolClosed => .unavailable
  | .other message => .internal message

namespace SqlError

/-- Two rows with one code. -/
def duplicateCode : SqlError :=
  .database "23505" "duplicate key value violates unique constraint \"links_code_key\""

/-- A row that fails a `CHECK` of the table. -/
def checkViolation : SqlError :=
  .database "23514" "new row for relation \"links\" violates check constraint"

/-- A text with a NUL character. -/
def badEncoding : SqlError :=
  .database "22021" "invalid byte sequence for encoding \"UTF8\": 0x00"

/-- A version past the last `BIGINT`. -/
def outOfRange : SqlError := .database "22003" "bigint out of range"

/-- A `LIMIT` below zero. -/
def negativeLimit : SqlError := .database "2201W" "LIMIT must not be negative"

end SqlError

/-! ## the table -/

/-- A row of the table `links`. -/
structure LinkRow where
  id : Uuid
  code : String
  targetUrl : String
  createdAt : SystemTime
  updatedAt : SystemTime
  expiresAt : Option SystemTime
  version : Int64
  hits : Nat

/-- Whether PostgreSQL can hold a text. -/
def isText (s : String) : Bool := decide (Char.ofNat 0 ∉ s.toList)

/-- The checks `code_length` and `target_url_not_empty`. -/
def passesChecks (code targetUrl : String) : Bool :=
  decide (4 ≤ code.length ∧ code.length ≤ 32 ∧ 0 < targetUrl.length)

namespace LinkRow

def toShortLink (row : LinkRow) : ShortLink where
  id := some row.id
  code := row.code
  targetUrl := row.targetUrl
  createdAt := row.createdAt
  updatedAt := row.updatedAt
  expiresAt := row.expiresAt
  version := row.version

def toLinkStats (row : LinkRow) : LinkStats := ⟨row.toShortLink, row.hits⟩

/-- What a listing is ordered by, descending: creation time, then code. -/
def listKey (db : Database) (row : LinkRow) : SystemTime ×ₗ Collated db :=
  toLex (row.createdAt, ⟨row.code⟩)

/-- What the table guarantees of its rows. -/
structure WellFormed (row : LinkRow) : Prop where
  text : isText row.code = true ∧ isText row.targetUrl = true
  checks : passesChecks row.code row.targetUrl = true
  createdAt_micros : row.createdAt.ns % 1000 = 0
  expiresAt_micros : ∀ e ∈ row.expiresAt, e.ns % 1000 = 0

end LinkRow

/-- The PostgreSQL store: the rows by code, and the identifier of the next row. -/
structure PostgresRepo (db : Database) where
  links : Keyed LinkRow.code
  nextId : Uuid
  wellFormed : ∀ row ∈ links.items, row.WellFormed

namespace PostgresRepo

variable {db : Database}

def new : PostgresRepo db := ⟨Keyed.empty, 0, by simp [Keyed.empty]⟩

/-- `now()`, to the precision of a column. -/
def dbNow (db : Database) (now : SystemTime) : SystemTime := (db.clock now).truncMicros

/-- `expires_at` as `insert` hands it to the database: whole seconds, and the
time of the insert where chrono cannot represent them. -/
def expiresColumn (now t : SystemTime) : SystemTime :=
  ((SystemTime.fromTimestamp t.secsSinceEpoch).getD now).truncMicros

/-- The row `INSERT` adds: `created_at` and `updated_at` are the database's own
clock, version and hits the columns' defaults. -/
def insertedRow (r : PostgresRepo db) (now : SystemTime) (link : ShortLink) : LinkRow where
  id := r.nextId
  code := link.code
  targetUrl := link.targetUrl
  createdAt := dbNow db now
  updatedAt := dbNow db now
  expiresAt := link.expiresAt.map (expiresColumn now)
  version := 1
  hits := 0

theorem wellFormed_insertedRow (r : PostgresRepo db) (now : SystemTime) (link : ShortLink)
    (ht : isText link.code = true ∧ isText link.targetUrl = true)
    (hc : passesChecks link.code link.targetUrl = true) : (r.insertedRow now link).WellFormed where
  text := ht
  checks := hc
  createdAt_micros := SystemTime.truncMicros_ns_mod _
  expiresAt_micros := by
    intro e he
    obtain ⟨t, _, rfl⟩ := Option.mem_map.mp he
    exact SystemTime.truncMicros_ns_mod _

def insert (r : PostgresRepo db) (now : SystemTime) (link : ShortLink) :
    Except RepoError Unit × PostgresRepo db :=
  if ht : isText link.code = true ∧ isText link.targetUrl = true then
    if hc : passesChecks link.code link.targetUrl = true then
      match r.links.find? link.code with
      | some _ => (.error (mapSqlError .duplicateCode), r)
      | none =>
          (.ok (),
            { links := r.links.put (r.insertedRow now link)
              nextId := r.nextId + 1
              wellFormed := fun row hrow => by
                rcases Keyed.mem_put hrow with rfl | hrow
                · exact wellFormed_insertedRow r now link ht hc
                · exact r.wellFormed row hrow })
    else (.error (mapSqlError .checkViolation), r)
  else (.error (mapSqlError .badEncoding), r)

/-- `SELECT … WHERE code = $1`. -/
def selectRow (r : PostgresRepo db) (code : String) : Except RepoError (Option LinkRow) :=
  if isText code then .ok (r.links.find? code) else .error (mapSqlError .badEncoding)

def get (r : PostgresRepo db) (code : String) : Except RepoError ShortLink := do
  match ← r.selectRow code with
  | some row => return row.toShortLink
  | none => throw (.notFound code)

def getStatsInternal (r : PostgresRepo db) (code : String) : Except RepoError LinkStats := do
  match ← r.selectRow code with
  | some row => return row.toLinkStats
  | none => throw (.notFound code)

def stats (r : PostgresRepo db) (code : String) : Except RepoError LinkStats :=
  r.getStatsInternal code

/-- `DELETE` of the rows a test selects. -/
def deleteWhere (r : PostgresRepo db) (p : LinkRow → Bool) : PostgresRepo db :=
  { r with
    links := r.links.filter (fun row => !p row)
    wellFormed := fun row hrow => r.wellFormed row (Keyed.mem_filter.mp hrow).1 }

def remove (r : PostgresRepo db) (code : String) : Except RepoError Unit × PostgresRepo db :=
  match r.selectRow code with
  | .error e => (.error e, r)
  | .ok none => (.error (.notFound code), r)
  | .ok (some _) => (.ok (), r.deleteWhere (fun row => row.code = code))

/-- `UPDATE` of the row of a code, its code, target, creation and expiry aside. -/
def updateRow (r : PostgresRepo db) (code : String) (f : LinkRow → LinkRow)
    (hcode : ∀ row, (f row).code = row.code)
    (hf : ∀ row, row.WellFormed → (f row).WellFormed) : PostgresRepo db :=
  { r with
    links := r.links.modify code f hcode
    wellFormed := fun row hrow => by
      rcases Keyed.mem_modify hrow with hrow | ⟨row', hrow', _, rfl⟩
      · exact r.wellFormed row hrow
      · exact hf row' (r.wellFormed row' hrow') }

/-- `SET hits = hits + 1`. -/
def hitRow (row : LinkRow) : LinkRow := { row with hits := row.hits + 1 }

def recordHit (r : PostgresRepo db) (code : String) : Except RepoError Nat × PostgresRepo db :=
  match r.selectRow code with
  | .error e => (.error e, r)
  | .ok none => (.error (.notFound code), r)
  | .ok (some row) =>
      (.ok (row.hits + 1), r.updateRow code hitRow (fun _ => rfl)
        (fun _ h => ⟨h.text, h.checks, h.createdAt_micros, h.expiresAt_micros⟩))

/-- `SET target_url = $1, updated_at = now(), version = version + 1`, where the version
can be counted on. -/
def updatedRow (db : Database) (now : SystemTime) (targetUrl : String) (row : LinkRow) : LinkRow :=
  { row with targetUrl := targetUrl, updatedAt := dbNow db now, version := row.version + 1 }

theorem wellFormed_updatedRow {now : SystemTime} {targetUrl : String} {row : LinkRow}
    (ht : isText targetUrl = true) (hc : 0 < targetUrl.length) (h : row.WellFormed) :
    (updatedRow db now targetUrl row).WellFormed where
  text := ⟨h.text.1, ht⟩
  checks := by
    obtain ⟨hmin, hmax, _⟩ := of_decide_eq_true h.checks
    exact decide_eq_true ⟨hmin, hmax, hc⟩
  createdAt_micros := h.createdAt_micros
  expiresAt_micros := h.expiresAt_micros

/-- The first statement of `update`: `UPDATE … WHERE code = $2 AND version = $3
RETURNING …`. -/
def updateWhereVersion (r : PostgresRepo db) (now : SystemTime) (code targetUrl : String)
    (version : Int64) : Except RepoError (Option LinkRow) × PostgresRepo db :=
  if ht : isText targetUrl = true ∧ isText code = true then
    match r.links.find? code with
    | none => (.ok none, r)
    | some row =>
        if row.version = version then
          if row.version = Int64.maxValue then (.error (mapSqlError .outOfRange), r)
          else if hc : 0 < targetUrl.length then
            (.ok (some (updatedRow db now targetUrl row)),
              r.updateRow code (updatedRow db now targetUrl) (fun _ => rfl)
                (fun _ h => wellFormed_updatedRow ht.1 hc h))
          else (.error (mapSqlError .checkViolation), r)
        else (.ok none, r)
  else (.error (mapSqlError .badEncoding), r)

/-- The second statement, issued when the first has matched no row, tells a
conflict from a missing link. -/
def updateMissed (r : PostgresRepo db) (code : String) : Except RepoError ShortLink := do
  match ← r.selectRow code with
  | some _ => throw .versionConflict
  | none => throw (.notFound code)

def update (r : PostgresRepo db) (now : SystemTime) (code targetUrl : String) (version : Int64) :
    Except RepoError ShortLink × PostgresRepo db :=
  match r.updateWhereVersion now code targetUrl version with
  | (.error e, r') => (.error e, r')
  | (.ok (some row), r') => (.ok row.toShortLink, r')
  | (.ok none, r') => (r'.updateMissed code, r')

/-- The bound a listing cursor stands for.  A timestamp that does not parse is
read as the present. -/
def listBound (now : SystemTime) (cursor : String × String) : SystemTime ×ₗ Collated db :=
  toLex (((db.chrono.parseFromRfc3339 cursor.1).getD now).truncMicros, ⟨cursor.2⟩)

def list (r : PostgresRepo db) (now : SystemTime) (limit : Nat) (cursor : Option (String × String)) :
    Except RepoError ListPage :=
  if cursor.all (fun c => isText c.2) then
    if limit < 2 ^ 63 then
      let rows := Paging.page (LinkRow.listKey db) limit (cursor.map (listBound now)) r.links.items
      let links := rows.map LinkRow.toShortLink
      .ok (links, links.getLast?.map
        (fun link => (db.chrono.toRfc3339 link.createdAt, link.code)))
    else .error (mapSqlError .negativeLimit)
  else .error (mapSqlError .badEncoding)

/-- No two rows are at one place of the listing. -/
theorem nodup_listKey (r : PostgresRepo db) :
    (r.links.items.map (LinkRow.listKey db)).Nodup := by
  have hcode : r.links.items.map LinkRow.code =
      (r.links.items.map (LinkRow.listKey db)).map (fun k => (ofLex k).2.text) := by
    rw [List.map_map]
    rfl
  have hnodup := r.links.nodup
  rw [hcode] at hnodup
  exact hnodup.of_map _

/-- Whether `DELETE … WHERE expires_at IS NOT NULL AND expires_at <= $1` selects
a row. -/
def expiredRow (now : SystemTime) (row : LinkRow) : Bool :=
  row.expiresAt.any (fun e => decide (e ≤ now.truncMicros))

/-- The `DELETE` of a purge; `fault` is why it fails, if it does. -/
def deleteExpired (r : PostgresRepo db) (now : SystemTime) (fault : Option SqlError) :
    Except SqlError Nat × PostgresRepo db :=
  match fault with
  | some err => (.error err, r)
  | none => (.ok (r.links.items.filter (expiredRow now)).length, r.deleteWhere (expiredRow now))

/-- A purge that fails is logged, and answers that it has removed nothing. -/
def purgeExpired (r : PostgresRepo db) (now : SystemTime) (fault : Option SqlError) :
    Nat × PostgresRepo db :=
  match r.deleteExpired now fault with
  | (.ok rowsAffected, r') => (rowsAffected, r')
  | (.error _, r') => (0, r')

end PostgresRepo

/-- The store behind the trait, with a database that can be reached. -/
instance (db : Database) : LinkRepository (PostgresRepo db) where
  insert now link r := r.insert now link
  get code r := (r.get code, r)
  update now code targetUrl version r := r.update now code targetUrl version
  remove code r := r.remove code
  recordHit _ code r := r.recordHit code
  stats code r := (r.stats code, r)
  list now limit cursor r := (some (r.list now limit cursor), r)
  purgeExpired now r := r.purgeExpired now none

end Shorty
