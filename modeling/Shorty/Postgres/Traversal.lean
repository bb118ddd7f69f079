import Shorty.Lib.Rfc3339
import Shorty.Lib.Run
import Shorty.Postgres.Statements
import Shorty.Api.Spec

/-!
# Shorty.Postgres.Traversal

A client walks through the listing of the HTTP API page by page, following each
`next_cursor` it is given, while statements of other clients change the table.
A page resumes below the key of the row its cursor names, whether or not that row
is still there, and neither the key of a row nor its identifier ever changes; so
the walk is right whatever happens in between.

The cursor travels as RFC 3339 text in JSON in base64.  The client passes it back
URL-encoded and the query extractor undoes that, so here it comes back as it was.
-/

namespace Shorty

/-- RFC 3339 text of an instant of whole microseconds parses to the instant. -/
def Chrono.Exact (chrono : Chrono) : Prop :=
  ∀ t : SystemTime, t.ns % 1000 = 0 → chrono.parseFromRfc3339 (chrono.toRfc3339 t) = some t

/-- base64 and JSON decode what they have encoded. -/
structure Crates.RoundTrip (crates : Crates) : Prop where
  base64 : ∀ bytes, crates.base64Decode (crates.base64Encode bytes) = some bytes
  json : ∀ cursor, crates.jsonFromStr (crates.jsonToString cursor) = some cursor

namespace PostgresRepo

variable {db : Database} {r : PostgresRepo db}

/-- `id` is the primary key, and identifiers yet to come are fresh. -/
structure PrimaryKey (r : PostgresRepo db) : Prop where
  unique : ∀ row ∈ r.links.items, ∀ row' ∈ r.links.items, row.id = row'.id → row = row'
  fresh : ∀ row ∈ r.links.items, row.id < r.nextId

/-- What stays of a row as long as it is there. -/
def SameRow (row row' : LinkRow) : Prop :=
  row'.id = row.id ∧ row'.code = row.code ∧ row'.createdAt = row.createdAt

theorem SameRow.listKey_eq {row row' : LinkRow} (h : SameRow row row') :
    row'.listKey db = row.listKey db := by
  simp [LinkRow.listKey, h.2.1, h.2.2]

theorem insert_cases (now : SystemTime) (link : ShortLink) (r : PostgresRepo db) :
    (r.insert now link).2 = r ∨ (r.insert now link).2.nextId = r.nextId + 1 := by
  unfold insert
  split
  · split
    · split
      · exact Or.inl rfl
      · exact Or.inr rfl
    · exact Or.inl rfl
  · exact Or.inl rfl

theorem nextId_exec_le (st : Statement) (r : PostgresRepo db) : r.nextId ≤ (st.exec r).2.nextId := by
  cases st with
  | insert now link =>
      show r.nextId ≤ (r.insert now link).2.nextId
      rcases insert_cases now link r with h | h
      · rw [h]
      · rw [h]
        exact Nat.le_succ r.nextId
  | updateWhereVersion now code targetUrl version =>
      show r.nextId ≤ (r.updateWhereVersion now code targetUrl version).2.nextId
      unfold updateWhereVersion
      split
      · split
        · exact Nat.le_refl _
        · split
          · split
            · exact Nat.le_refl _
            · split <;> exact Nat.le_refl _
          · exact Nat.le_refl _
      · exact Nat.le_refl _
  | delete code =>
      show r.nextId ≤ (r.deleteRow code).2.nextId
      unfold deleteRow
      split <;> exact Nat.le_refl _
  | recordHit code =>
      show r.nextId ≤ (r.incrementHits code).2.nextId
      unfold incrementHits
      split <;> exact Nat.le_refl _
  | selectRow code => exact Nat.le_refl _
  | selectPage now limit cursor => exact Nat.le_refl _
  | deleteExpired now fault => cases fault <;> exact Nat.le_refl _

/-- A row that is there after a statement was there before, or has a fresh
identifier. -/
theorem origin_exec {st : Statement} {row : LinkRow} (h : row ∈ (st.exec r).2.links.items) :
    (∃ row₀ ∈ r.links.items, SameRow row₀ row) ∨
      (row.id = r.nextId ∧ r.nextId < (st.exec r).2.nextId ∧
        ∃ now link, st = .insert now link ∧ row = r.insertedRow now link) := by
  have hfind := Keyed.find?_of_mem h
  have hchange := rowChange_exec st r row.code
  rw [hfind] at hchange
  generalize hbefore : r.links.find? row.code = before at hchange
  cases hchange with
  | same st row' => exact Or.inl ⟨row, Keyed.mem_of_find? hbefore, rfl, rfl, rfl⟩
  | inserted now link hcode =>
      refine Or.inr ⟨rfl, ?_, now, link, rfl, rfl⟩
      rcases insert_cases now link r with hsame | hnext
      · have hexec : ((Statement.insert now link).exec r).2 = r := hsame
        rw [hexec, hbefore] at hfind
        cases hfind
      · have hexec : ((Statement.insert now link).exec r).2.nextId = r.nextId + 1 := hnext
        rw [hexec]
        exact Nat.lt_succ_self r.nextId
  | updated now targetUrl row₀ =>
      exact Or.inl ⟨row₀, Keyed.mem_of_find? hbefore, rfl, rfl, rfl⟩
  | hit row₀ => exact Or.inl ⟨row₀, Keyed.mem_of_find? hbefore, rfl, rfl, rfl⟩

theorem primaryKey_new : (PostgresRepo.new : PostgresRepo db).PrimaryKey :=
  ⟨by simp [PostgresRepo.new, Keyed.empty], by simp [PostgresRepo.new, Keyed.empty]⟩

/-- Every statement keeps the primary key. -/
theorem PrimaryKey.exec (h : r.PrimaryKey) (st : Statement) : (st.exec r).2.PrimaryKey where
  unique := by
    intro row hrow row' hrow' hid
    rcases origin_exec hrow with ⟨row₀, hrow₀, hsame⟩ | ⟨hnew, _, now, link, hst, hrowEq⟩
    · rcases origin_exec hrow' with ⟨row₁, hrow₁, hsame'⟩ | ⟨hnew', _⟩
      · have heq : row₀ = row₁ := h.unique row₀ hrow₀ row₁ hrow₁ (by grind [SameRow])
        exact Keyed.eq_of_key_eq _ hrow hrow' (by grind [SameRow])
      · have hlt := h.fresh row₀ hrow₀
        grind [SameRow]
    · rcases origin_exec hrow' with ⟨row₁, hrow₁, hsame'⟩ | ⟨_, _, now', link', hst', hrowEq'⟩
      · have hlt := h.fresh row₁ hrow₁
        grind [SameRow]
      · rw [hst] at hst'
        cases hst'
        rw [hrowEq, hrowEq']
  fresh := by
    intro row hrow
    rcases origin_exec hrow with ⟨row₀, hrow₀, hsame⟩ | ⟨hnew, hlt, _⟩
    · rw [hsame.1]
      exact Nat.lt_of_lt_of_le (h.fresh row₀ hrow₀) (nextId_exec_le st r)
    · rw [hnew]
      exact hlt

end PostgresRepo

/-- A walk through the listing of a service. -/
structure RowTraversal (db : Database) where
  app : AppState (PostgresRepo db)
  /-- Whether the row with an identifier has been there ever since the walk began. -/
  kept : Uuid → Bool
  cursor : Option String
  /-- The rows returned so far. -/
  returned : List LinkRow
  /-- Whether an empty page was reached. -/
  finished : Bool

/-- What happens next: a statement of another client, or the walk fetches a page. -/
inductive RowTraversalStep where
  | statement (st : Statement)
  | fetch (now : SystemTime)

namespace RowTraversal

open PostgresRepo (PrimaryKey SameRow)

variable {db : Database} {crates : Crates} {limit : Option String}

def hasRow (r : PostgresRepo db) (id : Uuid) : Bool := r.links.items.any (fun row => row.id = id)

/-- A walk about to begin. -/
def start (s : AppState (PostgresRepo db)) : RowTraversal db where
  app := s
  kept := hasRow s.repo
  cursor := none
  returned := []
  finished := false

/-- The walk after a statement of another client. -/
def change (t : RowTraversal db) (st : Statement) : RowTraversal db :=
  { t with
    app := { t.app with repo := (st.exec t.app.repo).2 }
    kept := fun id => t.kept id && hasRow (st.exec t.app.repo).2 id }

/-- The walk after a response.  The rows of a page are the rows of its codes. -/
def turn (t : RowTraversal db) : Except (Failure AppError) Response → RowTraversal db
  | .ok ⟨_, _, .links page⟩ =>
      if page.links = [] then { t with finished := true }
      else { t with
        cursor := page.nextCursor
        returned := t.returned ++ page.links.filterMap (fun l => t.app.repo.links.find? l.code) }
  | _ => t

def step (crates : Crates) (limit : Option String) (t : RowTraversal db) :
    RowTraversalStep → RowTraversal db
  | .statement st => t.change st
  | .fetch now =>
      if t.finished then t else t.turn ((Api.listLinks crates now limit t.cursor).run t.app).1

/-- The row the walk resumes below. -/
def last (t : RowTraversal db) : Option LinkRow := t.returned.getLast?

/-- No row was returned twice, the rows came in descending order, and a walk that
reached an empty page has returned every row that was there throughout. -/
structure Exact (t : RowTraversal db) : Prop where
  once : (t.returned.map LinkRow.id).Nodup
  descending : t.returned.Pairwise (fun row row' => row'.listKey db < row.listKey db)
  complete : t.finished = true → ∀ id, t.kept id = true → id ∈ t.returned.map LinkRow.id

/-- The cursor the API makes of a row. -/
def cursorOf (db : Database) (crates : Crates) (row : LinkRow) : String :=
  Api.encodeCursor crates (db.chrono.toRfc3339 row.createdAt, row.code)

/-- What a walk has done so far. -/
structure Placed (crates : Crates) (t : RowTraversal db) : Prop where
  key : t.app.repo.PrimaryKey
  cursor_eq : t.cursor = t.last.map (cursorOf db crates)
  wellFormed : ∀ row ∈ t.returned, row.WellFormed
  once : (t.returned.map LinkRow.id).Nodup
  descending : t.returned.Pairwise (fun row row' => row'.listKey db < row.listKey db)
  /-- A returned row that is still there has the key it had. -/
  known : ∀ row ∈ t.returned, row.id < t.app.repo.nextId ∧
    ∀ row' ∈ t.app.repo.links.items, row'.id = row.id → SameRow row row'
  /-- A row that was there throughout was returned or lies ahead. -/
  ahead : ∀ id, t.kept id = true → ∃ row ∈ t.app.repo.links.items, row.id = id ∧
    (id ∈ t.returned.map LinkRow.id ∨
      t.finished = false ∧
        Paging.below (LinkRow.listKey db) (t.last.map (LinkRow.listKey db)) row = true)

theorem Placed.exact {t : RowTraversal db} (h : Placed crates t) : Exact t where
  once := h.once
  descending := h.descending
  complete := by
    intro hfin id hkept
    obtain ⟨_, _, _, hseen | ⟨hmore, _⟩⟩ := h.ahead id hkept
    · exact hseen
    · simp [hfin] at hmore

theorem placed_start {s : AppState (PostgresRepo db)} (hkey : s.repo.PrimaryKey) :
    Placed crates (start s) where
  key := hkey
  cursor_eq := rfl
  wellFormed := by simp [start]
  once := List.nodup_nil
  descending := List.Pairwise.nil
  known := by simp [start]
  ahead := by
    intro id hkept
    obtain ⟨row, hrow, hid⟩ := List.any_eq_true.mp hkept
    exact ⟨row, hrow, of_decide_eq_true hid, Or.inr ⟨rfl, rfl⟩⟩

/-! ## a statement of another client -/

variable {t : RowTraversal db}

theorem placed_change (h : Placed crates t) (st : Statement) : Placed crates (t.change st) where
  key := h.key.exec st
  cursor_eq := h.cursor_eq
  wellFormed := h.wellFormed
  once := h.once
  descending := h.descending
  known := by
    intro row hrow
    obtain ⟨hlt, hknown⟩ := h.known row hrow
    refine ⟨Nat.lt_of_lt_of_le hlt (PostgresRepo.nextId_exec_le st _), fun row' hrow' hid => ?_⟩
    rcases PostgresRepo.origin_exec hrow' with ⟨row₀, hrow₀, hsame⟩ | ⟨hnew, _⟩
    · have hsame₀ := hknown row₀ hrow₀ (hsame.1.symm.trans hid)
      grind [SameRow]
    · have heq : row.id = t.app.repo.nextId := hid.symm.trans hnew
      exact absurd (heq ▸ hlt) (Nat.lt_irrefl _)
  ahead := by
    intro id hkept
    obtain ⟨hkept, hthere⟩ := Bool.and_eq_true_iff.mp hkept
    obtain ⟨row', hrow', hid'⟩ := List.any_eq_true.mp hthere
    have hid' : row'.id = id := of_decide_eq_true hid'
    obtain ⟨row, hrow, hid, hplace⟩ := h.ahead id hkept
    refine ⟨row', hrow', hid', ?_⟩
    rcases PostgresRepo.origin_exec hrow' with ⟨row₀, hrow₀, hsame⟩ | ⟨hnew, _⟩
    · have heq : row₀ = row := h.key.unique row₀ hrow₀ row hrow (by grind [SameRow])
      subst heq
      rw [Paging.below, hsame.listKey_eq]
      exact hplace
    · have hlt := h.key.fresh row hrow
      have heq : row.id = t.app.repo.nextId := by rw [hid, ← hid', hnew]
      exact absurd (heq ▸ hlt) (Nat.lt_irrefl _)

/-! ## a page -/

theorem truncMicros_of_mod {u : SystemTime} (h : u.ns % 1000 = 0) : u.truncMicros = u := by
  apply SystemTime.ns_injective
  simp [SystemTime.truncMicros, h]

/-- The bound a cursor stands for is the key of the row it names. -/
theorem listBound_cursor (hchrono : db.chrono.Exact) (now : SystemTime) {row : LinkRow}
    (h : row.WellFormed) :
    PostgresRepo.listBound now (db.chrono.toRfc3339 row.createdAt, row.code) = row.listKey db := by
  unfold PostgresRepo.listBound LinkRow.listKey
  rw [hchrono row.createdAt h.createdAt_micros, Option.getD_some,
    truncMicros_of_mod h.createdAt_micros]

/-- The rows of the page a walk fetches next. -/
def nextPage (limit : Option String) (t : RowTraversal db) : List LinkRow :=
  Paging.page (LinkRow.listKey db) (Api.listLimit limit) (t.last.map (LinkRow.listKey db))
    t.app.repo.links.items

theorem list_eq (hcrates : crates.RoundTrip) (hchrono : db.chrono.Exact) (h : Placed crates t)
    (limit : Option String) (now : SystemTime) :
    t.app.repo.list now (Api.listLimit limit) (t.cursor.bind (Api.decodeCursor crates)) =
      .ok ((t.nextPage limit).map LinkRow.toShortLink,
        (t.nextPage limit).getLast?.map (fun row => (db.chrono.toRfc3339 row.createdAt, row.code))) := by
  have hlimit : Api.listLimit limit < 2 ^ 63 := by
    unfold Api.listLimit
    omega
  have hcursor : t.cursor.bind (Api.decodeCursor crates) =
      t.last.map (fun row => (db.chrono.toRfc3339 row.createdAt, row.code)) := by
    rw [h.cursor_eq]
    cases t.last with
    | none => rfl
    | some row => exact Api.decodeCursor_encodeCursor hcrates.base64 (hcrates.json _)
  have hlast : ∀ row ∈ t.last, row.WellFormed := fun row hrow =>
    h.wellFormed row (List.mem_of_getLast? hrow)
  have hbound : (t.last.map (fun row => (db.chrono.toRfc3339 row.createdAt, row.code))).map
      (PostgresRepo.listBound now) = t.last.map (LinkRow.listKey db) := by
    rw [Option.map_map]
    refine Option.map_congr (fun row hrow => ?_)
    exact listBound_cursor hchrono now (hlast row hrow)
  have htext : (t.last.map (fun row => (db.chrono.toRfc3339 row.createdAt, row.code))).all
      (fun c => isText c.2) = true := by
    cases hrow : t.last with
    | none => rfl
    | some row => exact (hlast row hrow).text.1
  rw [hcursor, PostgresRepo.list, if_pos htext, if_pos hlimit, hbound]
  simp only [List.getLast?_map, Option.map_map]
  rfl

/-- The response to a fetch. -/
theorem run_fetch (hcrates : crates.RoundTrip) (hchrono : db.chrono.Exact) (h : Placed crates t)
    (limit : Option String) (now : SystemTime) :
    ((Api.listLinks crates now limit t.cursor).run t.app).1 = .ok (.ok (.links
      { links := (t.nextPage limit).map (fun row => LinkResponse.ofShortLink row.toShortLink)
        nextCursor := (t.nextPage limit).getLast?.map (cursorOf db crates) })) := by
  have hlist : (LinkRepository.list now (Api.listLimit limit)
      (t.cursor.bind (Api.decodeCursor crates)) t.app.repo).1 =
        some (.ok ((t.nextPage limit).map LinkRow.toShortLink, (t.nextPage limit).getLast?.map
          (fun row => (db.chrono.toRfc3339 row.createdAt, row.code)))) :=
    congrArg some (list_eq hcrates hchrono h limit now)
  rw [Api.run_listLinks, hlist, Api.pageAnswer, List.map_map, Option.map_map]
  rfl

/-- The walk after a page: it ends, or goes on behind the page's last row. -/
theorem turn_page (page : List LinkRow) (next : Option String)
    (hpage : ∀ row ∈ page, row ∈ t.app.repo.links.items) :
    t.turn (.ok (.ok (.links
      ⟨page.map (fun row => LinkResponse.ofShortLink row.toShortLink), next⟩))) =
        if page = [] then { t with finished := true }
        else { t with cursor := next, returned := t.returned ++ page } := by
  have hrows : (page.map (fun row => LinkResponse.ofShortLink row.toShortLink)).filterMap
      (fun l => t.app.repo.links.find? l.code) = page := by
    rw [List.filterMap_map]
    have hfind : ∀ row ∈ page,
        ((fun l => t.app.repo.links.find? l.code) ∘
          fun row => LinkResponse.ofShortLink row.toShortLink) row = some row := by
      intro row hrow
      exact Keyed.find?_of_mem (hpage row hrow)
    rw [List.filterMap_congr hfind, List.filterMap_some]
  simp only [turn, Response.ok, List.map_eq_nil_iff, hrows]

theorem last_append {page : List LinkRow} (hne : page ≠ []) (next : Option String) :
    ({ t with cursor := next, returned := t.returned ++ page } : RowTraversal db).last =
      page.getLast? :=
  List.getLast?_append_of_ne_nil _ hne

/-- An empty page means that nothing was left out. -/
theorem placed_finish (hl : 1 ≤ Api.listLimit limit) (h : Placed crates t)
    (hnil : t.nextPage limit = []) : Placed crates { t with finished := true } where
  key := h.key
  cursor_eq := h.cursor_eq
  wellFormed := h.wellFormed
  once := h.once
  descending := h.descending
  known := h.known
  ahead := by
    intro id hkept
    obtain ⟨row, hrow, hid, hseen | ⟨_, hb⟩⟩ := h.ahead id hkept
    · exact ⟨row, hrow, hid, Or.inl hseen⟩
    · exact absurd hb (Paging.not_below_of_page_eq_nil hl (PostgresRepo.nodup_listKey _) hnil hrow)

/-- A row of the next page was not returned before: it has the key it had, which is
below every key returned before. -/
theorem nodup_id_append (h : Placed crates t) :
    ((t.returned ++ t.nextPage limit).map LinkRow.id).Nodup := by
  have hrows : ∀ row ∈ t.nextPage limit, row ∈ t.app.repo.links.items :=
    fun _ hrow => Paging.mem_of_mem_page hrow
  have hpw : (t.nextPage limit).Pairwise (fun row row' => row'.listKey db < row.listKey db) :=
    Paging.pairwise_page (PostgresRepo.nodup_listKey t.app.repo)
  have hdistinct : (t.nextPage limit).Nodup := hpw.imp (fun {a b} hlt (heq : a = b) =>
    lt_irrefl _ (heq ▸ hlt))
  rw [List.map_append, List.nodup_append]
  refine ⟨h.once, hdistinct.map_on (fun a ha b hb => h.key.unique a (hrows a ha) b (hrows b hb)), ?_⟩
  intro id hid id' hid' heq
  obtain ⟨row, hrow, rfl⟩ := List.mem_map.mp hid
  obtain ⟨row', hrow', rfl⟩ := List.mem_map.mp hid'
  have hsame := (h.known row hrow).2 row' (hrows row' hrow') heq.symm
  have hlt : row'.listKey db < row.listKey db :=
    Paging.lt_of_below_getLast h.descending (Paging.below_of_mem_page hrow') hrow
  rw [hsame.listKey_eq] at hlt
  exact lt_irrefl _ hlt

/-- A row that was there throughout and still ahead is on the next page, or below it. -/
theorem ahead_append (hl : 1 ≤ Api.listLimit limit)
    (hne : t.nextPage limit ≠ []) (next : Option String) {row : LinkRow}
    (hrow : row ∈ t.app.repo.links.items)
    (hplace : row.id ∈ t.returned.map LinkRow.id ∨ t.finished = false ∧
      Paging.below (LinkRow.listKey db) (t.last.map (LinkRow.listKey db)) row = true) :
    row.id ∈ (t.returned ++ t.nextPage limit).map LinkRow.id ∨ t.finished = false ∧
      Paging.below (LinkRow.listKey db)
        (({ t with cursor := next, returned := t.returned ++ t.nextPage limit } :
          RowTraversal db).last.map (LinkRow.listKey db)) row = true := by
  rw [last_append hne, List.map_append, List.mem_append]
  rcases hplace with hseen | ⟨hmore, hb⟩
  · exact Or.inl (Or.inl hseen)
  · by_cases hin : row ∈ t.nextPage limit
    · exact Or.inl (Or.inr (List.mem_map_of_mem hin))
    · obtain ⟨bottom, hbottom, hlt⟩ := Paging.lt_getLast_of_not_mem_page hl
        (PostgresRepo.nodup_listKey t.app.repo) hrow hb hin
      have hgetLast : (t.nextPage limit).getLast? = some bottom := hbottom
      rw [hgetLast]
      exact Or.inr ⟨hmore, (Paging.below_some _ _).mpr hlt⟩

/-- A page keeps a walk in its place. -/
theorem placed_append (hl : 1 ≤ Api.listLimit limit) (h : Placed crates t)
    (hne : t.nextPage limit ≠ []) :
    Placed crates { t with
      cursor := (t.nextPage limit).getLast?.map (cursorOf db crates)
      returned := t.returned ++ t.nextPage limit } where
  key := h.key
  cursor_eq := by rw [last_append hne]
  wellFormed := by
    intro row hrow
    rcases List.mem_append.mp hrow with hrow | hrow
    · exact h.wellFormed row hrow
    · exact t.app.repo.wellFormed row (Paging.mem_of_mem_page hrow)
  once := nodup_id_append h
  descending := Paging.pairwise_append_of_below h.descending
    (Paging.pairwise_page (PostgresRepo.nodup_listKey t.app.repo))
    (fun _ hrow => Paging.below_of_mem_page hrow)
  known := by
    intro row hrow
    rcases List.mem_append.mp hrow with hrow | hrow
    · exact h.known row hrow
    · have hmem : row ∈ t.app.repo.links.items := Paging.mem_of_mem_page hrow
      refine ⟨h.key.fresh row hmem, fun row' hrow' hid => ?_⟩
      rw [h.key.unique row' hrow' row hmem hid]
      exact ⟨rfl, rfl, rfl⟩
  ahead := by
    intro id hkept
    obtain ⟨row, hrow, rfl, hplace⟩ := h.ahead id hkept
    exact ⟨row, hrow, rfl, ahead_append hl hne _ hrow hplace⟩

theorem placed_step (hcrates : crates.RoundTrip) (hchrono : db.chrono.Exact)
    (hl : 1 ≤ Api.listLimit limit) (h : Placed crates t) (next : RowTraversalStep) :
    Placed crates (t.step crates limit next) := by
  cases next with
  | statement st => exact placed_change h st
  | fetch now =>
      unfold step
      cases hfin : t.finished with
      | true => exact h
      | false =>
          simp only [Bool.false_eq_true, if_false]
          have hrows : ∀ row ∈ t.nextPage limit, row ∈ t.app.repo.links.items :=
            fun _ hrow => Paging.mem_of_mem_page hrow
          rw [run_fetch hcrates hchrono h, turn_page (t.nextPage limit) _ hrows]
          by_cases hnil : t.nextPage limit = []
          · rw [if_pos hnil]
            exact placed_finish hl h hnil
          · rw [if_neg hnil]
            exact placed_append hl h hnil

/-! ## walks -/

/-- **Paging over a changing table**: a walk returns no row twice, goes strictly
down and, once it reaches an empty page, has returned every row that was there
throughout. -/
theorem throughout_exact_rows (crates : Crates) (limit : Option String) (s : AppState (PostgresRepo db))
    (steps : List RowTraversalStep) (hcrates : crates.RoundTrip) (hchrono : db.chrono.Exact)
    (hl : 1 ≤ Api.listLimit limit) (hkey : s.repo.PrimaryKey) :
    Run.Throughout (step crates limit) Exact (start s) steps := by
  have hplaced : Run.Throughout (step crates limit) (Placed crates) (start s) steps :=
    Run.throughout_of_step (fun _ next h _ => placed_step hcrates hchrono hl h next)
      (placed_start hkey) (Run.along_of_forall (C := fun _ _ => True) (fun _ _ => trivial))
  exact hplaced.mono (fun _ => Placed.exact)

/-! ## a walk of three pages -/

/-- A time that has no RFC 3339 text, as a row of strokes. -/
def strokes (t : SystemTime) : String :=
  String.ofList (List.replicate (t.ns + 2 ^ 63 * 10 ^ 9).toNat '|')

theorem parse_strokes (t : SystemTime) : Rfc3339.parse (strokes t) = none := by
  unfold strokes Rfc3339.parse
  rw [String.toList_ofList]
  generalize (t.ns + 2 ^ 63 * 10 ^ 9).toNat = n
  match n with
  | 0 | 1 | 2 | 3 => rfl
  | n + 4 => rfl

/-- The time of some nanoseconds, if the clock has it. -/
def ofNs? (ns : Int) : Option SystemTime :=
  if h : -(2 ^ 63 * 10 ^ 9) ≤ ns ∧ ns < 2 ^ 63 * 10 ^ 9 then some ⟨ns, h⟩ else none

theorem ofNs?_ns (t : SystemTime) : ofNs? t.ns = some t := dif_pos t.inRange

/-- A chrono that prints the years of four digits as RFC 3339 has it. -/
def rfc3339 : Chrono where
  toRfc3339 t := (Rfc3339.text? t.ns).getD (strokes t)
  parseFromRfc3339 text :=
    match Rfc3339.parse text with
    | some ns => ofNs? ns
    | none => ofNs? (text.toList.length - 2 ^ 63 * 10 ^ 9)

theorem rfc3339_exact : rfc3339.Exact := by
  intro t _
  simp only [rfc3339]
  cases htext : Rfc3339.text? t.ns with
  | some text =>
      rw [Option.getD_some, Rfc3339.parse_text htext]
      exact ofNs?_ns t
  | none =>
      have hlength : ((strokes t).toList.length : Int) - 2 ^ 63 * 10 ^ 9 = t.ns := by
        have hrange := t.inRange
        rw [strokes, String.toList_ofList, List.length_replicate]
        omega
      rw [Option.getD_none, parse_strokes]
      dsimp only
      rw [hlength, ofNs?_ns]

theorem cursorCrates_roundTrip : Api.cursorCrates.RoundTrip where
  base64 := by
    intro bytes
    simp only [Api.cursorCrates, Base64.decode_encode]
  json := by
    intro cursor
    simp only [Api.cursorCrates, Json.readPair_printPair]

abbrev rfcDatabase : Database := ⟨inferInstance, id, rfc3339⟩

/-- A second and a fraction of it. -/
def halfPast (secs : Fin (2 ^ 62)) : SystemTime where
  ns := secs * 10 ^ 9 + 500 * 10 ^ 6
  inRange := by omega

/-- Three rows, of which two were created within a second. -/
def threeRows : PostgresRepo rfcDatabase :=
  Run.reach (fun r (st : Statement) => (st.exec r).2) .new [
    .insert (.ofSecs 1) (.new (.ofSecs 1) "link-a" "https://example.com/a"),
    .insert (.ofSecs 2) (.new (.ofSecs 2) "link-b" "https://example.com/b"),
    .insert (halfPast 2) (.new (halfPast 2) "link-c" "https://example.com/c")]

theorem primaryKey_threeRows : threeRows.PrimaryKey :=
  Run.invariant (P := PrimaryKey) (fun _ st h => h.exec st) PostgresRepo.primaryKey_new _

/-- A page for each link.  Between the pages the row is deleted that the cursor names, a
row is created, one is updated and counted, and one comes and goes. -/
def threePages : List RowTraversalStep := [
  .fetch (.ofSecs 3),
  .statement (.delete "link-c"),
  .statement (.insert (.ofSecs 4) (.new (.ofSecs 4) "link-d" "https://example.com/d")),
  .fetch (.ofSecs 5),
  .statement (.updateWhereVersion (.ofSecs 6) "link-a" "https://example.com/new" 1),
  .statement (.recordHit "link-a"),
  .fetch (.ofSecs 7),
  .statement (.insert (.ofSecs 8) (.new (.ofSecs 8) "link-c" "https://example.com/c")),
  .statement (.delete "link-c"),
  .fetch (.ofSecs 9)]

/-- The walk when all that has happened. -/
def afterThreePages : RowTraversal rfcDatabase :=
  Run.reach (step Api.cursorCrates (some "1")) (start ⟨threeRows, .new, .disabled⟩) threePages

/-- It has followed a cursor from page to page, and reached the empty one. -/
theorem returned_afterThreePages :
    afterThreePages.returned.map LinkRow.code = ["link-c", "link-b", "link-a"] ∧
      afterThreePages.finished = true := by
  decide +kernel

theorem throughout_exact_rows_threePages :
    Run.Throughout (step Api.cursorCrates (some "1")) Exact (start ⟨threeRows, .new, .disabled⟩)
        threePages ∧
      afterThreePages.returned.map LinkRow.code = ["link-c", "link-b", "link-a"] ∧
      afterThreePages.finished = true :=
  ⟨throughout_exact_rows Api.cursorCrates (some "1") ⟨threeRows, .new, .disabled⟩ threePages
    cursorCrates_roundTrip rfc3339_exact (by decide) primaryKey_threeRows, returned_afterThreePages⟩

end RowTraversal

end Shorty
