import Shorty.Lib.Proc
import Shorty.Repository

/-!
# Shorty.Postgres.Statements

The PostgreSQL store a statement at a time.  A statement is atomic and a method is
the program of the statements it sends, so methods of several clients can be
interleaved; sent with nothing in between, the statements of a method are the
method (`run_program`).

`RowChange` says what a statement can do to the row of a code.
-/

namespace Shorty

namespace PostgresRepo

variable {db : Database}

/-- `DELETE … WHERE code = $1`: the number of rows. -/
def deleteRow (r : PostgresRepo db) (code : String) : Except RepoError Nat × PostgresRepo db :=
  match r.selectRow code with
  | .error e => (.error e, r)
  | .ok none => (.ok 0, r)
  | .ok (some _) => (.ok 1, r.deleteWhere (fun row => row.code = code))

theorem code_hitRow (row : LinkRow) : (hitRow row).code = row.code := rfl

theorem wellFormed_hitRow (row : LinkRow) (h : row.WellFormed) : (hitRow row).WellFormed :=
  ⟨h.text, h.checks, h.createdAt_micros, h.expiresAt_micros⟩

/-- `UPDATE … SET hits = hits + 1 WHERE code = $1 RETURNING hits`. -/
def incrementHits (r : PostgresRepo db) (code : String) :
    Except RepoError (Option Nat) × PostgresRepo db :=
  match r.selectRow code with
  | .error e => (.error e, r)
  | .ok none => (.ok none, r)
  | .ok (some row) =>
      (.ok (some (row.hits + 1)), r.updateRow code hitRow code_hitRow wellFormed_hitRow)

variable {r : PostgresRepo db} {code : String}

/-- The first statement of `update` fails, matches no row, or changes the row. -/
theorem updateWhereVersion_cases (now : SystemTime) (code targetUrl : String) (version : Int64)
    (r : PostgresRepo db) :
    (∃ e, r.updateWhereVersion now code targetUrl version = (.error e, r)) ∨
    (r.updateWhereVersion now code targetUrl version = (.ok none, r) ∧
      ∀ row, r.links.find? code = some row → row.version ≠ version) ∨
    ∃ row, r.links.find? code = some row ∧ row.version = version ∧ row.version ≠ Int64.maxValue ∧
      (r.updateWhereVersion now code targetUrl version).1 =
        .ok (some (updatedRow db now targetUrl row)) ∧
      ∀ code', (r.updateWhereVersion now code targetUrl version).2.links.find? code' =
        if code' = code then some (updatedRow db now targetUrl row) else r.links.find? code' := by
  unfold updateWhereVersion
  by_cases ht : isText targetUrl = true ∧ isText code = true
  · rw [dif_pos ht]
    cases hrow : r.links.find? code with
    | none => exact Or.inr (Or.inl ⟨rfl, by simp⟩)
    | some row =>
        by_cases hv : row.version = version
        · simp only [if_pos hv]
          by_cases hmax : row.version = Int64.maxValue
          · rw [if_pos hmax]
            exact Or.inl ⟨_, rfl⟩
          · rw [if_neg hmax]
            by_cases hne : 0 < targetUrl.length
            · rw [dif_pos hne]
              refine Or.inr (Or.inr ⟨row, rfl, hv, hmax, rfl, ?_⟩)
              dsimp only
              exact find?_updateRow hrow
            · rw [dif_neg hne]
              exact Or.inl ⟨_, rfl⟩
        · simp only [if_neg hv]
          refine Or.inr (Or.inl ⟨trivial, ?_⟩)
          rintro row' hrow'
          cases hrow'
          exact hv
  · rw [dif_neg ht]
    exact Or.inl ⟨_, rfl⟩

theorem deleteRow_snd : (r.deleteRow code).2 = (r.remove code).2 := by
  unfold deleteRow remove
  cases r.selectRow code with
  | error e => rfl
  | ok found => cases found <;> rfl

theorem incrementHits_snd : (r.incrementHits code).2 = (r.recordHit code).2 := by
  unfold incrementHits recordHit
  cases r.selectRow code with
  | error e => rfl
  | ok found => cases found <;> rfl

theorem find?_incrementHits {row : LinkRow} (h : r.links.find? code = some row) :
    (r.incrementHits code).1 = .ok (some (row.hits + 1)) ∧
      ∀ code', (r.incrementHits code).2.links.find? code' =
        if code' = code then some (hitRow row) else r.links.find? code' := by
  refine ⟨?_, ?_⟩
  · unfold incrementHits
    rw [selectRow_of_find? h]
  · rw [incrementHits_snd]
    exact (find?_recordHit h).2

end PostgresRepo

/-- A statement the store sends. -/
inductive Statement where
  | insert (now : SystemTime) (link : ShortLink)
  | selectRow (code : String)
  | updateWhereVersion (now : SystemTime) (code targetUrl : String) (version : Int64)
  | delete (code : String)
  | recordHit (code : String)
  | selectPage (now : SystemTime) (limit : Nat) (cursor : Option (String × String))
  | deleteExpired (now : SystemTime) (fault : Option SqlError)

namespace Statement

/-- What a statement answers: rows, or the number of rows it deleted. -/
def Resp : Statement → Type
  | insert _ _ => Except RepoError Unit
  | selectRow _ => Except RepoError (Option LinkRow)
  | updateWhereVersion _ _ _ _ => Except RepoError (Option LinkRow)
  | delete _ => Except RepoError Nat
  | recordHit _ => Except RepoError (Option Nat)
  | selectPage _ _ _ => Except RepoError ListPage
  | deleteExpired _ _ => Except SqlError Nat

variable {db : Database}

/-- One statement, answered. -/
def exec : (st : Statement) → PostgresRepo db → st.Resp × PostgresRepo db
  | insert now link, r => r.insert now link
  | selectRow code, r => (r.selectRow code, r)
  | updateWhereVersion now code targetUrl version, r =>
      r.updateWhereVersion now code targetUrl version
  | delete code, r => r.deleteRow code
  | recordHit code, r => r.incrementHits code
  | selectPage now limit cursor, r => (r.list now limit cursor, r)
  | deleteExpired now fault, r => r.deleteExpired now fault

end Statement

/-- A method of the store. -/
inductive RepoCall where
  | insert (now : SystemTime) (link : ShortLink)
  | get (code : String)
  | update (now : SystemTime) (code targetUrl : String) (version : Int64)
  | remove (code : String)
  | recordHit (code : String)
  | stats (code : String)
  | list (now : SystemTime) (limit : Nat) (cursor : Option (String × String))
  | purgeExpired (now : SystemTime) (fault : Option SqlError)

namespace RepoCall

/-- What a method answers. -/
def Resp : RepoCall → Type
  | insert _ _ => Except RepoError Unit
  | get _ => Except RepoError ShortLink
  | update _ _ _ _ => Except RepoError ShortLink
  | remove _ => Except RepoError Unit
  | recordHit _ => Except RepoError Nat
  | stats _ => Except RepoError LinkStats
  | list _ _ _ => Except RepoError ListPage
  | purgeExpired _ _ => Nat

/-- A row that has to be there. -/
def expectRow {α β : Type} (code : String) (f : α → β) :
    Except RepoError (Option α) → Except RepoError β
  | .error e => .error e
  | .ok (some row) => .ok (f row)
  | .ok none => .error (.notFound code)

/-- What the second statement of `update` tells. -/
def missed (code : String) : Except RepoError (Option LinkRow) → Except RepoError ShortLink
  | .error e => .error e
  | .ok (some _) => .error .versionConflict
  | .ok none => .error (.notFound code)

/-- What `update` makes of the row its first statement returned, if it did. -/
def afterUpdate (code : String) :
    Except RepoError (Option LinkRow) → Proc Statement.Resp (Except RepoError ShortLink)
  | .error e => .done (.error e)
  | .ok (some row) => .done (.ok row.toShortLink)
  | .ok none => .call (.selectRow code) (fun answer => .done (missed code answer))

/-- What `remove` makes of the number of rows it deleted. -/
def removed (code : String) : Except RepoError Nat → Except RepoError Unit
  | .error e => .error e
  | .ok deleted => if deleted = 0 then .error (.notFound code) else .ok ()

/-- What a purge makes of the number of rows it deleted. -/
def purged : Except SqlError Nat → Nat
  | .ok rowsAffected => rowsAffected
  | .error _ => 0

/-- The statements of a method. -/
def program : (c : RepoCall) → Proc Statement.Resp c.Resp
  | insert now link => .call (.insert now link) .done
  | get code => .call (.selectRow code) (fun row => .done (expectRow code LinkRow.toShortLink row))
  | update now code targetUrl version =>
      .call (.updateWhereVersion now code targetUrl version) (afterUpdate code)
  | remove code => .call (.delete code) (fun deleted => .done (removed code deleted))
  | recordHit code => .call (.recordHit code) (fun hits => .done (expectRow code id hits))
  | stats code => .call (.selectRow code) (fun row => .done (expectRow code LinkRow.toLinkStats row))
  | list now limit cursor => .call (.selectPage now limit cursor) .done
  | purgeExpired now fault => .call (.deleteExpired now fault) (fun deleted => .done (purged deleted))

variable {db : Database}

/-- A method, answered at once. -/
def exec : (c : RepoCall) → PostgresRepo db → c.Resp × PostgresRepo db
  | insert now link, r => r.insert now link
  | get code, r => (r.get code, r)
  | update now code targetUrl version, r => r.update now code targetUrl version
  | remove code, r => r.remove code
  | recordHit code, r => r.recordHit code
  | stats code, r => (r.stats code, r)
  | list now limit cursor, r => (r.list now limit cursor, r)
  | purgeExpired now fault, r => r.purgeExpired now fault

theorem run_afterUpdate (code : String) (out : Except RepoError (Option LinkRow))
    (r : PostgresRepo db) : Proc.run Statement.exec (afterUpdate code out) r =
      match out with
      | .error e => (.error e, r)
      | .ok (some row) => (.ok row.toShortLink, r)
      | .ok none => (r.updateMissed code, r) := by
  cases out with
  | error e => rfl
  | ok found =>
      cases found with
      | some row => rfl
      | none =>
          simp only [afterUpdate, Proc.run_call, Proc.run_done, Statement.exec,
            PostgresRepo.updateMissed]
          cases r.selectRow code with
          | error e => rfl
          | ok found => cases found <;> rfl

/-- **Refinement**: the statements of a method, with nothing in between, are the
method. -/
theorem run_program (c : RepoCall) (r : PostgresRepo db) :
    Proc.run Statement.exec c.program r = c.exec r := by
  cases c with
  | insert now link => rfl
  | get code =>
      simp only [program, exec, Proc.run_call, Statement.exec, PostgresRepo.get]
      cases r.selectRow code with
      | error e => rfl
      | ok found => cases found <;> rfl
  | update now code targetUrl version =>
      show Proc.run Statement.exec (afterUpdate code (r.updateWhereVersion now code targetUrl version).1)
        (r.updateWhereVersion now code targetUrl version).2 = r.update now code targetUrl version
      rw [run_afterUpdate, PostgresRepo.update]
      cases r.updateWhereVersion now code targetUrl version with
      | mk out r' =>
          cases out with
          | error e => rfl
          | ok found => cases found <;> rfl
  | remove code =>
      simp only [program, exec, Proc.run_call, Statement.exec, PostgresRepo.deleteRow,
        PostgresRepo.remove]
      cases r.selectRow code with
      | error e => rfl
      | ok found => cases found <;> rfl
  | recordHit code =>
      simp only [program, exec, Proc.run_call, Statement.exec, PostgresRepo.incrementHits,
        PostgresRepo.recordHit]
      cases r.selectRow code with
      | error e => rfl
      | ok found => cases found <;> rfl
  | stats code =>
      simp only [program, exec, Proc.run_call, Statement.exec, PostgresRepo.stats,
        PostgresRepo.getStatsInternal]
      cases r.selectRow code with
      | error e => rfl
      | ok found => cases found <;> rfl
  | list now limit cursor => rfl
  | purgeExpired now fault => cases fault <;> rfl

end RepoCall

/-! ## rows -/

open PostgresRepo (insertedRow updatedRow hitRow expiredRow)

variable {db : Database}

/-- What a statement can do to the row of a code. -/
inductive RowChange (r : PostgresRepo db) (code : String) :
    Statement → Option LinkRow → Option LinkRow → Prop where
  | same (st : Statement) (row : Option LinkRow) : RowChange r code st row row
  | inserted (now : SystemTime) (link : ShortLink) (h : link.code = code) :
      RowChange r code (.insert now link) none (some (r.insertedRow now link))
  | updated (now : SystemTime) (targetUrl : String) (row : LinkRow) (h : row.version ≠ Int64.maxValue) :
      RowChange r code (.updateWhereVersion now code targetUrl row.version) (some row)
        (some (updatedRow db now targetUrl row))
  | hit (row : LinkRow) : RowChange r code (.recordHit code) (some row) (some (hitRow row))
  | deleted (row : LinkRow) : RowChange r code (.delete code) (some row) none
  | expired (now : SystemTime) (row : LinkRow) (h : expiredRow now row = true) :
      RowChange r code (.deleteExpired now none) (some row) none

variable {r : PostgresRepo db} {code : String}

/-- A table that changed under one code, and the change there. -/
theorem rowChange_of_put {st : Statement} {r' : PostgresRepo db} {code' : String} {row : Option LinkRow}
    (h : ∀ code, r'.links.find? code = if code = code' then row else r.links.find? code)
    (hchange : RowChange r code' st (r.links.find? code') row) :
    RowChange r code st (r.links.find? code) (r'.links.find? code) := by
  rw [h]
  by_cases hc : code = code'
  · subst hc
    rw [if_pos rfl]
    exact hchange
  · rw [if_neg hc]
    exact .same _ _

theorem rowChange_insert (now : SystemTime) (link : ShortLink) :
    RowChange r code (.insert now link) (r.links.find? code) ((r.insert now link).2.links.find? code) := by
  unfold PostgresRepo.insert
  split
  · split
    · split
      · exact .same _ _
      · rename_i hfree
        refine rowChange_of_put (fun code' => Keyed.find?_put (insertedRow r now link) r.links code') ?_
        have hnone : r.links.find? (insertedRow r now link).code = none := hfree
        rw [hnone]
        exact .inserted now link rfl
    · exact .same _ _
  · exact .same _ _

theorem rowChange_updateWhereVersion (now : SystemTime) (code' targetUrl : String) (version : Int64) :
    RowChange r code (.updateWhereVersion now code' targetUrl version) (r.links.find? code)
      ((r.updateWhereVersion now code' targetUrl version).2.links.find? code) := by
  rcases PostgresRepo.updateWhereVersion_cases now code' targetUrl version r with
    ⟨e, herror⟩ | ⟨hmissed, _⟩ | ⟨row, hrow, rfl, hmax, _, hfind⟩
  · rw [herror]
    exact .same _ _
  · rw [hmissed]
    exact .same _ _
  · refine rowChange_of_put hfind ?_
    rw [hrow]
    exact .updated now targetUrl row hmax

theorem rowChange_delete (code' : String) :
    RowChange r code (.delete code') (r.links.find? code) ((r.deleteRow code').2.links.find? code) := by
  rw [PostgresRepo.deleteRow_snd]
  cases hrow : r.links.find? code' with
  | none =>
      rw [PostgresRepo.remove_of_none hrow]
      exact .same _ _
  | some row =>
      refine rowChange_of_put (PostgresRepo.find?_remove hrow).2 ?_
      rw [hrow]
      exact .deleted row

theorem rowChange_recordHit (code' : String) :
    RowChange r code (.recordHit code') (r.links.find? code)
      ((r.incrementHits code').2.links.find? code) := by
  rw [PostgresRepo.incrementHits_snd]
  cases hrow : r.links.find? code' with
  | none =>
      rw [PostgresRepo.recordHit_of_none hrow]
      exact .same _ _
  | some row =>
      refine rowChange_of_put (PostgresRepo.find?_recordHit hrow).2 ?_
      rw [hrow]
      exact .hit row

theorem rowChange_deleteExpired (now : SystemTime) :
    RowChange r code (.deleteExpired now none) (r.links.find? code)
      ((r.deleteExpired now none).2.links.find? code) := by
  simp only [PostgresRepo.deleteExpired, PostgresRepo.find?_deleteWhere]
  cases hrow : r.links.find? code with
  | none => exact .same _ _
  | some row =>
      cases hexp : expiredRow now row with
      | true =>
          simp only [Option.filter_some, hexp]
          exact .expired now row hexp
      | false =>
          simp only [Option.filter_some, hexp]
          exact .same _ _

/-- **Inversion**: a statement does to the row of a code one of the things
`RowChange` lists. -/
theorem rowChange_exec (st : Statement) (r : PostgresRepo db) (code : String) :
    RowChange r code st (r.links.find? code) ((st.exec r).2.links.find? code) := by
  cases st with
  | insert now link => exact rowChange_insert now link
  | selectRow code' => exact .same _ _
  | updateWhereVersion now code' targetUrl version =>
      exact rowChange_updateWhereVersion now code' targetUrl version
  | delete code' => exact rowChange_delete code'
  | recordHit code' => exact rowChange_recordHit code'
  | selectPage now limit cursor => exact .same _ _
  | deleteExpired now fault =>
      cases fault with
      | none => exact rowChange_deleteExpired now
      | some err => exact .same _ _

end Shorty
