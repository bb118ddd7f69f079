import Shorty.Postgres.NoLostUpdate

/-!
# Shorty.Postgres.Linearizable

Whether an `update` among other methods looks as if it were made at one moment.
Its first statement is the whole update when it matches a row; when it matches none
a second statement tells a conflict from a missing link, and by then the row may
have come or gone.  A missing link is missing at that moment; a conflict that the
second statement reports may never have been one.
-/

namespace Shorty

namespace RepoCall

variable {db : Database}

/-- The clients of a store. -/
abbrev Clients (db : Database) := Pool RepoCall Statement.Resp RepoAnswer (PostgresRepo db)

abbrev ClientTask (db : Database) := Pool.Task RepoCall Statement.Resp RepoAnswer (PostgresRepo db)

/-- One move of the clients. -/
def step : Clients db → Pool.Move RepoCall Empty → Clients db :=
  Pool.step Statement.exec RepoCall.task (fun e => e.elim)

abbrev Sound (p : Clients db) : Prop :=
  Pool.Sound Statement.exec RepoCall.task (fun e : Empty => e.elim) p

/-- An answer of `update` that is no database error. -/
def IsVerdict : Except RepoError ShortLink → Prop
  | .ok _ => True
  | .error .versionConflict => True
  | .error (.notFound _) => True
  | .error _ => False

/-- A statement that changed nothing. -/
def Idle (d : Pool.Deed Statement (PostgresRepo db)) : Prop := (d.call.exec d.before).2 = d.before

/-- An update answered and changed what one atomic update would have at a moment of
the call. -/
structure LinearizedAt (p : Clients db) (t : ClientTask db) (now : SystemTime)
    (code targetUrl : String) (version : Int64) (result : Except RepoError ShortLink) (time : Nat) :
    Prop where
  afterStart : t.startedAt ≤ time
  beforeEnd : ∃ d ∈ t.deeds, time ≤ d.time
  result : ((p.stateAt time).update now code targetUrl version).1 = result
  effect : (∃ d ∈ t.deeds, d.time = time ∧
      (d.call.exec d.before).2 = ((p.stateAt time).update now code targetUrl version).2 ∧
      ∀ d' ∈ t.deeds, d'.time ≠ time → Idle d') ∨
    (((p.stateAt time).update now code targetUrl version).2 = p.stateAt time ∧
      ∀ d ∈ t.deeds, Idle d)

/-- Every update that has ended without a database error is as one at a moment of
its own. -/
def UpdatesLinearized (p : Clients db) : Prop :=
  ∀ t ∈ p.tasks, ∀ now code targetUrl version, t.request = .update now code targetUrl version →
    ∀ result, t.rest = .done (.link result) → IsVerdict result →
      ∃ time, LinearizedAt p t now code targetUrl version result time

/-- When the second statement of an update is about to find the row, the row had
another version than the update was given at some moment since the call began. -/
def ConflictSeen (p : Clients db) : Pool.Move RepoCall Empty → Prop
  | .advance i => ∀ t, p.tasks[i]? = some t → t.deeds ≠ [] → t.rest.result?.isNone →
      ∀ now code targetUrl version, t.request = .update now code targetUrl version →
        ∀ row, p.state.links.find? code = some row →
          ∃ time, t.startedAt ≤ time ∧ time ≤ p.clock ∧
            ∃ row', (p.stateAt time).links.find? code = some row' ∧ row'.version ≠ version
  | _ => True

/-! ## single statements -/

section Statements

variable {r : PostgresRepo db} {now : SystemTime} {code targetUrl : String} {version : Int64}

theorem not_isVerdict_updateWhereVersion {e : RepoError}
    (h : (r.updateWhereVersion now code targetUrl version).1 = .error e) : ¬ IsVerdict (.error e) := by
  unfold PostgresRepo.updateWhereVersion at h
  split at h
  · split at h
    · cases h
    · split at h
      · split at h
        · cases h
          exact id
        · split at h
          · cases h
          · cases h
            exact id
      · cases h
  · cases h
    exact id

/-- A matched row is the whole update. -/
theorem update_of_matched {row : LinkRow}
    (h : (r.updateWhereVersion now code targetUrl version).1 = .ok (some row)) :
    r.update now code targetUrl version =
      (.ok row.toShortLink, (r.updateWhereVersion now code targetUrl version).2) := by
  unfold PostgresRepo.update
  generalize r.updateWhereVersion now code targetUrl version = out at h ⊢
  obtain ⟨result, r'⟩ := out
  simp only at h
  rw [h]

/-- Without a match the texts are texts and nothing changes. -/
theorem missed_updateWhereVersion
    (h : (r.updateWhereVersion now code targetUrl version).1 = .ok none) :
    (isText targetUrl = true ∧ isText code = true) ∧
      (r.updateWhereVersion now code targetUrl version).2 = r := by
  unfold PostgresRepo.updateWhereVersion at h ⊢
  split at h
  · rename_i ht
    rw [dif_pos ht]
    refine ⟨ht, ?_⟩
    split at h
    · rfl
    · split at h
      · split at h
        · cases h
        · split at h <;> cases h
      · rename_i hv
        simp only [if_neg hv]
  · cases h

/-- An atomic update reports a conflict where the row has another version. -/
theorem stale_of_update_conflict {r' : PostgresRepo db}
    (h : r.update now code targetUrl version = (.error .versionConflict, r')) :
    ∃ row, r.links.find? code = some row ∧ row.version ≠ version := by
  cases hrow : r.links.find? code with
  | none =>
      rw [PostgresRepo.update_of_none hrow, PostgresRepo.updateMissing] at h
      split at h <;> cases h
  | some row =>
      refine ⟨row, rfl, fun hv => ?_⟩
      rcases PostgresRepo.updateWhereVersion_cases now code targetUrl version r with
        ⟨e, herror⟩ | ⟨_, hstale⟩ | ⟨row', _, _, _, hok, _⟩
      · have hnot := not_isVerdict_updateWhereVersion (congrArg Prod.fst herror)
        rw [PostgresRepo.update, herror] at h
        cases h
        exact hnot trivial
      · exact hstale row hrow hv
      · rw [update_of_matched hok] at h
        cases h

end Statements

/-! ## the statements of an update -/

/-- An update that has ended made its first statement only, or both. -/
theorem follows_update {now : SystemTime} {code targetUrl : String} {version : Int64}
    {ds : List (Pool.Deed Statement (PostgresRepo db))} {result : Except RepoError ShortLink}
    (h : Pool.Follows Statement.exec (update now code targetUrl version).task ds (.done (.link result))) :
    (∃ d e, ds = [d] ∧ (d.before.updateWhereVersion now code targetUrl version).1 = .error e ∧
      result = .error e) ∨
    (∃ d row, ds = [d] ∧ d.call = .updateWhereVersion now code targetUrl version ∧
      (d.before.updateWhereVersion now code targetUrl version).1 = .ok (some row) ∧
      result = .ok row.toShortLink) ∨
    ∃ d d', ds = [d, d'] ∧ d.call = .updateWhereVersion now code targetUrl version ∧
      (d.before.updateWhereVersion now code targetUrl version).1 = .ok none ∧
      d'.call = .selectRow code ∧ result = missed code (d'.before.selectRow code) := by
  rcases Pool.follows_call_iff.mp h with ⟨_, hrest⟩ | ⟨time, r, ds', rfl, hnext⟩
  · cases hrest
  · change Pool.Follows Statement.exec (RepoAnswer.link <$>
      afterUpdate code (r.updateWhereVersion now code targetUrl version).1) ds' _ at hnext
    cases hout : (r.updateWhereVersion now code targetUrl version).1 with
    | error e =>
        rw [hout] at hnext
        obtain ⟨rfl, hrest⟩ := Pool.follows_done_iff.mp hnext
        cases hrest
        exact Or.inl ⟨_, e, rfl, hout, rfl⟩
    | ok found =>
        rw [hout] at hnext
        cases found with
        | some row =>
            obtain ⟨rfl, hrest⟩ := Pool.follows_done_iff.mp hnext
            cases hrest
            exact Or.inr (Or.inl ⟨_, row, rfl, rfl, hout, rfl⟩)
        | none =>
            rcases Pool.follows_call_iff.mp hnext with ⟨_, hrest⟩ | ⟨time', r', ds'', rfl, hlast⟩
            · cases hrest
            · obtain ⟨rfl, hrest⟩ := Pool.follows_done_iff.mp hlast
              cases hrest
              exact Or.inr (Or.inr ⟨_, _, rfl, rfl, hout, rfl, rfl⟩)

/-- An update that has begun and not ended is about to look the row up. -/
theorem follows_update_pending {now : SystemTime} {code targetUrl : String} {version : Int64}
    {ds : List (Pool.Deed Statement (PostgresRepo db))} {rest : Proc Statement.Resp RepoAnswer}
    (h : Pool.Follows Statement.exec (update now code targetUrl version).task ds rest) (hds : ds ≠ [])
    (hrest : rest.result?.isNone) :
    rest = .call (.selectRow code) fun found => .done (.link (missed code found)) := by
  rcases Pool.follows_call_iff.mp h with ⟨hnil, _⟩ | ⟨time, r, ds', rfl, hnext⟩
  · exact absurd hnil hds
  · change Pool.Follows Statement.exec (RepoAnswer.link <$>
      afterUpdate code (r.updateWhereVersion now code targetUrl version).1) ds' _ at hnext
    rcases hout : (r.updateWhereVersion now code targetUrl version).1 with e | _ | row <;>
      rw [hout] at hnext
    · obtain ⟨_, rfl⟩ := Pool.follows_done_iff.mp hnext
      simp [Proc.result?] at hrest
    · rcases Pool.follows_call_iff.mp hnext with ⟨_, hcall⟩ | ⟨time', r', ds'', _, hlast⟩
      · exact hcall
      · obtain ⟨_, rfl⟩ := Pool.follows_done_iff.mp hlast
        simp [Proc.result?] at hrest
    · obtain ⟨_, rfl⟩ := Pool.follows_done_iff.mp hnext
      simp [Proc.result?] at hrest

/-! ## linearization points -/

section Points

variable {p : Clients db} {t : ClientTask db} {now : SystemTime} {code targetUrl : String}
  {version : Int64} {result : Except RepoError ShortLink}

/-- The moment of an update that matched is the moment of its statement; of one that
found no row, the moment of its second statement; of one that found a row, a moment
at which the row had another version. -/
theorem exists_linearizedAt (hsound : Sound p) (ht : t ∈ p.tasks)
    (hrequest : t.request = .update now code targetUrl version) (hrest : t.rest = .done (.link result))
    (hverdict : IsVerdict result)
    (hseen : ∀ d d', t.deeds = [d, d'] → ∀ row, d'.before.links.find? code = some row →
      ∃ time, t.startedAt ≤ time ∧ time ≤ d'.time ∧
        ∃ row', (p.stateAt time).links.find? code = some row' ∧ row'.version ≠ version) :
    ∃ time, LinearizedAt p t now code targetUrl version result time := by
  have hfollows := hsound.follows t ht
  rw [hrequest, hrest] at hfollows
  rcases follows_update hfollows with
    ⟨d, e, _, herror, rfl⟩ | ⟨d, row, hdeeds, hcall, hok, rfl⟩ |
      ⟨d, d', hdeeds, hcall, hmissed, hcall', rfl⟩
  · exact absurd hverdict (not_isVerdict_updateWhereVersion herror)
  · have hd : d ∈ t.deeds := by simp [hdeeds]
    obtain ⟨hstart, _, hbefore, _⟩ := hsound.applied t ht d hd
    have hupdate := update_of_matched hok
    refine ⟨d.time, Nat.le_of_lt hstart, ⟨d, hd, Nat.le_refl _⟩, ?_, Or.inl ⟨d, hd, rfl, ?_, ?_⟩⟩
    · rw [hbefore, hupdate]
    · rw [hbefore, hupdate, hcall]
      rfl
    · intro d' hd' hne
      rw [hdeeds, List.mem_singleton] at hd'
      exact absurd (congrArg Pool.Deed.time hd') hne
  · obtain ⟨⟨htarget, hcode⟩, hkept⟩ := missed_updateWhereVersion hmissed
    have hd' : d' ∈ t.deeds := by simp [hdeeds]
    have hidle : ∀ d'' ∈ t.deeds, Idle d'' := by
      intro d'' hd''
      simp only [hdeeds, List.mem_cons, List.not_mem_nil, or_false] at hd''
      rcases hd'' with rfl | rfl
      · rw [Idle, hcall]
        exact hkept
      · rw [Idle, hcall']
        rfl
    obtain ⟨hstart, _, hbefore, _⟩ := hsound.applied t ht d' hd'
    cases hrow : d'.before.links.find? code with
    | none =>
        have hresult : missed code (d'.before.selectRow code) = .error (.notFound code) := by
          simp [PostgresRepo.selectRow, hcode, hrow, missed]
        have hupdate : (p.stateAt d'.time).update now code targetUrl version =
            (.error (.notFound code), p.stateAt d'.time) := by
          rw [hbefore, PostgresRepo.update_of_none hrow, PostgresRepo.updateMissing,
            if_pos ⟨htarget, hcode⟩]
        refine ⟨d'.time, Nat.le_of_lt hstart, ⟨d', hd', Nat.le_refl _⟩, ?_, Or.inr ⟨?_, hidle⟩⟩
        · rw [hupdate, hresult]
        · rw [hupdate]
    | some row =>
        have hresult : missed code (d'.before.selectRow code) = .error .versionConflict := by
          rw [PostgresRepo.selectRow_of_find? hrow]
          rfl
        obtain ⟨time, hafter, hle, row', hrow', hstale⟩ := hseen d d' hdeeds row hrow
        have hupdate : (p.stateAt time).update now code targetUrl version =
            (.error .versionConflict, p.stateAt time) :=
          PostgresRepo.update_of_stale hrow' htarget hstale
        refine ⟨time, hafter, ⟨d', hd', hle⟩, ?_, Or.inr ⟨?_, hidle⟩⟩
        · rw [hupdate, hresult]
        · rw [hupdate]

/-- What has been is not changed by a later move. -/
theorem LinearizedAt.of_past {p' : Clients db} {time : Nat} (hsound : Sound p) (ht : t ∈ p.tasks)
    (hpast : p'.past = p.past ++ [p.state])
    (h : LinearizedAt p t now code targetUrl version result time) :
    LinearizedAt p' t now code targetUrl version result time := by
  obtain ⟨d, hd, hle⟩ := h.beforeEnd
  have hlt := (hsound.applied t ht d hd).2.1
  have hsame : p'.stateAt time = p.stateAt time :=
    Pool.stateAt_of_past hpast (Nat.le_of_lt (Nat.lt_of_le_of_lt hle hlt))
  constructor
  · exact h.afterStart
  · exact h.beforeEnd
  · rw [hsame]
    exact h.result
  · rw [hsame]
    exact h.effect

end Points

/-! ## schedules -/

theorem updatesLinearized_step {p : Clients db} (hsound : Sound p) (h : UpdatesLinearized p)
    (m : Pool.Move RepoCall Empty) (hseen : ConflictSeen p m) : UpdatesLinearized (step p m) := by
  refine Pool.step_rule (P := UpdatesLinearized) m ?_ h ?_
  · intro p' hq t ht now code targetUrl version hrequest result hrest hverdict
    rcases hq.tasks t ht with hold | ⟨hfresh, _, _⟩
    · obtain ⟨time, hlin⟩ := h t hold now code targetUrl version hrequest result hrest hverdict
      exact ⟨time, hlin.of_past hsound hold hq.past⟩
    · rw [hrequest, hrest] at hfresh
      cases hfresh
  · rintro i t c k rfl ht hr t' ht' now code targetUrl version hrequest result hrest hverdict
    rcases Pool.mem_tasks_called ht' with hold | rfl
    · obtain ⟨time, hlin⟩ := h t' hold now code targetUrl version hrequest result hrest hverdict
      exact ⟨time, hlin.of_past hsound hold rfl⟩
    · refine exists_linearizedAt (hsound.called ht hr) ht' hrequest hrest hverdict ?_
      intro d d' hdeeds row hrow
      -- the call just made is the second statement
      have htwo : t.deeds ++ [⟨p.clock, c, p.state⟩] = [d] ++ [d'] := hdeeds
      obtain ⟨hfirst, hlast⟩ := List.append_inj' htwo rfl
      obtain rfl : (⟨p.clock, c, p.state⟩ : Pool.Deed Statement (PostgresRepo db)) = d' := by
        simpa using hlast
      obtain ⟨time, hafter, hle, row', hrow', hstale⟩ := hseen t ht (by simp [hfirst])
        (by simp [hr, Proc.result?]) now code targetUrl version hrequest row hrow
      refine ⟨time, hafter, hle, row', ?_, hstale⟩
      rw [Pool.stateAt_of_past rfl hle]
      exact hrow'

/-- What a second statement that finds the row has to have seen. -/
theorem conflictSeen_of_linearized {p : Clients db} (hsound : Sound p) (m : Pool.Move RepoCall Empty)
    (h : UpdatesLinearized (step p m)) : ConflictSeen p m := by
  cases m with
  | env e => exact e.elim
  | start q => trivial
  | advance i =>
      intro t ht hdeeds hpending now code targetUrl version hrequest row hrow
      have hmem : t ∈ p.tasks := List.mem_of_getElem? ht
      have hfollows := hsound.follows t hmem
      rw [hrequest] at hfollows
      have hrest := follows_update_pending hfollows hdeeds hpending
      have hfound : p.state.selectRow code = .ok (some row) := PostgresRepo.selectRow_of_find? hrow
      have hstep : step p (.advance i) = p.called Statement.exec i t (.selectRow code)
          fun found => .done (.link (missed code found)) := by
        simp only [step, Pool.step, ht]
        rw [hrest]
      rw [hstep] at h
      obtain ⟨time, hlin⟩ := h _ (List.mem_set (List.getElem?_eq_some_iff.mp ht).1 _) now code targetUrl
        version hrequest (.error .versionConflict) (by simp [Statement.exec, hfound, missed]) trivial
      obtain ⟨row', hrow', hstale⟩ := stale_of_update_conflict (Prod.ext hlin.result rfl)
      obtain ⟨d, hd, hle⟩ := hlin.beforeEnd
      have hnow : time ≤ p.clock := Nat.le_trans hle (hsound.time_le hmem hd)
      have hpast : (p.called Statement.exec i t (.selectRow code)
          fun found => .done (.link (missed code found))).past = p.past ++ [p.state] := rfl
      rw [Pool.stateAt_of_past hpast hnow] at hrow'
      exact ⟨time, hlin.afterStart, hnow, row', hrow', hstale⟩

/-- **An update is one atomic update** as long as no second statement finds a row that
had the given version all the time since the call began. -/
theorem throughout_linearized (r : PostgresRepo db) (moves : List (Pool.Move RepoCall Empty)) :
    Run.Throughout step UpdatesLinearized (Pool.new r) moves ↔
      Run.Along step ConflictSeen (Pool.new r) moves := by
  apply Run.throughout_iff_along (I := fun p => Sound p ∧ UpdatesLinearized p)
  · exact fun p h => h.2
  · exact fun p m h hseen => ⟨h.1.step m, updatesLinearized_step h.1 h.2 m hseen⟩
  · exact fun p m h hstep => conflictSeen_of_linearized h.1 m hstep
  · exact ⟨Pool.sound_new r, by simp [UpdatesLinearized, Pool.new]⟩

/-- The clients after an update's first statement and an insert. -/
def overtaken : Clients RowCall.plainDb :=
  Run.reach step (Pool.new PostgresRepo.new)
    [.start (RepoCall.update .UNIX_EPOCH "promo2026" "https://example.com/a" 1),
      .start (RepoCall.insert .UNIX_EPOCH RowCall.promoLink), .advance 0, .advance 1]

theorem sound_overtaken : Sound overtaken := Pool.sound_reach _ _

theorem find?_overtaken_now : overtaken.state.links.find? "promo2026" =
    some ((PostgresRepo.new : PostgresRepo RowCall.plainDb).insertedRow .UNIX_EPOCH RowCall.promoLink) :=
  (PostgresRepo.find?_insert .UNIX_EPOCH rfl rfl).2 "promo2026"

/-- No row but that of the insert is ever there. -/
theorem version_overtaken {time : Nat} {row : LinkRow}
    (h : (overtaken.stateAt time).links.find? "promo2026" = some row) : row.version = 1 := by
  have hpast : overtaken.past = List.replicate 4 PostgresRepo.new := rfl
  rcases Nat.lt_or_ge time 4 with hlt | hge
  · rw [Pool.stateAt, hpast, List.getElem?_replicate, if_pos hlt] at h
    cases h
  · rw [Pool.stateAt_of_clock_le hge, find?_overtaken_now] at h
    cases h
    rfl

/-- The update was given the version of the row that came, and answers a conflict. -/
theorem not_throughout_linearized : ¬ Run.Throughout step UpdatesLinearized
    (Pool.new (PostgresRepo.new : PostgresRepo RowCall.plainDb))
    [.start (RepoCall.update .UNIX_EPOCH "promo2026" "https://example.com/a" 1),
      .start (RepoCall.insert .UNIX_EPOCH RowCall.promoLink), .advance 0, .advance 1, .advance 0] := by
  intro h
  have hlast : UpdatesLinearized (step overtaken (.advance 0)) := h.2.2.2.2.2
  obtain ⟨time, _, _, row, hfound, hstale⟩ := conflictSeen_of_linearized sound_overtaken (.advance 0)
    hlast _ rfl (by simp) rfl _ _ _ _ rfl _ find?_overtaken_now
  exact hstale (version_overtaken hfound)

end RepoCall

end Shorty
