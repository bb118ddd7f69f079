import Shorty.Postgres.NoLostUpdate

/-!
# Shorty.Postgres.Expiry

What becomes of an expiry in the PostgreSQL store.  `insert` hands the database the whole
seconds of it, and the time of the insert where chrono has no date for them.  So a link
expires when it should only if its expiry has no fraction of a second, chrono knows its
year, or it is expired from the epoch on anyway.
-/

namespace Shorty

namespace PostgresRepo

variable {db : Database} {now e : SystemTime}

/-- An expiry that is past from the epoch on; or a whole second that chrono can
represent; or what is stored when it cannot. -/
def Survives (now e : SystemTime) : Prop :=
  e ≤ .UNIX_EPOCH ∨
    (e.ns % 10 ^ 9 = 0 ∧ (SystemTime.fromTimestamp e.secsSinceEpoch).isSome = true) ∨
    (SystemTime.fromTimestamp e.secsSinceEpoch = none ∧ now.truncMicros = e)

theorem le_epoch_iff {t : SystemTime} : t ≤ .UNIX_EPOCH ↔ t.ns ≤ 0 := Iff.rfl

/-- Whole seconds are kept by the column. -/
theorem ns_expiresColumn_of_some (now : SystemTime) {t : SystemTime}
    (h : SystemTime.fromTimestamp e.secsSinceEpoch = some t) :
    (expiresColumn now e).ns = e.secsSinceEpoch * 10 ^ 9 := by
  have ht : t.ns = e.secsSinceEpoch * 10 ^ 9 := by
    unfold SystemTime.fromTimestamp at h
    split at h
    · cases h
      rfl
    · cases h
  rw [expiresColumn, h, Option.getD_some]
  show t.ns - t.ns % 1000 = _
  rw [ht]
  omega

theorem expiresColumn_of_none (h : SystemTime.fromTimestamp e.secsSinceEpoch = none) :
    expiresColumn now e = now.truncMicros := by
  rw [expiresColumn, h, Option.getD_none]

/-- A date chrono does not have is after the epoch. -/
theorem epoch_lt_of_none (h : SystemTime.fromTimestamp e.secsSinceEpoch = none) : .UNIX_EPOCH < e := by
  rw [← not_le, le_epoch_iff]
  intro hle
  have hzero : e.secsSinceEpoch = 0 := by
    unfold SystemTime.secsSinceEpoch
    omega
  rw [hzero] at h
  simp [SystemTime.fromTimestamp] at h

/-- Two expiries are told apart from the epoch on unless both are past by then. -/
theorem forall_le_iff {v e : SystemTime} :
    (∀ t, SystemTime.UNIX_EPOCH ≤ t → (v ≤ t ↔ e ≤ t)) ↔
      v = e ∨ v ≤ .UNIX_EPOCH ∧ e ≤ .UNIX_EPOCH := by
  constructor
  · intro h
    rcases le_total v .UNIX_EPOCH with hv | hv
    · exact Or.inr ⟨hv, (h _ le_rfl).mp hv⟩
    · rcases le_total e .UNIX_EPOCH with he | he
      · exact Or.inr ⟨(h _ le_rfl).mpr he, he⟩
      · exact Or.inl (le_antisymm ((h e he).mpr le_rfl) ((h v hv).mp le_rfl))
  · rintro (rfl | ⟨hv, he⟩) t ht
    · exact Iff.rfl
    · exact iff_of_true (hv.trans ht) (he.trans ht)

/-- The column expires when it should exactly when the expiry survives it. -/
theorem expiresColumn_iff : (∀ t, SystemTime.UNIX_EPOCH ≤ t → (expiresColumn now e ≤ t ↔ e ≤ t)) ↔
    Survives now e := by
  rw [forall_le_iff, Survives]
  cases h : SystemTime.fromTimestamp e.secsSinceEpoch with
  | some t =>
      have hns := ns_expiresColumn_of_some now h
      have hsame : expiresColumn now e = e ↔ (expiresColumn now e).ns = e.ns :=
        ⟨congrArg SystemTime.ns, fun heq => SystemTime.ns_injective heq⟩
      rw [hsame, le_epoch_iff, le_epoch_iff, hns]
      simp only [Option.isSome_some, and_true, reduceCtorEq, false_and, or_false]
      unfold SystemTime.secsSinceEpoch
      omega
  | none =>
      have hlate := epoch_lt_of_none h
      rw [expiresColumn_of_none h]
      simp [not_le.mpr hlate]

/-- A link that is inserted is read back as it was recorded. -/
theorem get_insert {r : PostgresRepo db} {link : ShortLink} (hok : (r.insert now link).1 = .ok ()) :
    (r.insert now link).2.get link.code = .ok { recorded db now link with id := some r.nextId } := by
  cases hr : insertRefusal link with
  | some e =>
      rw [insert_of_refusal hr] at hok
      cases hok
  | none =>
      cases h : r.links.find? link.code with
      | some row =>
          rw [insert_of_taken hr h] at hok
          cases hok
      | none =>
          have hfind := (find?_insert now hr h).2 link.code
          rw [if_pos rfl] at hfind
          rw [get, selectRow_of_find? hfind]
          rfl

/-- **Expiry**: a link stored with an expiry and read back is expired at the same
instants from the epoch on exactly when the expiry survives the column. -/
theorem isExpired_insert_iff (r : PostgresRepo db) (now : SystemTime) (link : ShortLink)
    (e : SystemTime) (hexp : link.expiresAt = some e) (hok : (r.insert now link).1 = .ok ()) :
    ∃ stored, (r.insert now link).2.get link.code = .ok stored ∧
      ((∀ t, SystemTime.UNIX_EPOCH ≤ t → stored.isExpired t = link.isExpired t) ↔ Survives now e) := by
  refine ⟨_, get_insert hok, ?_⟩
  rw [← expiresColumn_iff]
  have hat : ∀ t, ({ recorded db now link with id := some r.nextId } : ShortLink).isExpired t =
      link.isExpired t ↔ (expiresColumn now e ≤ t ↔ e ≤ t) := by
    intro t
    simp only [ShortLink.isExpired, recorded, hexp, Option.map_some, Option.any_some]
    rw [Bool.eq_iff_iff, decide_eq_true_iff, decide_eq_true_iff]
  constructor
  · intro h t ht
    exact (hat t).mp (h t ht)
  · intro h t ht
    exact (hat t).mpr (h t ht)

/-- A link that expires a whole second after the epoch. -/
def wholeSecondLink : ShortLink := RowCall.promoLink.withExpiresAt (.ofSecs 1)

theorem isExpired_insert_wholeSecond :
    ∃ stored, ((new : PostgresRepo RowCall.plainDb).insert .UNIX_EPOCH wholeSecondLink).2.get
        wholeSecondLink.code = .ok stored ∧
      ((∀ t, SystemTime.UNIX_EPOCH ≤ t → stored.isExpired t = wholeSecondLink.isExpired t) ↔
        Survives .UNIX_EPOCH (.ofSecs 1)) :=
  isExpired_insert_iff new .UNIX_EPOCH wholeSecondLink (.ofSecs 1) rfl
    (find?_insert .UNIX_EPOCH rfl rfl).1

theorem halfSecond_inRange :
    -(2 ^ 63 * 10 ^ 9) ≤ (1500000000 : Int) ∧ (1500000000 : Int) < 2 ^ 63 * 10 ^ 9 := by decide

/-- A second and a half after the epoch. -/
def halfSecond : SystemTime := ⟨1500000000, halfSecond_inRange⟩

def halfSecondLink : ShortLink := RowCall.promoLink.withExpiresAt halfSecond

/-- The half second is lost: the stored link is expired at the first second, the
link that was inserted is not. -/
theorem not_isExpired_insert :
    ¬ ∀ (db : Database) (r : PostgresRepo db) (now : SystemTime) (link : ShortLink) (e : SystemTime),
      link.expiresAt = some e → (r.insert now link).1 = .ok () →
      ∃ stored, (r.insert now link).2.get link.code = .ok stored ∧
        ∀ t, SystemTime.UNIX_EPOCH ≤ t → stored.isExpired t = link.isExpired t := by
  intro h
  obtain ⟨stored, hget, hsame⟩ := h RowCall.plainDb new .UNIX_EPOCH halfSecondLink halfSecond rfl
    (find?_insert .UNIX_EPOCH rfl rfl).1
  rw [get_insert (find?_insert .UNIX_EPOCH rfl rfl).1] at hget
  cases hget
  have hone := hsame (.ofSecs 1) (by decide)
  revert hone
  decide

end PostgresRepo

end Shorty
