import Shorty.Lib.Run
import Shorty.InMemory

/-!
# Shorty.InMemory.InStep

The in-memory store counts a redirect twice: on the entry of the link and in
the sliding window of its code.  The two counters agree as long as no link that
was ever followed is removed by `removeSync`, which drops the entry and leaves
the window behind; the purge drops both.

`InStep` is the agreement as a reader of the store sees it.  It is not
inductive: a counted entry without a window would break it at the next hit.
`Counted` closes that gap and is what the step lemmas carry.
-/

namespace Shorty

namespace InMemoryRepo

/-- Every window belongs to a stored link and has counted what its entry has. -/
def InStep (r : InMemoryRepo) : Prop :=
  ∀ code w, r.stats.get code = some w → ∃ e, r.inner.get? code = some e ∧ w.getTotal = e.hits

/-- The call does not remove a stored link that has a window. -/
def KeepsWindows (r : InMemoryRepo) : RepoOp → Prop
  | .remove code => r.inner.get? code = none ∨ r.stats.get code = none
  | _ => True

/-- What a code's window has counted, a missing window nothing. -/
def counted (r : InMemoryRepo) (code : String) : Nat := ((r.stats.get code).getD .new).getTotal

/-- The windows count what the entries count, and a code without an entry has no
window. -/
structure Counted (r : InMemoryRepo) : Prop where
  stored : ∀ code e, r.inner.get? code = some e → r.counted code = e.hits
  absent : ∀ code, r.inner.get? code = none → r.stats.get code = none

theorem Counted.inStep {r : InMemoryRepo} (h : Counted r) : InStep r := by
  intro code w hw
  cases he : r.inner.get? code with
  | none =>
      rw [h.absent code he] at hw
      cases hw
  | some e =>
      have htotal : r.counted code = e.hits := h.stored code e he
      rw [counted, hw] at htotal
      exact ⟨e, rfl, htotal⟩

theorem counted_new : Counted new where
  stored := fun _ _ h => by cases h
  absent := fun _ _ => rfl

/-! ## one call -/

variable {r : InMemoryRepo}

theorem counted_insert (h : Counted r) (link : ShortLink) : Counted (r.apply (.insert link)) := by
  cases hl : r.inner.get? link.code with
  | some e =>
      rw [apply, insertSync_of_taken hl]
      exact h
  | none =>
      obtain ⟨_, hstats, hget⟩ := get?_insertSync link hl
      constructor
      · intro code e he
        rw [apply, hget] at he
        rw [counted, apply, hstats]
        by_cases hc : code = link.code
        · rw [if_pos hc] at he
          cases he
          rw [hc, h.absent _ hl]
          rfl
        · rw [if_neg hc] at he
          exact h.stored code e he
      · intro code hnone
        rw [apply, hget] at hnone
        rw [apply, hstats]
        by_cases hc : code = link.code
        · rw [if_pos hc] at hnone
          cases hnone
        · rw [if_neg hc] at hnone
          exact h.absent code hnone

theorem counted_update (h : Counted r) (now : SystemTime) (code url : String) :
    Counted (r.apply (.update now code url)) := by
  cases he : r.inner.get? code with
  | none =>
      rw [apply, updateSync_of_none he]
      exact h
  | some e =>
      obtain ⟨_, hstats, hget⟩ := get?_updateSync now url he
      constructor
      · intro code' e' he'
        rw [apply, hget] at he'
        rw [counted, apply, hstats]
        by_cases hc : code' = code
        · rw [if_pos hc] at he'
          cases he'
          rw [hc]
          exact h.stored code e he
        · rw [if_neg hc] at he'
          exact h.stored code' e' he'
      · intro code' hnone
        rw [apply, hget] at hnone
        rw [apply, hstats]
        by_cases hc : code' = code
        · rw [if_pos hc] at hnone
          cases hnone
        · rw [if_neg hc] at hnone
          exact h.absent code' hnone

/-- A hit counts once on each side; a window that does not exist yet starts from
nothing, as the entry did. -/
theorem counted_recordHit (h : Counted r) (now : SystemTime) (code : String) :
    Counted (r.apply (.recordHit now code)) := by
  cases he : r.inner.get? code with
  | none =>
      rw [apply, recordHitSync_of_none he]
      exact h
  | some e =>
      obtain ⟨_, hget, hstats⟩ := get?_recordHitSync now he
      constructor
      · intro code' e' he'
        rw [apply, hget] at he'
        rw [counted, apply, hstats]
        by_cases hc : code' = code
        · rw [if_pos hc] at he'
          cases he'
          have htotal : r.counted code = e.hits := h.stored code e he
          rw [counted, SlidingWindowStats.getTotal] at htotal
          rw [if_pos hc, Option.getD_some, SlidingWindowStats.getTotal,
            SlidingWindowStats.totalHits_recordHit, htotal]
        · rw [if_neg hc] at he'
          rw [if_neg hc]
          exact h.stored code' e' he'
      · intro code' hnone
        rw [apply, hget] at hnone
        rw [apply, hstats]
        by_cases hc : code' = code
        · rw [if_pos hc] at hnone
          cases hnone
        · rw [if_neg hc] at hnone
          rw [if_neg hc]
          exact h.absent code' hnone

theorem counted_remove (h : Counted r) (code : String)
    (hkeep : r.inner.get? code = none ∨ r.stats.get code = none) :
    Counted (r.apply (.remove code)) := by
  cases he : r.inner.get? code with
  | none =>
      rw [apply, removeSync_of_none he]
      exact h
  | some e =>
      have hwindow : r.stats.get code = none := by
        rcases hkeep with hk | hk
        · rw [he] at hk
          cases hk
        · exact hk
      obtain ⟨_, hstats, hget⟩ := get?_removeSync he
      constructor
      · intro code' e' he'
        rw [apply, hget] at he'
        rw [counted, apply, hstats]
        by_cases hc : code' = code
        · rw [if_pos hc] at he'
          cases he'
        · rw [if_neg hc] at he'
          exact h.stored code' e' he'
      · intro code' hnone
        rw [apply, hget] at hnone
        rw [apply, hstats]
        by_cases hc : code' = code
        · rw [hc]
          exact hwindow
        · rw [if_neg hc] at hnone
          exact h.absent code' hnone

theorem counted_purgeExpired (h : Counted r) (now : SystemTime) :
    Counted (r.apply (.purgeExpired now)) := by
  constructor
  · intro code e he
    rw [apply, get?_purgeExpiredSync] at he
    obtain ⟨he, hlive⟩ := Option.filter_eq_some_iff.mp he
    have hkept : code ∉ r.expiredCodes now := by
      rw [mem_expiredCodes, he]
      simpa using hlive
    rw [counted, apply, stats_get_purgeExpiredSync, if_neg hkept]
    exact h.stored code e he
  · intro code hnone
    rw [apply, stats_get_purgeExpiredSync]
    by_cases hexp : code ∈ r.expiredCodes now
    · exact if_pos hexp
    · rw [if_neg hexp]
      rw [apply, get?_purgeExpiredSync] at hnone
      cases he : r.inner.get? code with
      | none => exact h.absent code he
      | some e =>
          rw [mem_expiredCodes, he] at hexp
          simp only [Option.some.injEq, exists_eq_left', Bool.not_eq_true] at hexp
          rw [he, Option.filter_some, hexp] at hnone
          cases hnone

/-- Every call but the removal of a followed link keeps the counters together. -/
theorem counted_apply (h : Counted r) (op : RepoOp) (hkeep : KeepsWindows r op) :
    Counted (r.apply op) := by
  cases op with
  | insert link => exact counted_insert h link
  | update now code url => exact counted_update h now code url
  | recordHit now code => exact counted_recordHit h now code
  | remove code => exact counted_remove h code hkeep
  | purgeExpired now => exact counted_purgeExpired h now

/-- The removal of a followed link leaves its window without a link. -/
theorem keepsWindows_of_inStep (op : RepoOp) (h : InStep (r.apply op)) : KeepsWindows r op := by
  cases op with
  | remove code =>
      cases he : r.inner.get? code with
      | none => exact Or.inl he
      | some e =>
          right
          obtain ⟨_, hstats, hget⟩ := get?_removeSync he
          cases hw : r.stats.get code with
          | none => rfl
          | some w =>
              obtain ⟨e', he', _⟩ := h code w (by rw [apply, hstats, hw])
              rw [apply, hget, if_pos rfl] at he'
              cases he'
  | _ => trivial

/-! ## runs -/

/-- **Hits and statistics in step**: along a run from the empty store the entry
counters and the windows agree in every state exactly when no call of the run
removes a link that has a window. -/
theorem throughout_inStep_iff (ops : List RepoOp) :
    Run.Throughout apply InStep new ops ↔ Run.Along apply KeepsWindows new ops :=
  Run.throughout_iff_along (fun _ => Counted.inStep) (fun _ op h => counted_apply h op)
    (fun _ op _ => keepsWindows_of_inStep op) counted_new

/-- A link created, followed once and removed: the window outlives the link. -/
def followedThenRemoved : List RepoOp := [
  .insert (.new .UNIX_EPOCH "promo2026" "https://example.com/"),
  .recordHit .UNIX_EPOCH "promo2026",
  .remove "promo2026"]

theorem not_throughout_inStep : ¬ ∀ ops, Run.Throughout apply InStep new ops := by
  intro h
  have hlast : InStep (Run.reach apply new followedThenRemoved) := (h followedThenRemoved).last
  have hwindow : (Run.reach apply new followedThenRemoved).stats.get "promo2026" =
      some (SlidingWindowStats.new.recordHit .UNIX_EPOCH) := by decide
  have hgone : (Run.reach apply new followedThenRemoved).inner.get? "promo2026" = none := by decide
  obtain ⟨e, he, _⟩ := hlast _ _ hwindow
  rw [hgone] at he
  cases he

end InMemoryRepo

end Shorty
