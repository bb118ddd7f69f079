import Shorty.Api.Ttl
import Shorty.Auth.Acceptance
import Shorty.Process.Skeleton
import Shorty.Timed.Expiries
import Shorty.Timed.Recency

/-!
# Shorty.Process.Residency

How long a link is stored once it has expired.  The cleaner drops it with its next purge that
does not fail, and the time to the next is a cleanup period, as long as a purge is no longer
than that, and whatever the cleaner is late by.  No request stores a link that expired much
before: its time to live is counted from its arrival, and the request timeout is over soon
after.

All of this is by a system clock that nobody sets.
-/

namespace Shorty

namespace Process

open LawfulLinkRepository (find)

/-- By how much a link can have expired when it is stored. -/
def Boot.slackNs (b : Boot) : Int := b.deployment.requestTimeoutMs * 10 ^ 6 + 10 ^ 9

/-- The longest time from one purge to the next. -/
def Pace.gapMs (pace : Pace) : Nat := cleanupPeriodMs + pace.lateMs

namespace State

variable {config : Config} {R : Type} [LinkRepository R] {b : Boot} {s : State config R} {pace : Pace}

/-! ## the clock of a request -/

/-- Requests arrive when the system clock says so. -/
def Synced (b : Boot) (p : Timed.Clients config R) : Prop :=
  ∀ t ∈ p.tasks, t.request.now.ns = b.bootedNs + (p.stateAt t.startedAt).nowMs * 10 ^ 6

theorem synced_step {p : Timed.Clients config R} (hsound : Timed.Sound b.deployment p) (h : Synced b p)
    (m : Pool.Move (Timed.Request config) Timed.Event)
    (hm : ∀ q, m = .start q → q.now.ns = b.bootedNs + p.state.nowMs * 10 ^ 6) :
    Synced b (Timed.step b.deployment p m) := by
  -- what has been started is not started again
  have hold : ∀ p' : Timed.Clients config R, p'.past = p.past ++ [p.state] → ∀ t ∈ p.tasks,
      t.request.now.ns = b.bootedNs + (p'.stateAt t.startedAt).nowMs * 10 ^ 6 := by
    intro p' hpast t ht
    rw [Pool.stateAt_of_past hpast (Nat.le_of_lt (hsound.started t ht))]
    exact h t ht
  obtain hsame | ⟨hmove, _⟩ := Timed.step_cases b.deployment p m
  · rw [hsame]
    exact h
  · rw [hmove]
    cases m with
    | start q =>
        intro t ht
        obtain hmem | hnew := List.mem_append.mp ht
        · exact hold _ rfl t hmem
        · obtain rfl := List.mem_singleton.mp hnew
          rw [Pool.stateAt_of_past rfl (Nat.le_refl _), Pool.stateAt_of_clock_le (Nat.le_refl _)]
          exact hm q rfl
    | env e => exact fun t ht => hold _ rfl t ht
    | advance i =>
        have hadvance : Timed.move b.deployment p (.advance i) = p ∨
            ∃ u c k, p.tasks[i]? = some u ∧ u.rest = .call c k ∧
              Timed.move b.deployment p (.advance i) =
                p.called (Timed.State.exec b.deployment.json) i u c k := Pool.step_advance p i
        obtain hstay | ⟨u, c, k, hu, _, hcalled⟩ := hadvance
        · rw [hstay]
          exact h
        · rw [hcalled]
          intro t ht
          obtain hmem | rfl := Pool.mem_tasks_called ht
          · exact hold _ rfl t hmem
          · exact hold (p.called (Timed.State.exec b.deployment.json) i u c k) rfl u (List.mem_of_getElem? hu)

/-- The clients of a process. -/
structure Tracked (b : Boot) (s : State config R) : Prop where
  sound : Timed.Sound b.deployment s.clients
  synced : Synced b s.clients

theorem Tracked.step (h : Tracked b s) (e : Event config) : Tracked b (s.step b e) := by
  obtain hsame | ⟨m, hm, hnow⟩ := clients_step b s e
  · exact ⟨hsame ▸ h.sound, hsame ▸ h.synced⟩
  · exact ⟨hm ▸ Timed.sound_step h.sound m, hm ▸ synced_step h.sound h.synced m hnow⟩

/-! ## what a purge leaves behind -/

variable [LawfulLinkRepository R]

/-- Nothing is stored that had expired for long when the process was `sinceMs` old. -/
def Swept (b : Boot) (sinceMs : Nat) (s : State config R) : Prop :=
  ∀ e, Timed.Holds (find s.clients.state.repo) e → b.bootedNs + sinceMs * 10 ^ 6 ≤ e.ns + b.slackNs

variable [RecordsExpiry R] {sinceMs : Nat}

/-- What is inserted has not expired for long. -/
theorem swept_insert (h : Tracked b s) {t : Timed.ClientTask config R} {now : SystemTime} {link : ShortLink}
    (ht : t ∈ s.clients.tasks) (hlive : ¬ Timed.Dropped b.deployment s.clients t)
    (hstamped : Timed.Stamped t.request (.insert now link)) (hsince : sinceMs ≤ s.nowMs) {e : SystemTime}
    (he : (LawfulLinkRepository.recorded R now link).expiresAt = some e) :
    b.bootedNs + sinceMs * 10 ^ 6 ≤ e.ns + b.slackNs := by
  obtain ⟨e', he', hle⟩ := RecordsExpiry.le_recorded he
  obtain ⟨⟨a, hhttp⟩, hnow, harrived⟩ := hstamped e' he'
  have hstart := h.synced t ht
  have hintime : s.nowMs ≤ (s.clients.stateAt t.startedAt).nowMs + b.deployment.requestTimeoutMs := by
    simp only [Timed.Dropped, hhttp] at hlive
    exact Nat.le_of_not_lt hlive
  -- the time to live is counted from the arrival, and the timeout is not over
  have hrecorded : t.request.now.ns ≤ e.ns + 10 ^ 9 := by
    obtain hexpiry | hinsert := hle
    · exact le_trans (SystemTime.le_iff.mp harrived) hexpiry
    · exact hnow ▸ hinsert
  have hslack : b.slackNs = b.deployment.requestTimeoutMs * 10 ^ 6 + 10 ^ 9 := rfl
  omega

/-- The clients do not undo a purge. -/
theorem swept_moved (h : Tracked b s) (hswept : Swept b sinceMs s) (hsince : sinceMs ≤ s.nowMs)
    (m : Pool.Move (Timed.Request config) Timed.Event) : Swept b sinceMs (s.moved b m) := by
  intro e he
  have hmoved : (s.moved b m).clients = Timed.step b.deployment s.clients m := rfl
  rw [hmoved] at he
  obtain hsame | ⟨hmove, hlive⟩ := Timed.step_cases b.deployment s.clients m
  · rw [hsame] at he
    exact hswept e he
  · rw [hmove] at he
    cases m with
    | start q => exact hswept e he
    | env event =>
        cases event with
        | pass ms => exact hswept e he
        | evict key => exact hswept e he
        | purge now =>
            have hpurged : Timed.Holds (find (LinkRepository.purgeExpired now s.clients.state.repo).2) e := he
            rw [LawfulLinkRepository.find_purgeExpired] at hpurged
            exact hswept e hpurged.of_purge.1
    | advance i =>
        have hadvance : Timed.move b.deployment s.clients (.advance i) = s.clients ∨
            ∃ u c k, s.clients.tasks[i]? = some u ∧ u.rest = .call c k ∧
              Timed.move b.deployment s.clients (.advance i) =
                s.clients.called (Timed.State.exec b.deployment.json) i u c k := Pool.step_advance s.clients i
        obtain hstay | ⟨u, c, k, hu, hcall, hcalled⟩ := hadvance
        · rw [hstay] at he
          exact hswept e he
        · rw [hcalled] at he
          obtain hheld | ⟨now, link, rfl, hrecorded⟩ := Timed.holds_exec b.deployment.json he
          · exact hswept e hheld
          · have hmem : u ∈ s.clients.tasks := List.mem_of_getElem? hu
            have honly := (Pool.only_of_follows (h.sound.follows u hmem)
              (Timed.only_stamped_program b.deployment.crates u.request)).1
            rw [hcall] at honly
            cases honly with
            | call _ _ hstamped _ => exact swept_insert h hmem (hlive i u rfl hu) hstamped hsince hrecorded

omit [RecordsExpiry R] in
/-- After a purge nothing is stored that had expired when it began. -/
theorem swept_purged (now : SystemTime) (hnow : now.ns = b.bootedNs + sinceMs * 10 ^ 6) :
    Swept b sinceMs (s.moved b (.env (.purge now))) := by
  intro e he
  have hpurged : Timed.Holds (find (LinkRepository.purgeExpired now s.clients.state.repo).2) e := he
  rw [LawfulLinkRepository.find_purgeExpired] at hpurged
  have hlater : now.ns < e.ns := lt_of_not_ge hpurged.of_purge.2.not_ge
  have hslack : b.slackNs = b.deployment.requestTimeoutMs * 10 ^ 6 + 10 ^ 9 := rfl
  omega

/-! ## the cleaner -/

/-- When the last purge but those that have failed began: at the start of the process, where
all have. -/
def LastSwept (pace : Pace) (b : Boot) (s : State config R) (sinceMs failed : Nat) : Prop :=
  (∃ sweptMs ≤ s.nowMs, Swept b sweptMs s ∧ sinceMs ≤ sweptMs + failed * pace.gapMs) ∨
    sinceMs + pace.gapMs ≤ pace.lateMs + failed * pace.gapMs

/-- A purge has been over since, of what had expired not long ago. -/
def Cleaned (pace : Pace) (b : Boot) (s : State config R) : Prop :=
  match s.cleaner.phase with
  | .waiting t => (t = 0 ∧ s.cleaner.interval.nextMs = 0 ∧ s.failedPurges = 0) ∨
      ∃ sinceMs, LastSwept pace b s sinceMs s.failedPurges ∧
        t ≤ sinceMs + pace.purgeMs ∧ s.cleaner.interval.nextMs ≤ sinceMs + cleanupPeriodMs
  | .purging now t => now.ns = b.bootedNs + t * 10 ^ 6 ∧ t ≤ s.nowMs ∧
      s.cleaner.interval.nextMs ≤ t + cleanupPeriodMs ∧ LastSwept pace b s t (s.failedPurges + 1)
  | .exited _ => s.cancelledAt.isSome = true

theorem LastSwept.moved {sinceMs failed : Nat} (h : LastSwept pace b s sinceMs failed) (htracked : Tracked b s)
    (m : Pool.Move (Timed.Request config) Timed.Event) : LastSwept pace b (s.moved b m) sinceMs failed := by
  obtain ⟨sweptMs, hle, hswept, hsince⟩ | hnone := h
  · exact .inl ⟨sweptMs, hle.trans (nowMs_le_moved b s m), swept_moved htracked hswept hle m, hsince⟩
  · exact .inr hnone

theorem Cleaned.moved (h : Cleaned pace b s) (htracked : Tracked b s)
    (m : Pool.Move (Timed.Request config) Timed.Event) : Cleaned pace b (s.moved b m) := by
  have hcleaner : (s.moved b m).cleaner = s.cleaner := rfl
  have hfailed : (s.moved b m).failedPurges = s.failedPurges := rfl
  unfold Cleaned at h ⊢
  rw [hcleaner, hfailed]
  cases hphase : s.cleaner.phase with
  | waiting t =>
      rw [hphase] at h
      obtain hfirst | ⟨sinceMs, hlast, hrest⟩ := h
      · exact .inl hfirst
      · exact .inr ⟨sinceMs, hlast.moved htracked m, hrest⟩
  | purging now t =>
      rw [hphase] at h
      obtain ⟨hnow, ht, hnext, hlast⟩ := h
      exact ⟨hnow, ht.trans (nowMs_le_moved b s m), hnext, hlast.moved htracked m⟩
  | exited t =>
      rw [hphase] at h
      exact h

omit [RecordsExpiry R] in
theorem Cleaned.stop (h : Cleaned pace b s) (hcancelled : s.cancelledAt.isSome = true) :
    Cleaned pace b { s with cleaner := s.cleaner.stop s.nowMs } := by
  unfold Cleaned at h ⊢
  cases hphase : s.cleaner.phase with
  | waiting t =>
      simp only [Cleaner.stop, hphase]
      exact hcancelled
  | purging now t =>
      rw [show s.cleaner.stop s.nowMs = s.cleaner by simp [Cleaner.stop, hphase]]
      exact h
  | exited t =>
      rw [show s.cleaner.stop s.nowMs = s.cleaner by simp [Cleaner.stop, hphase]]
      exact h

omit [RecordsExpiry R] in
theorem Cleaned.signal (h : Cleaned pace b s) (http : Serving) :
    Cleaned pace b { s with cancelledAt := some s.nowMs, http := http } := by
  unfold Cleaned at h ⊢
  cases hphase : s.cleaner.phase with
  | waiting t =>
      rw [hphase] at h
      simp only
      exact h
  | purging now t =>
      rw [hphase] at h
      exact h
  | exited t => rfl

/-- What is stored, as long as nobody cancels the cleaner. -/
structure Sweeps (pace : Pace) (b : Boot) (s : State config R) : Prop where
  tracked : Tracked b s
  period : s.cleaner.interval.periodMs = cleanupPeriodMs
  cleaned : s.main.returned? = none → Cleaned pace b s

omit [LinkRepository R] [LawfulLinkRepository R] [RecordsExpiry R] in
/-- A cleaner that waits is not later than the time from one purge to the next. -/
theorem nowMs_waiting (hp : s.skeleton.Punctual pace) (hrun : s.main.returned? = none)
    (hpace : pace.purgeMs ≤ cleanupPeriodMs) {t sinceMs : Nat} (hphase : s.cleaner.phase = .waiting t)
    (ht : t ≤ sinceMs + pace.purgeMs) (hnext : s.cleaner.interval.nextMs ≤ sinceMs + cleanupPeriodMs) :
    s.nowMs ≤ sinceMs + pace.gapMs := by
  have hlate : s.nowMs ≤ max t s.cleaner.interval.nextMs + pace.lateMs := by
    cases hc : s.cancelledAt with
    | none => exact hp.cleaner hrun (by simp [Skeleton.cleanerDue, skeleton, hphase, hc])
    | some c =>
        have hdue := hp.cleaner hrun (Skeleton.cleanerDue_waiting (k := s.skeleton) hphase hc)
        simp only [skeleton] at hdue
        omega
  unfold Pace.gapMs
  omega

omit [RecordsExpiry R] in
/-- A tick comes no later than that after the purge before. -/
theorem Sweeps.tick (h : Sweeps pace b s) (hp : s.skeleton.Punctual pace) (hrun : s.main.returned? = none)
    (hpace : pace.purgeMs ≤ cleanupPeriodMs) {now : SystemTime} (hnow : now.ns = s.clockNs b) :
    Cleaned pace b { s with cleaner := s.cleaner.tick s.nowMs now } := by
  have hcleaned := h.cleaned hrun
  cases hphase : s.cleaner.phase with
  | waiting t =>
      by_cases hdue : s.cleaner.interval.nextMs ≤ s.nowMs
      · have hnext := Interval.nextMs_tick_le hdue
        rw [h.period] at hnext
        unfold Cleaned at hcleaned ⊢
        rw [hphase] at hcleaned
        rw [show s.cleaner.tick s.nowMs now = ⟨s.cleaner.interval.tick s.nowMs, .purging now s.nowMs⟩ by
          simp [Cleaner.tick, hphase, hdue]]
        refine ⟨hnow, Nat.le_refl _, hnext, ?_⟩
        have hsucc := Nat.add_one_mul s.failedPurges pace.gapMs
        obtain ⟨rfl, hzero, hfailed⟩ | ⟨sinceMs, hlast, ht, hnextMs⟩ := hcleaned
        · -- the first tick
          have hlate := hp.cleaner hrun (t := 0) (by
            cases hc : s.cancelledAt <;> simp [Skeleton.cleanerDue, skeleton, hphase, hc, hzero])
          simp only [skeleton] at hlate
          refine .inr ?_
          show s.nowMs + pace.gapMs ≤ pace.lateMs + (s.failedPurges + 1) * pace.gapMs
          rw [hfailed]
          omega
        · have hgap := nowMs_waiting hp hrun hpace hphase ht hnextMs
          obtain ⟨sweptMs, hle, hswept, hsince⟩ | hnone := hlast
          · refine .inl ⟨sweptMs, hle, hswept, ?_⟩
            show s.nowMs ≤ sweptMs + (s.failedPurges + 1) * pace.gapMs
            omega
          · refine .inr ?_
            show s.nowMs + pace.gapMs ≤ pace.lateMs + (s.failedPurges + 1) * pace.gapMs
            omega
      · rw [show s.cleaner.tick s.nowMs now = s.cleaner by simp [Cleaner.tick, hphase, hdue]]
        exact hcleaned
  | purging now' t =>
      rw [show s.cleaner.tick s.nowMs now = s.cleaner by simp [Cleaner.tick, hphase]]
      exact hcleaned
  | exited t =>
      rw [show s.cleaner.tick s.nowMs now = s.cleaner by simp [Cleaner.tick, hphase]]
      exact hcleaned

omit [RecordsExpiry R] in
theorem Sweeps.purged (h : Sweeps pace b s) (hp : s.skeleton.Punctual pace) (hrun : s.main.returned? = none)
    (fails : Bool) {now : SystemTime} (hpurging : s.cleaner.purging? = some now) :
    Cleaned pace b { s.swept b now fails with cleaner := s.cleaner.resume s.nowMs } := by
  have hcleaned := h.cleaned hrun
  unfold Cleaned at hcleaned ⊢
  cases hphase : s.cleaner.phase with
  | purging now' t =>
      obtain rfl : now' = now := by simpa [Cleaner.purging?, hphase] using hpurging
      rw [hphase] at hcleaned
      obtain ⟨hnow, ht, hnext, hlast⟩ := hcleaned
      have hpurge := hp.purge hrun (t := t) (by simp [skeleton, Cleaner.purgingSince?, hphase])
      refine .inr ⟨t, ?_, hpurge, hnext⟩
      cases fails with
      | true => exact hlast
      | false => exact .inl ⟨t, ht.trans (nowMs_le_moved b s _), swept_purged now' hnow, Nat.le_add_right _ _⟩
  | waiting t => simp [Cleaner.purging?, hphase] at hpurging
  | exited t => simp [Cleaner.purging?, hphase] at hpurging

theorem Sweeps.step (h : Sweeps pace b s) (hp : s.skeleton.Punctual pace)
    (hpace : pace.purgeMs ≤ cleanupPeriodMs) (e : Event config) : Sweeps pace b (s.step b e) := by
  refine ⟨h.tracked.step e, ?_, fun hrun' => ?_⟩
  · exact (skeleton_step b s e).period.trans h.period
  · have hrun : s.main.returned? = none := (skeleton_step b s e).running hrun'
    have hcleaned := h.cleaned hrun
    unfold State.step
    split
    · exact hcleaned
    · cases e with
      | advance i => exact hcleaned.moved h.tracked _
      | pass ms => exact hcleaned.moved h.tracked _
      | evict key => exact hcleaned.moved h.tracked _
      | wake i => exact hcleaned
      | start q =>
          simp only [live]
          split
          · exact hcleaned.moved h.tracked _
          · exact hcleaned
      | tick now =>
          simp only [live]
          split
          · rename_i hnow
            exact h.tick hp hrun hpace hnow
          · exact hcleaned
      | purged fails =>
          simp only [live]
          split
          · rename_i now hpurging
            exact h.purged hp hrun fails hpurging
          · exact hcleaned
      | cleanerStops =>
          simp only [live]
          split
          · rename_i hcancelled
            exact hcleaned.stop hcancelled
          · exact hcleaned
      | signal =>
          simp only [live]
          split
          · exact hcleaned.signal _
          · exact hcleaned
      | runReturns | exit =>
          simp only [live]
          split
          · split <;> exact hcleaned
          · exact hcleaned
      | httpFinishes | grpcBoots | grpcStops | grpcFinishes | select | sleep z =>
          simp only [live]
          split <;> exact hcleaned

end State

end Process

end Shorty
