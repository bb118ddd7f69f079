import Mathlib.Data.List.MinMax
import Mathlib.Order.Nat
import Shorty.Auth.Acceptance
import Shorty.Process.Skeleton
import Shorty.Timed.Recency

/-!
# Shorty.Process.Deadlines

When a process ends, provided that whatever is due is taken up in time.  `run` needs the
first server that ends, and the gRPC server has no reason to wait for the requests of the
other; so where nobody calls gRPC, `run` returns in no time after a signal.  What the process
still waits for are the threads that sleep.
-/

namespace Shorty

namespace Process

open Router (slowMs)

namespace Skeleton

variable {pace : Pace} {k k' : Skeleton}

/-! ## a shutdown -/

/-- Where the gRPC server of a process is that it has started in time. -/
def GrpcTimely (pace : Pace) (k : Skeleton) : Prop :=
  match k.grpc with
  | .starting => True
  | .accepting t => t ≤ pace.lateMs
  | .draining t _ => ∃ c, k.cancelledAt = some c ∧ t ≤ c + 2 * pace.lateMs
  | .finished t => ∃ c, k.cancelledAt = some c ∧ t ≤ c + 3 * pace.lateMs
  | .panicked _ => False

/-- Where the cleaner is. -/
def CleanerTimely (pace : Pace) (k : Skeleton) : Prop :=
  match k.cleaner.phase with
  | .waiting t => t ≤ k.nowMs ∧ ∀ c, k.cancelledAt = some c → c < t →
      t ≤ c + pace.lateMs + pace.purgeMs ∧ t + pace.lateMs < k.cleaner.interval.nextMs
  | .purging _ t => t ≤ k.nowMs ∧ t + cleanupPeriodMs ≤ k.cleaner.interval.nextMs + 5 ∧
      ∀ c, k.cancelledAt = some c → t ≤ c + pace.lateMs
  | .exited t => ∃ c, k.cancelledAt = some c ∧ t ≤ c + 2 * pace.lateMs + pace.purgeMs

/-- Where `main` is. -/
def MainTimely (pace : Pace) (k : Skeleton) : Prop :=
  match k.main with
  | .selecting => True
  | .waiting t => ∃ c, k.cancelledAt = some c ∧ t ≤ c + 4 * pace.lateMs
  | .dropping r => ∃ c, k.cancelledAt = some c ∧ r ≤ c + 5 * pace.lateMs + pace.purgeMs
  | .exited r _ => ∃ c, k.cancelledAt = some c ∧ r ≤ c + 5 * pace.lateMs + pace.purgeMs

/-- What a process that is punctual has kept to, where its gRPC server starts. -/
structure Timely (pace : Pace) (k : Skeleton) : Prop where
  http : k.http.isAccepting = k.cancelledAt.isNone
  period : k.cleaner.interval.periodMs = cleanupPeriodMs
  grpc : k.main.returned? = none → GrpcTimely pace k
  cleaner : k.main.returned? = none → CleanerTimely pace k
  main : MainTimely pace k

variable {c : Nat}

/-- The gRPC server ends soon after the signal. -/
theorem Timely.nowMs_grpc (h : Timely pace k) (hp : Punctual pace k) (hq : k.grpc.isQuiet = true)
    (hrun : k.main.returned? = none) (hc : k.cancelledAt = some c) (hended : k.grpc.ended? = none) :
    k.nowMs ≤ c + 3 * pace.lateMs := by
  have hgrpc := h.grpc hrun
  unfold GrpcTimely at hgrpc
  cases hserving : k.grpc with
  | starting =>
      have hdue := hp.grpc hrun (t := 0) (by simp [grpcDue, hserving])
      omega
  | accepting t =>
      rw [hserving] at hgrpc
      have hdue := hp.grpc hrun (grpcDue_accepting hserving hc)
      have ht : t ≤ pace.lateMs := hgrpc
      omega
  | draining t quiet =>
      rw [hserving] at hgrpc
      obtain ⟨c', hc', ht⟩ := hgrpc
      cases quiet with
      | true =>
          have hdue := hp.grpc hrun (grpcDue_draining hserving)
          have hcc : c' = c := Option.some.inj (hc'.symm.trans hc)
          omega
      | false => simp [hserving, Serving.isQuiet] at hq
  | finished t => simp [hserving, Serving.ended?] at hended
  | panicked t => simp [hserving, Serving.ended?] at hended

/-- So `main` does not wait long for a server to end. -/
theorem Timely.nowMs_selecting (h : Timely pace k) (hp : Punctual pace k) (hq : k.grpc.isQuiet = true)
    (hc : k.cancelledAt = some c) (hmain : k.main = .selecting) : k.nowMs ≤ c + 4 * pace.lateMs := by
  have hrun : k.main.returned? = none := by rw [hmain]; rfl
  have hgrpc := h.grpc hrun
  unfold GrpcTimely at hgrpc
  cases hserving : k.grpc with
  | finished t =>
      rw [hserving] at hgrpc
      obtain ⟨c', hc', ht⟩ := hgrpc
      have hdue := hp.run hrun (t := t) (by simp [runDue, hmain, hserving, Serving.ended?])
      have hcc : c' = c := Option.some.inj (hc'.symm.trans hc)
      omega
  | panicked t =>
      rw [hserving] at hgrpc
      exact hgrpc.elim
  | starting | accepting t | draining t quiet =>
      have hnow := h.nowMs_grpc hp hq hrun hc (by simp [hserving, Serving.ended?])
      omega

/-- The cleaner is done soon after the signal, with the purge that has been due then. -/
theorem Timely.nowMs_cleaner (h : Timely pace k) (hp : Punctual pace k) (hrun : k.main.returned? = none)
    (hc : k.cancelledAt = some c) (hexited : k.cleaner.exited? = none) :
    k.nowMs ≤ c + 2 * pace.lateMs + pace.purgeMs := by
  have hcleaner := h.cleaner hrun
  unfold CleanerTimely at hcleaner
  cases hphase : k.cleaner.phase with
  | waiting t =>
      rw [hphase] at hcleaner
      obtain ⟨_, hlate⟩ := hcleaner
      have hdue := hp.cleaner hrun (cleanerDue_waiting hphase hc)
      by_cases hct : c < t
      · have ht := (hlate c hc hct).1
        omega
      · omega
  | purging now t =>
      rw [hphase] at hcleaner
      obtain ⟨_, _, hlate⟩ := hcleaner
      have ht := hlate c hc
      have hpurge := hp.purge hrun (t := t) (by simp [Cleaner.purgingSince?, hphase])
      omega
  | exited t => simp [Cleaner.exited?, hphase] at hexited

/-- Until `run` returns. -/
theorem Timely.nowMs_running (h : Timely pace k) (hp : Punctual pace k) (hq : k.grpc.isQuiet = true)
    (hrun : k.main.returned? = none) (hc : k.cancelledAt = some c) :
    k.nowMs ≤ c + 5 * pace.lateMs + pace.purgeMs := by
  cases hphase : k.main with
  | selecting =>
      have hnow := h.nowMs_selecting hp hq hc hphase
      omega
  | waiting w =>
      have hwaiting := h.main
      unfold MainTimely at hwaiting
      rw [hphase] at hwaiting
      obtain ⟨c', hc', hw⟩ := hwaiting
      have hcc : c' = c := Option.some.inj (hc'.symm.trans hc)
      cases hcleaner : k.cleaner.phase with
      | exited x =>
          have hx := h.cleaner hrun
          unfold CleanerTimely at hx
          rw [hcleaner] at hx
          obtain ⟨c'', hc'', hxle⟩ := hx
          have hcx : c'' = c := Option.some.inj (hc''.symm.trans hc)
          have hdue := hp.run hrun (t := max w x) (by simp [runDue, hphase, hcleaner, Cleaner.exited?])
          omega
      | waiting t | purging now t =>
          have hnow := h.nowMs_cleaner hp hrun hc (by simp [Cleaner.exited?, hcleaner])
          omega
  | dropping r | exited r e => simp [hphase, Main.returned?] at hrun

/-- A process is cancelled by the signal that its HTTP server takes. -/
theorem Timely.cancelled_none {t : Nat} (h : Timely pace k) (hhttp : k.http = .accepting t) :
    k.cancelledAt = none := by
  have hnone := h.http
  rw [hhttp] at hnone
  simpa [Serving.isAccepting] using hnone.symm

theorem Timely.cancelled_some (h : Timely pace k) (hhttp : k.http.isAccepting = false) :
    ∃ c, k.cancelledAt = some c := by
  have hnone := h.http
  rw [hhttp] at hnone
  exact Option.isSome_iff_exists.mp (Option.isNone_eq_false_iff.mp hnone.symm)

/-- No server ends before. -/
theorem Timely.cancelled_of_ended (h : Timely pace k) (hrun : k.main.returned? = none)
    (hended : k.http.ended?.isSome = true ∨ k.grpc.ended?.isSome = true) : ∃ c, k.cancelledAt = some c := by
  obtain hhttp | hgrpc := hended
  · refine h.cancelled_some ?_
    cases hserving : k.http <;> simp [hserving, Serving.ended?, Serving.isAccepting] at hhttp ⊢
  · have htimely := h.grpc hrun
    unfold GrpcTimely at htimely
    cases hserving : k.grpc with
    | finished t =>
        rw [hserving] at htimely
        obtain ⟨c, hc, _⟩ := htimely
        exact ⟨c, hc⟩
    | panicked t =>
        rw [hserving] at htimely
        exact htimely.elim
    | starting | accepting t | draining t quiet => simp [hserving, Serving.ended?] at hgrpc

theorem Timely.grpc_step (h : Timely pace k) (hp : Punctual pace k) (hq : k.grpc.isQuiet = true)
    (hrun : k.main.returned? = none) (hmove : Move true k k') : GrpcTimely pace k' := by
  have hgrpc := h.grpc hrun
  unfold GrpcTimely at hgrpc ⊢
  cases hmove with
  | signalled t quiet hhttp =>
      have hnone := h.cancelled_none hhttp
      cases hserving : k.grpc <;> simp_all
  | grpcBooted hstarting _ =>
      have hdue := hp.grpc hrun (t := 0) (by simp [grpcDue, hstarting])
      simpa using hdue
  | grpcPanicked _ hstarts => exact absurd hstarts (by decide)
  | grpcStopped t c quiet haccepting hc =>
      rw [haccepting] at hgrpc
      have hdue := hp.grpc hrun (grpcDue_accepting haccepting hc)
      have ht : t ≤ pace.lateMs := hgrpc
      refine ⟨c, hc, ?_⟩
      show k.nowMs ≤ c + 2 * pace.lateMs
      omega
  | grpcFinished t quiet hdraining =>
      rw [hdraining] at hgrpc
      obtain ⟨c, hc, ht⟩ := hgrpc
      have hnow := h.nowMs_grpc hp hq hrun hc (by simp [hdraining, Serving.ended?])
      exact ⟨c, hc, hnow⟩
  | stays | passed | httpFinished | ticked | purged | cleanerStopped | slept | woken | selected | returned
    | exited => exact hgrpc

theorem Timely.cleaner_step (h : Timely pace k) (hp : Punctual pace k)
    (hpace : pace.lateMs + pace.purgeMs + 5 < cleanupPeriodMs) (hrun : k.main.returned? = none)
    (hmove : Move true k k') : CleanerTimely pace k' := by
  have hcleaner := h.cleaner hrun
  unfold CleanerTimely at hcleaner ⊢
  cases hmove with
  | stays | httpFinished | grpcBooted | grpcPanicked | grpcStopped | grpcFinished | slept | woken | selected
    | returned | exited => exact hcleaner
  | passed ms =>
      cases hphase : k.cleaner.phase with
      | waiting t =>
          rw [hphase] at hcleaner
          exact ⟨Nat.le_add_right_of_le hcleaner.1, hcleaner.2⟩
      | purging now t =>
          rw [hphase] at hcleaner
          exact ⟨Nat.le_add_right_of_le hcleaner.1, hcleaner.2⟩
      | exited t =>
          rw [hphase] at hcleaner
          exact hcleaner
  | signalled t quiet hhttp =>
      have hnone := h.cancelled_none hhttp
      cases hphase : k.cleaner.phase with
      | waiting t =>
          rw [hphase] at hcleaner
          refine ⟨hcleaner.1, fun c hc hct => ?_⟩
          have hcn : k.nowMs = c := Option.some.inj hc
          have hle := hcleaner.1
          omega
      | purging now t =>
          rw [hphase] at hcleaner
          refine ⟨hcleaner.1, hcleaner.2.1, fun c hc => ?_⟩
          have hcn : k.nowMs = c := Option.some.inj hc
          have hle := hcleaner.1
          omega
      | exited t =>
          rw [hphase] at hcleaner
          obtain ⟨c, hc, _⟩ := hcleaner
          rw [hnone] at hc
          cases hc
  | ticked t now hphase hdue =>
      rw [hphase] at hcleaner
      refine ⟨Nat.le_refl _, ?_, fun c hc => ?_⟩
      · have hnext := Interval.le_nextMs_tick k.nowMs k.cleaner.interval
        rw [h.period] at hnext
        exact hnext
      · -- a tick that has been taken after the signal was due before it
        have hlate := hp.cleaner hrun (cleanerDue_waiting hphase hc)
        by_cases hct : c < t
        · have hnext := (hcleaner.2 c hc hct).2
          omega
        · show k.nowMs ≤ c + pace.lateMs
          omega
  | purged now t hphase =>
      rw [hphase] at hcleaner
      obtain ⟨hle, hnext, hlate⟩ := hcleaner
      have hpurge := hp.purge hrun (t := t) (by simp [Cleaner.purgingSince?, hphase])
      refine ⟨Nat.le_refl _, fun c hc _ => ⟨?_, ?_⟩⟩
      · have ht := hlate c hc
        show k.nowMs ≤ c + pace.lateMs + pace.purgeMs
        omega
      · show k.nowMs + pace.lateMs < k.cleaner.interval.nextMs
        omega
  | cleanerStopped t c hphase hc =>
      have hnow := h.nowMs_cleaner hp hrun hc (by simp [Cleaner.exited?, hphase])
      exact ⟨c, hc, hnow⟩

theorem Timely.main_step (h : Timely pace k) (hp : Punctual pace k) (hq : k.grpc.isQuiet = true)
    (hmove : Move true k k') : MainTimely pace k' := by
  have hmain := h.main
  unfold MainTimely at hmain ⊢
  cases hmove with
  | signalled t quiet hhttp =>
      have hnone := h.cancelled_none hhttp
      cases hphase : k.main <;> simp_all
  | selected hselecting hended =>
      obtain ⟨c, hc⟩ := h.cancelled_of_ended (by rw [hselecting]; rfl) hended
      exact ⟨c, hc, h.nowMs_selecting hp hq hc hselecting⟩
  | returned w hwaiting _ =>
      rw [hwaiting] at hmain
      obtain ⟨c, hc, _⟩ := hmain
      exact ⟨c, hc, h.nowMs_running hp hq (by rw [hwaiting]; rfl) hc⟩
  | exited r hdropping _ =>
      rw [hdropping] at hmain
      exact hmain
  | stays | passed | httpFinished | grpcBooted | grpcPanicked | grpcStopped | grpcFinished | ticked | purged
    | cleanerStopped | slept | woken => exact hmain

theorem Timely.step (h : Timely pace k) (hp : Punctual pace k) (hq : k.grpc.isQuiet = true)
    (hpace : pace.lateMs + pace.purgeMs + 5 < cleanupPeriodMs) (hmove : Move true k k') : Timely pace k' where
  http := by
    cases hmove with
    | signalled t quiet hhttp => rfl
    | httpFinished t quiet hhttp =>
        have hnone := h.http
        rw [hhttp] at hnone
        exact hnone
    | _ => exact h.http
  period := hmove.period.trans h.period
  grpc hrun := h.grpc_step hp hq (hmove.running hrun) hmove
  cleaner hrun := h.cleaner_step hp hpace (hmove.running hrun) hmove
  main := h.main_step hp hq hmove

/-! ## a process whose gRPC server does not start -/

/-- What such a process has kept to. -/
structure Unstarted (pace : Pace) (k : Skeleton) : Prop where
  grpc : k.grpc = .starting ∨ ∃ t, k.grpc = .panicked t ∧ (k.main.returned? = none → t ≤ pace.lateMs)
  cleaner : ∀ x ∈ k.cleaner.exited?, k.cancelledAt.isSome = true ∧
    (k.main.returned? = none → x ≤ shutdownTimeoutMs + 3 * pace.lateMs)
  waiting : ∀ w, k.main = .waiting w → w ≤ 2 * pace.lateMs
  returned : ∀ r, k.main.returned? = some r → r ≤ shutdownTimeoutMs + 4 * pace.lateMs ∧
    (k.cancelledAt = none → shutdownTimeoutMs ≤ r)

/-- Once the gRPC server has not started, it stays so. -/
theorem Unstarted.grpc_imp {q : Prop} (h : Unstarted pace k) (hq : q → k.main.returned? = none) :
    k.grpc = .starting ∨ ∃ t, k.grpc = .panicked t ∧ (q → t ≤ pace.lateMs) := by
  obtain hstarting | ⟨t, hpanicked, ht⟩ := h.grpc
  · exact .inl hstarting
  · exact .inr ⟨t, hpanicked, fun hrun => ht (hq hrun)⟩

theorem Unstarted.nowMs_selecting (h : Unstarted pace k) (hp : Punctual pace k) (hmain : k.main = .selecting) :
    k.nowMs ≤ 2 * pace.lateMs := by
  have hrun : k.main.returned? = none := by rw [hmain]; rfl
  obtain hstarting | ⟨t, hpanicked, ht⟩ := h.grpc
  · have hdue := hp.grpc hrun (t := 0) (by simp [grpcDue, hstarting])
    omega
  · have hdue := hp.run hrun (t := t) (by simp [runDue, hmain, hpanicked, Serving.ended?])
    have hlate := ht hrun
    omega

/-- Unless the cleaner is done before, `run` waits for it to the end. -/
theorem Unstarted.nowMs_cleaner (h : Unstarted pace k) (hp : Punctual pace k) (hrun : k.main.returned? = none)
    (hexited : k.cleaner.exited? = none) : k.nowMs ≤ shutdownTimeoutMs + 3 * pace.lateMs := by
  cases hphase : k.main with
  | selecting =>
      have hnow := h.nowMs_selecting hp hphase
      omega
  | waiting w =>
      have hw := h.waiting w hphase
      have hdue := hp.run hrun (t := w + shutdownTimeoutMs) (by simp [runDue, hphase, hexited])
      omega
  | dropping r | exited r e => simp [hphase, Main.returned?] at hrun

theorem Unstarted.nowMs_running (h : Unstarted pace k) (hp : Punctual pace k)
    (hrun : k.main.returned? = none) : k.nowMs ≤ shutdownTimeoutMs + 4 * pace.lateMs := by
  cases hexited : k.cleaner.exited? with
  | none =>
      have hnow := h.nowMs_cleaner hp hrun hexited
      omega
  | some x =>
      have hx := (h.cleaner x (by simp [hexited])).2 hrun
      cases hphase : k.main with
      | selecting =>
          have hnow := h.nowMs_selecting hp hphase
          omega
      | waiting w =>
          have hw := h.waiting w hphase
          have hdue := hp.run hrun (t := max w x) (by simp [runDue, hphase, hexited])
          omega
      | dropping r | exited r e => simp [hphase, Main.returned?] at hrun

theorem Unstarted.step (h : Unstarted pace k) (hp : Punctual pace k) (hmove : Move false k k') :
    Unstarted pace k' := by
  cases hmove with
  | signalled t quiet hhttp =>
      exact ⟨h.grpc, fun x hx => ⟨rfl, (h.cleaner x hx).2⟩, h.waiting,
        fun r hr => ⟨(h.returned r hr).1, fun hc => by simp at hc⟩⟩
  | grpcBooted _ hstarts => exact absurd hstarts (by decide)
  | grpcPanicked hstarting _ =>
      refine ⟨.inr ⟨_, rfl, fun hrun => ?_⟩, h.cleaner, h.waiting, h.returned⟩
      have hdue := hp.grpc hrun (t := 0) (by simp [grpcDue, hstarting])
      omega
  | grpcStopped t c quiet haccepting _ =>
      obtain hstarting | ⟨t', hpanicked, _⟩ := h.grpc
      · simp [hstarting] at haccepting
      · simp [hpanicked] at haccepting
  | grpcFinished t quiet hdraining =>
      obtain hstarting | ⟨t', hpanicked, _⟩ := h.grpc
      · simp [hstarting] at hdraining
      · simp [hpanicked] at hdraining
  | ticked t now hphase hdue =>
      exact ⟨h.grpc, fun x hx => by simp [Cleaner.exited?] at hx, h.waiting, h.returned⟩
  | purged now t hphase => exact ⟨h.grpc, fun x hx => by simp [Cleaner.exited?] at hx, h.waiting, h.returned⟩
  | cleanerStopped t c hphase hc =>
      refine ⟨h.grpc, fun x hx => ⟨by simp [hc], fun hrun => ?_⟩, h.waiting, h.returned⟩
      obtain rfl : k.nowMs = x := by simpa [Cleaner.exited?] using hx
      exact h.nowMs_cleaner hp hrun (by simp [Cleaner.exited?, hphase])
  | selected hselecting hended =>
      have hrun : k.main.returned? = none := by rw [hselecting]; rfl
      refine ⟨h.grpc_imp (fun _ => hrun), fun x hx => ⟨(h.cleaner x hx).1, fun _ => (h.cleaner x hx).2 hrun⟩,
        fun w hw => ?_, fun r hr => by cases hr⟩
      obtain rfl : k.nowMs = w := by simpa using hw
      exact h.nowMs_selecting hp hselecting
  | returned w hwaiting hdue =>
      have hrun : k.main.returned? = none := by rw [hwaiting]; rfl
      refine ⟨?_, fun x hx => ⟨(h.cleaner x hx).1, fun hnone => by cases hnone⟩, fun w' hw => (by cases hw),
        fun r hr => ?_⟩
      · exact h.grpc_imp (fun hnone => by cases hnone)
      · obtain rfl : k.nowMs = r := by simpa [Main.returned?] using hr
        refine ⟨h.nowMs_running hp hrun, fun hc => ?_⟩
        -- nobody has cancelled the cleaner, so it is the timeout that is over
        obtain hexited | htimeout := hdue
        · obtain ⟨x, hx⟩ := Option.isSome_iff_exists.mp hexited
          have hcancelled := (h.cleaner x (by simp [hx])).1
          have hnone : k.cancelledAt = none := hc
          simp [hnone] at hcancelled
        · show shutdownTimeoutMs ≤ k.nowMs
          omega
  | exited r hdropping hover =>
      refine ⟨?_, fun x hx => ⟨(h.cleaner x hx).1, fun hnone => by cases hnone⟩, fun w hw => (by cases hw),
        fun r' hr => ?_⟩
      · exact h.grpc_imp (fun hnone => by cases hnone)
      · exact h.returned r' (by rw [hdropping]; exact hr)
  | stays | passed | httpFinished | slept | woken => exact ⟨h.grpc, h.cleaner, h.waiting, h.returned⟩

/-! ## the end -/

/-- All that has been put to sleep is awake by a time. -/
def AwakeBy (pace : Pace) (k : Skeleton) (t : Nat) : Prop :=
  ∀ z ∈ k.sleeps, z.sinceMs + slowMs + pace.lateMs ≤ t

/-- How the sleeps of a punctual process have gone, and how it has waited for them. -/
structure Rested (pace : Pace) (k : Skeleton) : Prop where
  woken : ∀ z ∈ k.sleeps, ∀ o ∈ z.wokenAt,
    z.sinceMs + slowMs ≤ o ∧ o ≤ z.sinceMs + slowMs + pace.lateMs ∧ o ≤ k.nowMs
  waited : ∀ r e, k.main = .exited r e → ∀ z ∈ k.sleeps, z.sinceMs + slowMs ≤ e
  exited : ∀ r e, k.main = .exited r e → ∀ t, r ≤ t → AwakeBy pace k t → e ≤ t + pace.lateMs

theorem Rested.exitDue_le (h : Rested pace k) {r t due : Nat} (hmain : k.main = .dropping r) (hr : r ≤ t)
    (hawake : AwakeBy pace k t) (hdue : k.exitDue = some due) : due ≤ t := by
  simp only [exitDue, hmain] at hdue
  split at hdue
  · obtain rfl := Option.some.inj hdue
    refine List.max_le_of_forall_le _ t (fun o ho => ?_)
    obtain rfl | hwoken := List.mem_cons.mp ho
    · exact hr
    · obtain ⟨z, hz, hz'⟩ := List.mem_filterMap.mp hwoken
      exact ((h.woken z hz o hz').2.1).trans (hawake z hz)
  · cases hdue

theorem exitDue_isSome {r : Nat} (hmain : k.main = .dropping r) (hover : k.sleeps.all Sleep.isOver = true) :
    ∃ due, k.exitDue = some due := by
  rw [exitDue, hmain]
  exact ⟨_, if_pos hover⟩

theorem Rested.step {starts : Bool} (h : Rested pace k) (hp : Punctual pace k)
    (hlive : ∀ r e, k.main ≠ .exited r e) (hmove : Move starts k k') : Rested pace k' := by
  cases hmove with
  | passed ms =>
      refine ⟨fun z hz o ho => ?_, h.waited, h.exited⟩
      obtain ⟨hlow, hhigh, hnow⟩ := h.woken z hz o ho
      exact ⟨hlow, hhigh, Nat.le_add_right_of_le hnow⟩
  | slept z =>
      refine ⟨fun z' hz o ho => ?_, fun r e he => absurd he (hlive r e), fun r e he => absurd he (hlive r e)⟩
      obtain hold | hnew := List.mem_append.mp hz
      · exact h.woken z' hold o ho
      · obtain rfl := List.mem_singleton.mp hnew
        cases ho
  | woken i =>
      refine ⟨fun z hz o ho => ?_, fun r e he => absurd he (hlive r e), fun r e he => absurd he (hlive r e)⟩
      obtain hold | ⟨y, hy, rfl⟩ := State.mem_modify hz
      · exact h.woken z hold o ho
      · unfold Sleep.wake at ho ⊢
        split at ho
        · -- it is this move that wakes the thread, and not late
          rename_i hdue
          obtain rfl : k.nowMs = o := by simpa using ho
          have hlate := hp.sleep hy (by simp [Sleep.isOver, hdue.1])
          rw [if_pos hdue]
          exact ⟨hdue.2, hlate, Nat.le_refl _⟩
        · rename_i hdue
          rw [if_neg hdue]
          exact h.woken y hy o ho
  | selected _ _ => exact ⟨h.woken, fun r e he => (by cases he), fun r e he => by cases he⟩
  | returned _ _ _ => exact ⟨h.woken, fun r e he => (by cases he), fun r e he => by cases he⟩
  | exited r hdropping hover =>
      refine ⟨h.woken, fun r' e he z hz => ?_, fun r' e he t hr hawake => ?_⟩
      · obtain ⟨rfl, rfl⟩ : r = r' ∧ k.nowMs = e := by simpa using he
        obtain ⟨o, ho⟩ := Option.isSome_iff_exists.mp (List.all_eq_true.mp hover z hz)
        obtain ⟨hlow, _, hnow⟩ := h.woken z hz o ho
        exact hlow.trans hnow
      · obtain ⟨rfl, rfl⟩ : r = r' ∧ k.nowMs = e := by simpa using he
        obtain ⟨due, hdue⟩ := exitDue_isSome hdropping hover
        have hlate := hp.exit hdue
        have hle := h.exitDue_le hdropping hr hawake hdue
        omega
  | stays | signalled | httpFinished | grpcBooted | grpcPanicked | grpcStopped | grpcFinished | ticked | purged
    | cleanerStopped => exact ⟨h.woken, h.waited, h.exited⟩

end Skeleton

namespace State

variable {config : Config} {R : Type} [LinkRepository R]

/-! ## deadlines -/

end State

end Process

end Shorty
