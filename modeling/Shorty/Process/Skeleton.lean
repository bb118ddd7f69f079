import Shorty.Process.Shutdown

/-!
# Shorty.Process.Skeleton

What each task of a process is at and since when, without the requests and the store.  The
events of a process move its skeleton in few ways (`Skeleton.Move`), and it is enough to say
what is due, and whether it is overdue (`Skeleton.Punctual`).
-/

namespace Shorty

namespace Process

open Router (slowMs)

/-- What each task of a process is at. -/
structure Skeleton where
  nowMs : Nat
  cancelledAt : Option Nat
  http : Serving
  grpc : Serving
  cleaner : Cleaner
  sleeps : List Sleep
  main : Main

/-- How late a due task is taken up at most, and how long a purge takes at most. -/
structure Pace where
  lateMs : Nat
  purgeMs : Nat

namespace Skeleton

/-- What an event can do to the tasks. -/
inductive Move (starts : Bool) (k : Skeleton) : Skeleton → Prop where
  | stays : Move starts k k
  | passed (ms : Nat) : Move starts k { k with nowMs := k.nowMs + ms }
  | signalled (t : Nat) (quiet : Bool) (h : k.http = .accepting t) :
      Move starts k { k with cancelledAt := some k.nowMs, http := .draining k.nowMs quiet }
  | httpFinished (t : Nat) (quiet : Bool) (h : k.http = .draining t quiet) :
      Move starts k { k with http := .finished k.nowMs }
  | grpcBooted (h : k.grpc = .starting) (hstarts : starts = true) :
      Move starts k { k with grpc := .accepting k.nowMs }
  | grpcPanicked (h : k.grpc = .starting) (hstarts : starts = false) :
      Move starts k { k with grpc := .panicked k.nowMs }
  | grpcStopped (t c : Nat) (quiet : Bool) (h : k.grpc = .accepting t) (hc : k.cancelledAt = some c) :
      Move starts k { k with grpc := .draining k.nowMs quiet }
  | grpcFinished (t : Nat) (quiet : Bool) (h : k.grpc = .draining t quiet) :
      Move starts k { k with grpc := .finished k.nowMs }
  | ticked (t : Nat) (now : SystemTime) (h : k.cleaner.phase = .waiting t)
      (hdue : k.cleaner.interval.nextMs ≤ k.nowMs) :
      Move starts k { k with cleaner := ⟨k.cleaner.interval.tick k.nowMs, .purging now k.nowMs⟩ }
  | purged (now : SystemTime) (t : Nat) (h : k.cleaner.phase = .purging now t) :
      Move starts k { k with cleaner := ⟨k.cleaner.interval, .waiting k.nowMs⟩ }
  | cleanerStopped (t c : Nat) (h : k.cleaner.phase = .waiting t) (hc : k.cancelledAt = some c) :
      Move starts k { k with cleaner := ⟨k.cleaner.interval, .exited k.nowMs⟩ }
  | slept (z : Sleeper) : Move starts k { k with sleeps := k.sleeps ++ [⟨z, k.nowMs, none⟩] }
  | woken (i : Nat) : Move starts k { k with sleeps := k.sleeps.modify i (Sleep.wake k.nowMs) }
  | selected (h : k.main = .selecting) (hended : k.http.ended?.isSome = true ∨ k.grpc.ended?.isSome = true) :
      Move starts k { k with main := .waiting k.nowMs }
  | returned (w : Nat) (h : k.main = .waiting w)
      (hdue : k.cleaner.exited?.isSome = true ∨ w + shutdownTimeoutMs ≤ k.nowMs) :
      Move starts k { k with main := .dropping k.nowMs }
  | exited (r : Nat) (h : k.main = .dropping r) (hover : k.sleeps.all Sleep.isOver = true) :
      Move starts k { k with main := .exited r k.nowMs }

variable (pace : Pace) (k : Skeleton)

/-! ## deadlines -/

/-- What is due of the gRPC server: it starts, sees the cancelled token, and finishes where no
call was in progress then. -/
def grpcDue : Option Nat :=
  match k.grpc, k.cancelledAt with
  | .starting, _ => some 0
  | .accepting t, some c => some (max t c)
  | .draining t true, _ => some t
  | _, _ => none

/-- What is due of the cleaner: its next tick, or its end. -/
def cleanerDue : Option Nat :=
  match k.cleaner.phase, k.cancelledAt with
  | .waiting t, none => some (max t k.cleaner.interval.nextMs)
  | .waiting t, some c => some (max t (min c k.cleaner.interval.nextMs))
  | _, _ => none

/-- What is due of `run`: it leaves `select!`, and waits for the cleaner for a while. -/
def runDue : List Nat :=
  match k.main with
  | .selecting => k.http.ended?.toList ++ k.grpc.ended?.toList
  | .waiting w =>
      match k.cleaner.exited? with
      | some t => [max w t]
      | none => [w + shutdownTimeoutMs]
  | _ => []

/-- What is due of a sleep: it is over. -/
def wakeDue (z : Sleep) : Option Nat := if z.isOver then none else some (z.sinceMs + slowMs)

/-- What is due of `main` where the runtime is dropped: the process is over once all threads
are awake. -/
def exitDue : Option Nat :=
  match k.main with
  | .dropping r =>
      if k.sleeps.all Sleep.isOver then some ((r :: k.sleeps.filterMap Sleep.wokenAt).foldr max 0) else none
  | _ => none

/-- Nothing is overdue.  The tasks that a runtime drops have nothing to do any more, but
threads still have. -/
def Punctual : Prop :=
  (k.main.returned? = none →
    (∀ t ∈ k.grpcDue.toList ++ k.cleanerDue.toList ++ k.runDue, k.nowMs ≤ t + pace.lateMs) ∧
      ∀ t ∈ k.cleaner.purgingSince?, k.nowMs ≤ t + pace.purgeMs) ∧
    ∀ t ∈ k.sleeps.filterMap wakeDue ++ k.exitDue.toList, k.nowMs ≤ t + pace.lateMs

instance : Decidable (Punctual pace k) := inferInstanceAs (Decidable (_ ∧ _))

variable {pace : Pace} {k k' : Skeleton}

theorem Move.period {starts : Bool} (h : Move starts k k') :
    k'.cleaner.interval.periodMs = k.cleaner.interval.periodMs := by cases h <;> rfl

/-- `run` does not go on once it has returned. -/
theorem Move.running {starts : Bool} (h : Move starts k k') (hrun : k'.main.returned? = none) :
    k.main.returned? = none := by
  cases h with
  | selected hselecting _ => rw [hselecting]; rfl
  | returned w hwaiting _ => rw [hwaiting]; rfl
  | exited r hdropping _ => simp [Main.returned?] at hrun
  | _ => exact hrun

theorem Punctual.grpc {t : Nat} (h : Punctual pace k) (hrun : k.main.returned? = none)
    (ht : k.grpcDue = some t) : k.nowMs ≤ t + pace.lateMs := (h.1 hrun).1 t (by simp [ht])

theorem Punctual.cleaner {t : Nat} (h : Punctual pace k) (hrun : k.main.returned? = none)
    (ht : k.cleanerDue = some t) : k.nowMs ≤ t + pace.lateMs := (h.1 hrun).1 t (by simp [ht])

theorem Punctual.run {t : Nat} (h : Punctual pace k) (hrun : k.main.returned? = none) (ht : t ∈ k.runDue) :
    k.nowMs ≤ t + pace.lateMs := (h.1 hrun).1 t (by simp [ht])

theorem Punctual.purge {t : Nat} (h : Punctual pace k) (hrun : k.main.returned? = none)
    (ht : k.cleaner.purgingSince? = some t) : k.nowMs ≤ t + pace.purgeMs := (h.1 hrun).2 t ht

theorem Punctual.sleep {z : Sleep} (h : Punctual pace k) (hz : z ∈ k.sleeps) (hover : z.isOver = false) :
    k.nowMs ≤ z.sinceMs + slowMs + pace.lateMs := by
  refine h.2 _ (List.mem_append_left _ (List.mem_filterMap.mpr ⟨z, hz, ?_⟩))
  simp [wakeDue, hover]

theorem Punctual.exit {t : Nat} (h : Punctual pace k) (ht : k.exitDue = some t) :
    k.nowMs ≤ t + pace.lateMs := h.2 t (by simp [ht])

theorem grpcDue_accepting {t c : Nat} (hgrpc : k.grpc = .accepting t) (hc : k.cancelledAt = some c) :
    k.grpcDue = some (max t c) := by simp [grpcDue, hgrpc, hc]

theorem grpcDue_draining {t : Nat} (hgrpc : k.grpc = .draining t true) : k.grpcDue = some t := by
  simp [grpcDue, hgrpc]

theorem cleanerDue_waiting {t c : Nat} (hphase : k.cleaner.phase = .waiting t) (hc : k.cancelledAt = some c) :
    k.cleanerDue = some (max t (min c k.cleaner.interval.nextMs)) := by simp [cleanerDue, hphase, hc]

end Skeleton

/-! ## the skeleton of a process -/

namespace State

variable {config : Config} {R : Type} [LinkRepository R] {b : Boot} {s : State config R}

def skeleton (s : State config R) : Skeleton :=
  ⟨s.nowMs, s.cancelledAt, s.http, s.grpc, s.cleaner, s.sleeps, s.main⟩

theorem skeleton_moved (b : Boot) (s : State config R) (m : Pool.Move (Timed.Request config) Timed.Event)
    (hm : ∀ ms, m ≠ .env (.pass ms)) : (s.moved b m).skeleton = s.skeleton := by
  simp only [skeleton, nowMs_moved b s m hm]
  rfl

open Skeleton (Move)

omit [LinkRepository R] in
theorem move_tick {starts : Bool} (s : State config R) (now : SystemTime) :
    Move starts s.skeleton ({ s with cleaner := s.cleaner.tick s.nowMs now } : State config R).skeleton := by
  cases hphase : s.cleaner.phase with
  | waiting t =>
      by_cases hdue : s.cleaner.interval.nextMs ≤ s.nowMs
      · rw [show s.cleaner.tick s.nowMs now = ⟨s.cleaner.interval.tick s.nowMs, .purging now s.nowMs⟩ by
          simp [Cleaner.tick, hphase, hdue]]
        exact .ticked t now hphase hdue
      · rw [show s.cleaner.tick s.nowMs now = s.cleaner by simp [Cleaner.tick, hphase, hdue]]
        exact .stays
  | purging now' t =>
      rw [show s.cleaner.tick s.nowMs now = s.cleaner by simp [Cleaner.tick, hphase]]
      exact .stays
  | exited t =>
      rw [show s.cleaner.tick s.nowMs now = s.cleaner by simp [Cleaner.tick, hphase]]
      exact .stays

theorem skeleton_swept (b : Boot) (s : State config R) (now : SystemTime) (fails : Bool) :
    (s.swept b now fails).skeleton = s.skeleton := by
  cases fails with
  | true => rfl
  | false => exact skeleton_moved b s (.env (.purge now)) (by simp)

theorem move_purged {starts : Bool} (s : State config R) (fails : Bool) {now : SystemTime}
    (h : s.cleaner.purging? = some now) : Move starts s.skeleton
      ({ s.swept b now fails with cleaner := s.cleaner.resume s.nowMs } : State config R).skeleton := by
  cases hphase : s.cleaner.phase with
  | purging now' t =>
      rw [show ({ s.swept b now fails with cleaner := s.cleaner.resume s.nowMs } : State config R).skeleton =
        { s.skeleton with cleaner := ⟨s.cleaner.interval, .waiting s.nowMs⟩ } from congrArg
          (fun k : Skeleton => { k with cleaner := ⟨s.cleaner.interval, .waiting s.nowMs⟩ })
          (skeleton_swept b s now fails)]
      exact .purged now' t hphase
  | waiting t => simp [Cleaner.purging?, hphase] at h
  | exited t => simp [Cleaner.purging?, hphase] at h

omit [LinkRepository R] in
theorem move_cleanerStops {starts : Bool} (s : State config R) (h : s.cancelledAt.isSome = true) :
    Move starts s.skeleton ({ s with cleaner := s.cleaner.stop s.nowMs } : State config R).skeleton := by
  obtain ⟨c, hc⟩ := Option.isSome_iff_exists.mp h
  cases hphase : s.cleaner.phase with
  | waiting t =>
      rw [show s.cleaner.stop s.nowMs = ⟨s.cleaner.interval, .exited s.nowMs⟩ by simp [Cleaner.stop, hphase]]
      exact .cleanerStopped t c hphase hc
  | purging now t =>
      rw [show s.cleaner.stop s.nowMs = s.cleaner by simp [Cleaner.stop, hphase]]
      exact .stays
  | exited t =>
      rw [show s.cleaner.stop s.nowMs = s.cleaner by simp [Cleaner.stop, hphase]]
      exact .stays

/-- An event moves the skeleton as `Move` says. -/
theorem skeleton_step (b : Boot) (s : State config R) (e : Event config) :
    Move b.grpcStarts s.skeleton (s.step b e).skeleton := by
  unfold step
  split
  · exact .stays
  · cases e with
    | start q =>
        simp only [live]
        split
        · rw [skeleton_moved b s _ (by simp)]
          exact .stays
        · exact .stays
    | advance i =>
        rw [live, skeleton_moved b s _ (by simp)]
        exact .stays
    | pass ms => exact .passed ms
    | evict key =>
        rw [live, skeleton_moved b s _ (by simp)]
        exact .stays
    | signal =>
        simp only [live]
        split
        · rename_i haccepting
          cases hserving : s.http <;> simp [hserving, Serving.isAccepting] at haccepting
          exact .signalled _ _ hserving
        · exact .stays
    | httpFinishes =>
        simp only [live]
        split
        · rename_i hdone
          cases hserving : s.http <;> simp [hserving, Serving.isDraining] at hdone
          exact .httpFinished _ _ hserving
        · exact .stays
    | grpcBoots =>
        simp only [live]
        split
        · rename_i hstarting
          cases hstarts : b.grpcStarts with
          | true => exact .grpcBooted hstarting rfl
          | false => exact .grpcPanicked hstarting rfl
        · exact .stays
    | grpcStops =>
        simp only [live]
        split
        · rename_i hstops
          obtain ⟨haccepting, hcancelled⟩ := hstops
          obtain ⟨c, hc⟩ := Option.isSome_iff_exists.mp hcancelled
          cases hserving : s.grpc <;> simp [hserving, Serving.isAccepting] at haccepting
          exact .grpcStopped _ c _ hserving hc
        · exact .stays
    | grpcFinishes =>
        simp only [live]
        split
        · rename_i hdone
          cases hserving : s.grpc <;> simp [hserving, Serving.isDraining] at hdone
          exact .grpcFinished _ _ hserving
        · exact .stays
    | tick now =>
        simp only [live]
        split
        · exact move_tick s now
        · exact .stays
    | purged fails =>
        simp only [live]
        split
        · rename_i now hpurging
          exact move_purged s fails hpurging
        · exact .stays
    | sleep z =>
        simp only [live]
        split
        · exact .slept z
        · exact .stays
    | wake i => exact .woken i
    | cleanerStops =>
        simp only [live]
        split
        · rename_i hcancelled
          exact move_cleanerStops s hcancelled
        · exact .stays
    | select =>
        simp only [live]
        split
        · rename_i hselect
          exact .selected hselect.1 hselect.2
        · exact .stays
    | runReturns =>
        simp only [live]
        split
        · rename_i w hmain
          split
          · rename_i hdue
            exact .returned w hmain hdue
          · exact .stays
        · exact .stays
    | exit =>
        simp only [live]
        split
        · rename_i r hmain
          split
          · rename_i hover
            exact .exited r hmain hover
          · exact .stays
        · exact .stays

end State

end Process

end Shorty
