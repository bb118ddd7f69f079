import Shorty.Time

/-!
# Shorty.Cleanup

The background task that drops expired links (`cleanup.rs`): a timer, and a loop that
waits for its next tick or for the cancellation of the service, whichever `select!` takes.
Time is in milliseconds since the task was spawned.
-/

namespace Shorty

/-- `tokio::time::interval` with `MissedTickBehavior::Delay`. -/
structure Interval where
  periodMs : Nat
  /-- When the next tick is due. -/
  nextMs : Nat

namespace Interval

/-- A new timer, whose first tick is due at once. -/
def new (periodMs nowMs : Nat) : Interval := ⟨periodMs, nowMs⟩

/-- A tick.  After one that is late by more than five milliseconds the next is a whole period
away. -/
def tick (nowMs : Nat) (i : Interval) : Interval :=
  { i with nextMs := if i.nextMs + 5 < nowMs then nowMs + i.periodMs else i.nextMs + i.periodMs }

theorem nextMs_tick_le {nowMs : Nat} {i : Interval} (h : i.nextMs ≤ nowMs) :
    (i.tick nowMs).nextMs ≤ nowMs + i.periodMs := by
  simp only [tick]
  split <;> omega

theorem le_nextMs_tick (nowMs : Nat) (i : Interval) : nowMs + i.periodMs ≤ (i.tick nowMs).nextMs + 5 := by
  simp only [tick]
  split <;> omega

end Interval

/-- What the cleaner is at, and since when. -/
inductive Cleaner.Phase where
  | waiting (sinceMs : Nat)
  | purging (now : SystemTime) (sinceMs : Nat)
  | exited (atMs : Nat)

structure Cleaner where
  interval : Interval
  phase : Cleaner.Phase

namespace Cleaner

/-- `run_cleaner`, where it starts. -/
def spawn (periodMs nowMs : Nat) : Cleaner := ⟨.new periodMs nowMs, .waiting nowMs⟩

/-- The cleaner takes a tick that is due, and begins to purge. -/
def tick (nowMs : Nat) (now : SystemTime) (c : Cleaner) : Cleaner :=
  match c.phase with
  | .waiting _ =>
      if c.interval.nextMs ≤ nowMs then ⟨c.interval.tick nowMs, .purging now nowMs⟩ else c
  | _ => c

/-- The instant of the purge in progress. -/
def purging? (c : Cleaner) : Option SystemTime :=
  match c.phase with
  | .purging now _ => some now
  | _ => none

/-- When the purge in progress began. -/
def purgingSince? (c : Cleaner) : Option Nat :=
  match c.phase with
  | .purging _ sinceMs => some sinceMs
  | _ => none

/-- A purge ends, and the cleaner goes on. -/
def resume (nowMs : Nat) (c : Cleaner) : Cleaner := { c with phase := .waiting nowMs }

/-- The cleaner takes the cancellation. -/
def stop (nowMs : Nat) (c : Cleaner) : Cleaner :=
  match c.phase with
  | .waiting _ => { c with phase := .exited nowMs }
  | _ => c

def exited? (c : Cleaner) : Option Nat :=
  match c.phase with
  | .exited atMs => some atMs
  | _ => none

end Cleaner

end Shorty
