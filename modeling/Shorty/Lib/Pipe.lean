import Mathlib.Data.List.Infix
import Shorty.Lib.Run

/-!
# Shorty.Lib.Pipe

A producer and a consumer with a bounded queue between them.  The producer holds an item
until the queue has room, the consumer takes items one by one and may hang up, which the
producer notices when it next sends.

`Flows` says what the items on the way add up to; whatever the two ends do, and in
whatever order, keeps it.
-/

/-- A pipe, with the items its producer has made. -/
structure Pipe (α : Type) (capacity : Nat) where
  made : List α
  held : Option α
  queue : List α
  bounded : queue.length ≤ capacity
  received : List α
  /-- The consumer is gone. -/
  hungUp : Bool
  /-- The producer has noticed. -/
  stopped : Bool

namespace Pipe

variable {α : Type} {capacity : Nat}

def new : Pipe α capacity := ⟨[], none, [], Nat.zero_le _, [], false, false⟩

/-- The producer makes an item, if it holds none. -/
def make (a : α) (p : Pipe α capacity) : Pipe α capacity :=
  if p.held.isNone ∧ p.stopped = false then { p with made := p.made ++ [a], held := some a } else p

/-- The producer tries to send what it holds. -/
def push (p : Pipe α capacity) : Pipe α capacity :=
  match p.held with
  | none => p
  | some a =>
      if p.hungUp then { p with held := none, stopped := true }
      else if h : p.queue.length < capacity then
        { p with held := none, queue := p.queue ++ [a], bounded := by simpa [Nat.succ_le_iff] using h }
      else p

/-- The consumer takes the next item. -/
def pull (p : Pipe α capacity) : Pipe α capacity :=
  match h : p.queue with
  | [] => p
  | a :: queue =>
      { p with
        queue := queue
        bounded := by
          have hle := p.bounded
          rw [h] at hle
          exact Nat.le_of_succ_le hle
        received := p.received ++ [a] }

/-- The consumer leaves, and what is in the queue is lost. -/
def hangUp (p : Pipe α capacity) : Pipe α capacity :=
  { p with queue := [], bounded := Nat.zero_le _, hungUp := true }

/-- What is made is received in order: all of it while the consumer is there, what is held
and queued to come. -/
structure Flows (p : Pipe α capacity) : Prop where
  all : p.hungUp = false → p.received ++ p.queue ++ p.held.toList = p.made
  received : p.received <+: p.made
  stopped : p.stopped = true → p.hungUp = true
  queue : p.hungUp = true → p.queue = []

theorem flows_new : Flows (new : Pipe α capacity) :=
  ⟨fun _ => rfl, List.prefix_refl _, fun h => (by cases h), fun h => (by cases h)⟩

variable {p : Pipe α capacity}

theorem Flows.make (h : Flows p) (a : α) : Flows (p.make a) := by
  unfold Pipe.make
  split
  · rename_i hfree
    have hheld : p.held = none := by simpa using hfree.1
    refine ⟨fun hopen => ?_, h.received.trans (List.prefix_append _ _), h.stopped, h.queue⟩
    have hall := h.all hopen
    simp only [hheld, Option.toList_none, List.append_nil] at hall
    simp [hall]
  · exact h

theorem Flows.push (h : Flows p) : Flows p.push := by
  unfold Pipe.push
  split
  · exact h
  · rename_i a hheld
    split
    · rename_i hgone
      exact ⟨fun hopen => absurd (hgone.symm.trans hopen) (by simp), h.received, fun _ => hgone, h.queue⟩
    · rename_i hopen
      split
      · refine ⟨fun hopen => ?_, h.received, h.stopped, fun hgone => absurd hgone hopen⟩
        have hall := h.all hopen
        simpa [hheld] using hall
      · exact h

theorem Flows.pull (h : Flows p) : Flows p.pull := by
  unfold Pipe.pull
  split
  · exact h
  · rename_i a queue hqueue
    have hopen : p.hungUp = false := by
      cases hgone : p.hungUp with
      | false => rfl
      | true =>
          rw [h.queue hgone] at hqueue
          cases hqueue
    have hall := h.all hopen
    rw [hqueue] at hall
    refine ⟨fun _ => by simpa using hall, ⟨queue ++ p.held.toList, by simpa using hall⟩, h.stopped,
      fun hgone => absurd hgone (by simp [hopen])⟩

theorem Flows.hangUp (h : Flows p) : Flows p.hangUp :=
  ⟨fun hopen => absurd hopen (by simp [Pipe.hangUp]), h.received, fun _ => rfl, fun _ => rfl⟩

/-! ## what stays -/

theorem made_make (hheld : p.held = none) (hstopped : p.stopped = false) (a : α) :
    (p.make a).made = p.made ++ [a] := by
  simp [Pipe.make, hheld, hstopped]

theorem made_push (p : Pipe α capacity) : p.push.made = p.made := by
  unfold push
  split
  · rfl
  · split
    · rfl
    · split <;> rfl

theorem made_pull (p : Pipe α capacity) : p.pull.made = p.made := by
  unfold pull
  split <;> rfl

theorem hungUp_make (p : Pipe α capacity) (a : α) : (p.make a).hungUp = p.hungUp := by
  unfold make
  split <;> rfl

theorem hungUp_push (p : Pipe α capacity) : p.push.hungUp = p.hungUp := by
  unfold push
  split
  · rfl
  · split
    · rfl
    · split <;> rfl

theorem hungUp_pull (p : Pipe α capacity) : p.pull.hungUp = p.hungUp := by
  unfold pull
  split <;> rfl

/-! ## how far a pipe is from rest -/

/-- What is left to be done with the items that were made. -/
def work (p : Pipe α capacity) : Nat := 2 * p.held.toList.length + p.queue.length

theorem held_of_work (h : p.work = 0) : p.held = none := by
  cases hheld : p.held with
  | none => rfl
  | some a =>
      rw [work, hheld, Option.toList_some, List.length_singleton] at h
      omega

/-- At rest, a consumer that is there has received all. -/
theorem Flows.received_of_work (h : Flows p) (hopen : p.hungUp = false) (hwork : p.work = 0) :
    p.received = p.made := by
  have hqueue : p.queue = [] := List.length_eq_zero_iff.mp (by rw [work] at hwork; omega)
  rw [← h.all hopen, hqueue, held_of_work hwork]
  simp

theorem work_make_le (p : Pipe α capacity) (a : α) : (p.make a).work ≤ p.work + 2 := by
  unfold make work
  split
  · rename_i hfree
    simp [Option.isNone_iff_eq_none.mp hfree.1]
    omega
  · omega

/-- Where the consumer is there and something is on its way, one of the two ends can
move. -/
theorem work_lt (hcapacity : 0 < capacity) (hopen : p.hungUp = false) (h : p.work ≠ 0) :
    p.push.work < p.work ∨ p.pull.work < p.work := by
  cases hqueue : p.queue with
  | nil =>
      refine Or.inl ?_
      cases hheld : p.held with
      | none => exact absurd (by simp [work, hheld, hqueue]) h
      | some a => simp [push, work, hheld, hopen, hqueue, hcapacity]
  | cons a queue =>
      refine Or.inr ?_
      have hpull : p.pull.work + 1 = p.work := by
        unfold pull
        split
        · rename_i hnil
          rw [hqueue] at hnil
          cases hnil
        · rename_i b rest hcons
          simp only [work, hcons, List.length_cons]
          omega
      omega

end Pipe
