import Mathlib.Data.List.Basic
import Mathlib.Data.List.Perm.Basic
import Shorty.Lib.Run
import Shorty.Lib.Proc

/-!
# Shorty.Lib.Pool

Programs of many clients, interleaved at their calls on a shared state.  A pool is
moved by a request starting its program, by a program making its next call, and by
the environment; a schedule is a list of such moves, so a law about every schedule
is a law about every interleaving.

A task remembers the calls it has made, each with the moment and the state it was
made in, and the pool remembers its states.  What a result says about the
interleaving is read off these:

* `Follows` — the calls of a task are those its program makes on the answers it got;
* `stateAt` — the state at a moment; a call takes the state of its moment to the
  next (`Sound.applied`);
* `step_rule` — a move makes no call, or the next call of one task;
* `rel_stateAt` — what no move breaks relates any earlier state to any later one.
-/

/-- A call that was made: when, and in which state. -/
structure Pool.Deed (Call σ : Type) where
  time : Nat
  call : Call
  before : σ

/-- A request, what is left of its program, when it started and what it has done. -/
structure Pool.Task {Call : Type} (ρ : Type) (Resp : Call → Type) (α σ : Type) where
  request : ρ
  rest : Proc Resp α
  startedAt : Nat
  deeds : List (Pool.Deed Call σ)

/-- The shared state, the states before it and the tasks, in the order they
started. -/
structure Pool {Call : Type} (ρ : Type) (Resp : Call → Type) (α σ : Type) where
  state : σ
  past : List σ
  tasks : List (Pool.Task ρ Resp α σ)

/-- What happens next. -/
inductive Pool.Move (ρ ε : Type) where
  | start (request : ρ)
  | advance (i : Nat)
  | env (event : ε)

namespace Pool

variable {Call ρ α β σ ε : Type} {Resp : Call → Type}

/-- A pool without tasks. -/
def new (s : σ) : Pool ρ Resp α σ := ⟨s, [], []⟩

/-- The moment the next move is made. -/
def clock (p : Pool ρ Resp α σ) : Nat := p.past.length

/-- The state at a moment. -/
def stateAt (p : Pool ρ Resp α σ) (time : Nat) : σ := (p.past[time]?).getD p.state

/-- All that was done, task by task. -/
def deeds (p : Pool ρ Resp α σ) : List (Deed Call σ) := p.tasks.flatMap Task.deeds

variable (exec : (c : Call) → σ → Resp c × σ) (prog : ρ → Proc Resp α) (env : ε → σ → σ)

/-- The pool after the next call of a task. -/
def called (p : Pool ρ Resp α σ) (i : Nat) (t : Task ρ Resp α σ) (c : Call)
    (k : Resp c → Proc Resp α) : Pool ρ Resp α σ where
  state := (exec c p.state).2
  past := p.past ++ [p.state]
  tasks := p.tasks.set i
    { t with rest := k (exec c p.state).1, deeds := t.deeds ++ [⟨p.clock, c, p.state⟩] }

def step (p : Pool ρ Resp α σ) : Move ρ ε → Pool ρ Resp α σ
  | .start q =>
      { p with past := p.past ++ [p.state], tasks := p.tasks ++ [⟨q, prog q, p.clock, []⟩] }
  | .advance i =>
      match p.tasks[i]? with
      | some t =>
          match t.rest with
          | .call c k => p.called exec i t c k
          | .done _ => p
      | none => p
  | .env e => { p with state := env e p.state, past := p.past ++ [p.state] }

/-- The calls a program makes on the answers it gets, and what is left of it. -/
inductive Follows : Proc Resp α → List (Deed Call σ) → Proc Resp α → Prop where
  | nil (p : Proc Resp α) : Follows p [] p
  | cons {c : Call} {k : Resp c → Proc Resp α} {time : Nat} {before : σ} {ds : List (Deed Call σ)}
      {q : Proc Resp α} (h : Follows (k (exec c before).1) ds q) :
      Follows (.call c k) (⟨time, c, before⟩ :: ds) q

section Rules

variable {exec prog env} {p : Pool ρ Resp α σ}

/-! ## what a program has done -/

theorem follows_concat {q r : Proc Resp α} {ds : List (Deed Call σ)} {c : Call}
    {k : Resp c → Proc Resp α} (h : Follows exec q ds r) (hr : r = .call c k) (time : Nat) (s : σ) :
    Follows exec q (ds ++ [⟨time, c, s⟩]) (k (exec c s).1) := by
  induction h with
  | nil p =>
      subst hr
      exact .cons (.nil _)
  | cons _ ih => exact .cons (ih hr)

theorem follows_done_iff {a : α} {ds : List (Deed Call σ)} {q : Proc Resp α} :
    Follows exec (.done a) ds q ↔ ds = [] ∧ q = .done a := by
  constructor
  · intro h
    cases h
    exact ⟨rfl, rfl⟩
  · rintro ⟨rfl, rfl⟩
    exact .nil _

/-- A program with a call to make has made it, or nothing yet. -/
theorem follows_call_iff {c : Call} {k : Resp c → Proc Resp α} {ds : List (Deed Call σ)}
    {q : Proc Resp α} : Follows exec (.call c k) ds q ↔
      (ds = [] ∧ q = .call c k) ∨
        ∃ time before ds', ds = ⟨time, c, before⟩ :: ds' ∧ Follows exec (k (exec c before).1) ds' q := by
  constructor
  · intro h
    cases h with
    | nil p => exact Or.inl ⟨rfl, rfl⟩
    | cons h => exact Or.inr ⟨_, _, _, rfl, h⟩
  · rintro (⟨rfl, rfl⟩ | ⟨time, before, ds', rfl, h⟩)
    · exact .nil _
    · exact .cons h

theorem follows_bind {q : Proc Resp α} {f : α → Proc Resp β} {ds : List (Deed Call σ)} {b : β}
    (h : Follows exec (q >>= f) ds (.done b)) :
    ∃ a ds₁ ds₂, ds = ds₁ ++ ds₂ ∧ Follows exec q ds₁ (.done a) ∧ Follows exec (f a) ds₂ (.done b) := by
  induction q generalizing ds with
  | done a => exact ⟨a, [], ds, rfl, .nil _, h⟩
  | call c k ih =>
      rcases follows_call_iff.mp h with ⟨_, hrest⟩ | ⟨time, before, ds', rfl, hnext⟩
      · cases hrest
      · obtain ⟨a, ds₁, ds₂, rfl, hq, hf⟩ := ih _ hnext
        exact ⟨a, ⟨time, c, before⟩ :: ds₁, ds₂, rfl, .cons hq, hf⟩

/-- The calls of a program whose result is passed on are its own. -/
theorem follows_map {q : Proc Resp α} {f : α → β} {ds : List (Deed Call σ)} {b : β}
    (h : Follows exec (f <$> q) ds (.done b)) : ∃ a, Follows exec q ds (.done a) ∧ b = f a := by
  induction q generalizing ds with
  | done a =>
      obtain ⟨rfl, hrest⟩ := follows_done_iff.mp h
      cases hrest
      exact ⟨a, .nil _, rfl⟩
  | call c k ih =>
      rcases follows_call_iff.mp h with ⟨_, hrest⟩ | ⟨time, before, ds', rfl, hnext⟩
      · cases hrest
      · obtain ⟨a, hq, rfl⟩ := ih _ hnext
        exact ⟨a, .cons hq, rfl⟩

/-- What is left of a program whose result is passed on is what is left of it. -/
theorem follows_map_rest {q : Proc Resp α} {f : α → β} {ds : List (Deed Call σ)} {r : Proc Resp β}
    (h : Follows exec (f <$> q) ds r) : ∃ r', Follows exec q ds r' ∧ r = f <$> r' := by
  induction q generalizing ds with
  | done a =>
      obtain ⟨rfl, rfl⟩ := follows_done_iff.mp h
      exact ⟨_, .nil _, rfl⟩
  | call c k ih =>
      rcases follows_call_iff.mp h with ⟨rfl, rfl⟩ | ⟨time, before, ds', rfl, hnext⟩
      · exact ⟨_, .nil _, rfl⟩
      · obtain ⟨r', hq, rfl⟩ := ih _ hnext
        exact ⟨r', .cons hq, rfl⟩

/-- A program that makes only some calls is left with only these. -/
theorem only_of_follows {P : Call → Prop} {q r : Proc Resp α} {ds : List (Deed Call σ)}
    (h : Follows exec q ds r) (hq : Proc.Only P q) : Proc.Only P r ∧ ∀ d ∈ ds, P d.call := by
  induction h with
  | nil p => exact ⟨hq, by simp⟩
  | cons _ ih =>
      cases hq with
      | call c k hc hk =>
          obtain ⟨hr, hds⟩ := ih (hk _)
          refine ⟨hr, ?_⟩
          simp only [List.mem_cons, forall_eq_or_imp]
          exact ⟨hc, hds⟩

/-- A program that returns nothing but `P` has nothing else left to return. -/
theorem returns_of_follows {P : α → Prop} {q r : Proc Resp α} {ds : List (Deed Call σ)}
    (h : Follows exec q ds r) (hq : Proc.Returns P q) : Proc.Returns P r := by
  induction h with
  | nil p => exact hq
  | cons _ ih =>
      cases hq with
      | call c hk => exact ih (hk _)

/-- A call that is of `P`, or failed. -/
def Idle (exec : (c : Call) → σ → Resp c × σ) (P : Call → Prop) (F : (c : Call) → Resp c → Prop)
    (d : Deed Call σ) : Prop := P d.call ∨ F d.call (exec d.call d.before).1

/-- **One deciding call**: a program that makes one at most has not made it, or has made it
and is left with the others. -/
theorem once_of_follows {P : Call → Prop} {F : (c : Call) → Resp c → Prop} {q r : Proc Resp α}
    {ds : List (Deed Call σ)} (h : Follows exec q ds r) (hq : Proc.Once P F q) :
    ((∀ d ∈ ds, Idle exec P F d) ∧ Proc.Once P F r) ∨
      ∃ before d after, ds = before ++ d :: after ∧ (∀ e ∈ before ++ after, Idle exec P F e) ∧
        Proc.Only P r := by
  have honly : ∀ {ds : List (Deed Call σ)} {q r : Proc Resp α}, Follows exec q ds r → Proc.Only P q →
      Proc.Only P r ∧ ∀ d ∈ ds, Idle exec P F d := by
    intro ds q r h hq
    obtain ⟨hr, hds⟩ := only_of_follows h hq
    exact ⟨hr, fun d hd => Or.inl (hds d hd)⟩
  -- a call that is idle goes before the rest
  have hcons : ∀ {d : Deed Call σ} {ds : List (Deed Call σ)} {r : Proc Resp α}, Idle exec P F d →
      (((∀ d ∈ ds, Idle exec P F d) ∧ Proc.Once P F r) ∨
        ∃ before d after, ds = before ++ d :: after ∧ (∀ e ∈ before ++ after, Idle exec P F e) ∧
          Proc.Only P r) →
      ((∀ e ∈ d :: ds, Idle exec P F e) ∧ Proc.Once P F r) ∨
        ∃ before e after, d :: ds = before ++ e :: after ∧
          (∀ e ∈ before ++ after, Idle exec P F e) ∧ Proc.Only P r := by
    rintro d ds r hd (⟨hds, hr⟩ | ⟨before, e, after, rfl, hidle, hr⟩)
    · exact Or.inl ⟨by simpa using ⟨hd, hds⟩, hr⟩
    · exact Or.inr ⟨d :: before, e, after, rfl, by simpa using ⟨hd, by simpa using hidle⟩, hr⟩
  induction h with
  | nil p => exact Or.inl ⟨by simp, hq⟩
  | @cons c k time s ds q hfollows ih =>
      cases hq with
      | only _ h =>
          obtain ⟨hr, hds⟩ := honly (.cons hfollows) h
          exact Or.inl ⟨hds, .only _ hr⟩
      | pass _ _ hc hk => exact hcons (Or.inl hc) (ih (hk _))
      | decide _ _ hfail hdone =>
          by_cases hf : F c (exec c s).1
          · exact hcons (Or.inr hf) (ih (hfail _ hf))
          · obtain ⟨hr, hds⟩ := honly hfollows (hdone _ hf)
            exact Or.inr ⟨[], ⟨time, c, s⟩, ds, rfl, by simpa using hds, hr⟩

/-! ## states and moments -/

theorem stateAt_of_clock_le {time : Nat} (h : p.clock ≤ time) : p.stateAt time = p.state := by
  unfold stateAt
  rw [List.getElem?_eq_none h]
  rfl

/-- What holds of all states so far holds at every moment. -/
theorem of_stateAt {P : σ → Prop} (h : ∀ s ∈ p.past, P s) (hnow : P p.state) (time : Nat) : P (p.stateAt time) := by
  unfold stateAt
  cases hs : p.past[time]? with
  | none => exact hnow
  | some s => exact h s (List.mem_of_getElem? hs)

/-- A move adds one moment. -/
theorem stateAt_of_past {p' : Pool ρ Resp α σ} (h : p'.past = p.past ++ [p.state]) {time : Nat}
    (ht : time ≤ p.clock) : p'.stateAt time = p.stateAt time := by
  unfold stateAt
  rw [h]
  rcases Nat.lt_or_eq_of_le ht with hlt | heq
  · have hlt' : time < p.past.length := hlt
    rw [List.getElem?_append_left hlt', List.getElem?_eq_getElem hlt']
    rfl
  · subst heq
    simp [clock]

theorem stateAt_of_past_succ {p' : Pool ρ Resp α σ} (h : p'.past = p.past ++ [p.state]) {time : Nat}
    (ht : p.clock < time) : p'.stateAt time = p'.state := by
  apply stateAt_of_clock_le
  simp only [clock, h, List.length_append, List.length_singleton] at ht ⊢
  omega

/-- What a move did between its moment and the next. -/
inductive Happened (exec : (c : Call) → σ → Resp c × σ) (env : ε → σ → σ)
    (p : Pool ρ Resp α σ) (time : Nat) : Prop where
  | nothing (h : p.stateAt (time + 1) = p.stateAt time)
  | deed (d : Deed Call σ) (hd : d ∈ p.deeds) (htime : d.time = time)
  | env (e : ε) (h : p.stateAt (time + 1) = env e (p.stateAt time))

/-- What holds of a pool under every schedule. -/
structure Sound (exec : (c : Call) → σ → Resp c × σ) (prog : ρ → Proc Resp α) (env : ε → σ → σ)
    (p : Pool ρ Resp α σ) : Prop where
  /-- A task has done what its program does. -/
  follows : ∀ t ∈ p.tasks, Follows exec (prog t.request) t.deeds t.rest
  /-- A call takes the state of its moment to the next. -/
  applied : ∀ t ∈ p.tasks, ∀ d ∈ t.deeds, t.startedAt < d.time ∧ d.time < p.clock ∧
    p.stateAt d.time = d.before ∧ p.stateAt (d.time + 1) = (exec d.call d.before).2
  started : ∀ t ∈ p.tasks, t.startedAt < p.clock
  /-- A task makes its calls one after the other. -/
  ordered : ∀ t ∈ p.tasks, t.deeds.Pairwise (fun d d' => d.time < d'.time)
  /-- A moment belongs to one call. -/
  distinct : (p.deeds.map Deed.time).Nodup
  happened : ∀ time < p.clock, Happened exec env p time

/-! ## one move -/

theorem step_advance (p : Pool ρ Resp α σ) (i : Nat) :
    p.step exec prog env (.advance i) = p ∨
      ∃ t c k, p.tasks[i]? = some t ∧ t.rest = .call c k ∧
        p.step exec prog env (.advance i) = p.called exec i t c k := by
  cases ht : p.tasks[i]? with
  | none => exact Or.inl (by simp [step, ht])
  | some t =>
      cases hr : t.rest with
      | done a => exact Or.inl (by simp [step, ht, hr])
      | call c k => exact Or.inr ⟨t, c, k, rfl, hr, by simp [step, ht, hr]⟩

/-- A list with one more item under one of its entries. -/
theorem flatMap_set_perm {β γ : Type} {f : β → List γ} {l : List β} {i : Nat} {b b' : β} {x : γ}
    (hi : l[i]? = some b) (hb : f b' = f b ++ [x]) : ((l.set i b').flatMap f).Perm (x :: l.flatMap f) := by
  induction l generalizing i with
  | nil => simp at hi
  | cons a l ih =>
      cases i with
      | zero =>
          simp only [List.getElem?_cons_zero, Option.some.injEq] at hi
          subst hi
          simp only [List.set_cons_zero, List.flatMap_cons, hb, List.append_assoc,
            List.singleton_append]
          exact List.perm_middle
      | succ i =>
          simp only [List.getElem?_cons_succ] at hi
          simp only [List.set_cons_succ, List.flatMap_cons]
          exact ((ih hi).append_left (f a)).trans List.perm_middle

variable {i : Nat} {t : Task ρ Resp α σ} {c : Call} {k : Resp c → Proc Resp α}

/-- A call adds one deed. -/
theorem deeds_called (ht : p.tasks[i]? = some t) :
    (p.called exec i t c k).deeds.Perm (⟨p.clock, c, p.state⟩ :: p.deeds) :=
  flatMap_set_perm ht rfl

theorem filterMap_deeds_called {β : Type} (ht : p.tasks[i]? = some t) (f : Deed Call σ → Option β) :
    ((p.called exec i t c k).deeds.filterMap f).Perm
      ((f ⟨p.clock, c, p.state⟩).toList ++ p.deeds.filterMap f) := by
  refine ((deeds_called ht).filterMap f).trans (List.Perm.of_eq ?_)
  rw [List.filterMap_cons]
  cases f ⟨p.clock, c, p.state⟩ <;> rfl

theorem deeds_start (p : Pool ρ Resp α σ) (q : ρ) : (p.step exec prog env (.start q)).deeds = p.deeds := by
  simp [deeds, step]

/-- A move that makes no call: it adds a moment, and at most one task. -/
structure Quiet (prog : ρ → Proc Resp α) (p p' : Pool ρ Resp α σ) : Prop where
  past : p'.past = p.past ++ [p.state]
  deeds : p'.deeds = p.deeds
  tasks : ∀ t ∈ p'.tasks, t ∈ p.tasks ∨
    t.rest = prog t.request ∧ t.deeds = [] ∧ t.startedAt = p.clock

theorem quiet_start (p : Pool ρ Resp α σ) (q : ρ) : Quiet prog p (p.step exec prog env (.start q)) where
  past := rfl
  deeds := deeds_start p q
  tasks t ht := by
    rcases List.mem_append.mp ht with hold | hnew
    · exact Or.inl hold
    · rw [List.mem_singleton.mp hnew]
      exact Or.inr ⟨rfl, rfl, rfl⟩

theorem quiet_env (p : Pool ρ Resp α σ) (e : ε) : Quiet prog p (p.step exec prog env (.env e)) where
  past := rfl
  deeds := rfl
  tasks _ ht := Or.inl ht

/-- **Step rule**: what holds of a pool after a move that makes no call and after a call
holds after every move. -/
theorem step_rule {P : Pool ρ Resp α σ → Prop} (m : Move ρ ε) (hquiet : ∀ p', Quiet prog p p' → P p')
    (hsame : P p)
    (hcall : ∀ i t c k, m = .advance i → p.tasks[i]? = some t → t.rest = .call c k →
      P (p.called exec i t c k)) : P (p.step exec prog env m) := by
  cases m with
  | start q => exact hquiet _ (quiet_start p q)
  | env e => exact hquiet _ (quiet_env p e)
  | advance i =>
      rcases step_advance p i with hstay | ⟨t, c, k, ht, hr, hstep⟩
      · rw [hstay]
        exact hsame
      · rw [hstep]
        exact hcall i t c k rfl ht hr

/-- What each task counts for by its calls is what all calls count for. -/
theorem filterMap_deeds {β : Type} {g : Deed Call σ → Option β} {f : Task ρ Resp α σ → Option β}
    (h : ∀ t ∈ p.tasks, t.deeds.filterMap g = (f t).toList) :
    p.deeds.filterMap g = p.tasks.filterMap f := by
  have htasks : ∀ tasks : List (Task ρ Resp α σ),
      (∀ t ∈ tasks, t.deeds.filterMap g = (f t).toList) →
        (tasks.flatMap Task.deeds).filterMap g = tasks.filterMap f := by
    intro tasks htasks
    induction tasks with
    | nil => rfl
    | cons t tasks ih =>
        simp only [List.mem_cons, forall_eq_or_imp] at htasks
        rw [List.flatMap_cons, List.filterMap_append, htasks.1, ih htasks.2, List.filterMap_cons]
        cases f t <;> rfl
  exact htasks p.tasks h

theorem mem_deeds {d : Deed Call σ} : d ∈ p.deeds ↔ ∃ t ∈ p.tasks, d ∈ t.deeds := List.mem_flatMap

/-- A task after a call is one that was not called, or the one that was. -/
theorem mem_tasks_called {t' : Task ρ Resp α σ} (h : t' ∈ (p.called exec i t c k).tasks) :
    t' ∈ p.tasks ∨ t' =
      { t with rest := k (exec c p.state).1, deeds := t.deeds ++ [⟨p.clock, c, p.state⟩] } :=
  List.mem_or_eq_of_mem_set h

/-- What a task has done it has done after a move. -/
theorem exists_task_step (m : Move ρ ε) {t : Task ρ Resp α σ} (ht : t ∈ p.tasks) :
    ∃ t' ∈ (p.step exec prog env m).tasks, t.deeds <+: t'.deeds := by
  cases m with
  | start q => exact ⟨t, List.mem_append_left _ ht, List.prefix_refl _⟩
  | env e => exact ⟨t, ht, List.prefix_refl _⟩
  | advance i =>
      rcases step_advance p i with hsame | ⟨u, c, k, hu, _, hstep⟩
      · rw [hsame]
        exact ⟨t, ht, List.prefix_refl _⟩
      · rw [hstep]
        obtain ⟨j, hj⟩ := List.mem_iff_getElem?.mp ht
        by_cases hij : i = j
        · subst hij
          obtain rfl : u = t := Option.some.inj (hu.symm.trans hj)
          exact ⟨_, List.mem_set (List.getElem?_eq_some_iff.mp hu).1 _, List.prefix_append _ _⟩
        · refine ⟨t, List.mem_iff_getElem?.mpr ⟨j, ?_⟩, List.prefix_refl _⟩
          show (p.tasks.set i _)[j]? = some t
          rw [List.getElem?_set_ne hij, hj]

theorem mem_deeds_step (m : Move ρ ε) {d : Deed Call σ} (hd : d ∈ p.deeds) :
    d ∈ (p.step exec prog env m).deeds := by
  obtain ⟨t, ht, hdt⟩ := mem_deeds.mp hd
  obtain ⟨t', ht', hgrown⟩ := exists_task_step m ht
  exact mem_deeds.mpr ⟨t', ht', hgrown.subset hdt⟩

theorem Happened.called (ht : p.tasks[i]? = some t) {time : Nat} (htime : time < p.clock)
    (h : Happened exec env p time) : Happened exec env (p.called exec i t c k) time := by
  have hpast : (p.called exec i t c k).past = p.past ++ [p.state] := rfl
  have hnow := stateAt_of_past hpast (Nat.le_of_lt htime)
  have hnext : (p.called exec i t c k).stateAt (time + 1) = p.stateAt (time + 1) :=
    stateAt_of_past hpast htime
  cases h with
  | nothing h => exact .nothing (by rw [hnow, hnext, h])
  | deed d hd htime => exact .deed d ((deeds_called ht).mem_iff.mpr (List.mem_cons_of_mem _ hd)) htime
  | env e h => exact .env e (by rw [hnow, hnext, h])

/-- Nothing a task has done, the call it makes now included, comes after now. -/
theorem Sound.time_le (h : Sound exec prog env p) (ht : t ∈ p.tasks) {d : Deed Call σ}
    (hd : d ∈ t.deeds ++ [⟨p.clock, c, p.state⟩]) : d.time ≤ p.clock := by
  rcases List.mem_append.mp hd with hold | hnew
  · exact Nat.le_of_lt (h.applied t ht d hold).2.1
  · exact Nat.le_of_eq (congrArg Deed.time (List.mem_singleton.mp hnew))

/-- A call keeps a pool sound. -/
theorem Sound.called (h : Sound exec prog env p) (ht : p.tasks[i]? = some t)
    (hr : t.rest = .call c k) : Sound exec prog env (p.called exec i t c k) := by
  have hmem : t ∈ p.tasks := List.mem_of_getElem? ht
  have hpast : (p.called exec i t c k).past = p.past ++ [p.state] := rfl
  have hclock : (p.called exec i t c k).clock = p.clock + 1 := by simp [clock, hpast]
  have happlied : ∀ d : Deed Call σ, d.time < p.clock → p.stateAt d.time = d.before →
      p.stateAt (d.time + 1) = (exec d.call d.before).2 →
        d.time < (p.called exec i t c k).clock ∧
          (p.called exec i t c k).stateAt d.time = d.before ∧
          (p.called exec i t c k).stateAt (d.time + 1) = (exec d.call d.before).2 := by
    intro d hlt hbefore hafter
    rw [hclock, stateAt_of_past hpast (Nat.le_of_lt hlt), stateAt_of_past hpast hlt]
    exact ⟨by omega, hbefore, hafter⟩
  constructor
  · intro t' ht'
    rcases mem_tasks_called ht' with hold | rfl
    · exact h.follows t' hold
    · exact follows_concat (h.follows t hmem) hr p.clock p.state
  · intro t' ht' d hd
    rcases mem_tasks_called ht' with hold | rfl
    · obtain ⟨hstart, hlt, hbefore, hafter⟩ := h.applied t' hold d hd
      exact ⟨hstart, happlied d hlt hbefore hafter⟩
    · rcases List.mem_append.mp hd with hd | hd
      · obtain ⟨hstart, hlt, hbefore, hafter⟩ := h.applied t hmem d hd
        exact ⟨hstart, happlied d hlt hbefore hafter⟩
      · rw [List.mem_singleton.mp hd]
        refine ⟨h.started t hmem, hclock ▸ Nat.lt_succ_self _, ?_, ?_⟩
        · exact (stateAt_of_past hpast (Nat.le_refl _)).trans (stateAt_of_clock_le (Nat.le_refl _))
        · exact stateAt_of_past_succ hpast (Nat.lt_succ_self _)
  · intro t' ht'
    rw [hclock]
    rcases mem_tasks_called ht' with hold | rfl
    · exact Nat.lt_succ_of_lt (h.started t' hold)
    · exact Nat.lt_succ_of_lt (h.started t hmem)
  · intro t' ht'
    rcases mem_tasks_called ht' with hold | rfl
    · exact h.ordered t' hold
    · rw [List.pairwise_append]
      refine ⟨h.ordered t hmem, List.pairwise_singleton _ _, ?_⟩
      intro d hd d' hd'
      rw [List.mem_singleton.mp hd']
      exact (h.applied t hmem d hd).2.1
  · have hperm : ((p.called exec i t c k).deeds.map Deed.time).Perm (p.clock :: p.deeds.map Deed.time) :=
      (deeds_called ht).map Deed.time
    rw [hperm.nodup_iff, List.nodup_cons]
    refine ⟨?_, h.distinct⟩
    intro hclash
    obtain ⟨d, hd, htime⟩ := List.mem_map.mp hclash
    obtain ⟨t', ht', hd'⟩ := mem_deeds.mp hd
    have hlt := (h.applied t' ht' d hd').2.1
    omega
  · intro time htime
    rw [hclock] at htime
    rcases Nat.lt_or_eq_of_le (Nat.le_of_lt_succ htime) with hlt | heq
    · exact (h.happened time hlt).called ht hlt
    · refine .deed ⟨p.clock, c, p.state⟩ ?_ heq.symm
      exact (deeds_called ht).mem_iff.mpr List.mem_cons_self

/-- A move that makes no call keeps what was done. -/
theorem Sound.of_quiet {p' : Pool ρ Resp α σ} (h : Sound exec prog env p) (hq : Quiet prog p p')
    (hnow : Happened exec env p' p.clock) : Sound exec prog env p' := by
  obtain ⟨hpast, hdeeds, htasks⟩ := hq
  have hclock : p'.clock = p.clock + 1 := by simp [clock, hpast]
  constructor
  · intro t ht
    rcases htasks t ht with hold | ⟨hr, hd, _⟩
    · exact h.follows t hold
    · rw [hr, hd]
      exact .nil _
  · intro t ht d hd
    rcases htasks t ht with hold | ⟨_, hnil, _⟩
    · obtain ⟨hstart, hlt, hbefore, hafter⟩ := h.applied t hold d hd
      rw [hclock, stateAt_of_past hpast (Nat.le_of_lt hlt), stateAt_of_past hpast hlt]
      exact ⟨hstart, by omega, hbefore, hafter⟩
    · simp [hnil] at hd
  · intro t ht
    rw [hclock]
    rcases htasks t ht with hold | ⟨_, _, hstart⟩
    · exact Nat.lt_succ_of_lt (h.started t hold)
    · omega
  · intro t ht
    rcases htasks t ht with hold | ⟨_, hnil, _⟩
    · exact h.ordered t hold
    · simp [hnil]
  · rw [hdeeds]
    exact h.distinct
  · intro time htime
    rw [hclock] at htime
    rcases Nat.lt_or_eq_of_le (Nat.le_of_lt_succ htime) with hlt | rfl
    · have hthen := stateAt_of_past hpast (Nat.le_of_lt hlt)
      have hnext : p'.stateAt (time + 1) = p.stateAt (time + 1) := stateAt_of_past hpast hlt
      cases h.happened time hlt with
      | nothing h => exact .nothing (by rw [hthen, hnext, h])
      | deed d hd htime => exact .deed d (hdeeds ▸ hd) htime
      | env e h => exact .env e (by rw [hthen, hnext, h])
    · exact hnow

/-- Every move keeps a pool sound. -/
theorem Sound.step (h : Sound exec prog env p) (m : Move ρ ε) :
    Sound exec prog env (p.step exec prog env m) := by
  cases m with
  | start q =>
      refine h.of_quiet (quiet_start p q) (.nothing ?_)
      rw [stateAt_of_past rfl (Nat.le_refl _), stateAt_of_past_succ rfl (Nat.lt_succ_self _),
        stateAt_of_clock_le (Nat.le_refl _)]
      rfl
  | advance i =>
      rcases step_advance p i with hsame | ⟨t, c, k, ht, hr, hstep⟩
      · rw [hsame]
        exact h
      · rw [hstep]
        exact h.called ht hr
  | env e =>
      refine h.of_quiet (quiet_env p e) (.env e ?_)
      rw [stateAt_of_past rfl (Nat.le_refl _), stateAt_of_past_succ rfl (Nat.lt_succ_self _),
        stateAt_of_clock_le (Nat.le_refl _)]
      rfl

theorem sound_new (s : σ) : Sound exec prog env (Pool.new s : Pool ρ Resp α σ) := by
  constructor <;> simp [Pool.new, deeds, clock]

/-- **Every schedule** leads to a sound pool. -/
theorem sound_reach (s : σ) (moves : List (Move ρ ε)) :
    Sound exec prog env (Run.reach (step exec prog env) (Pool.new s) moves) :=
  Run.invariant (fun _ m h => h.step m) (sound_new s) moves

/-- The first state never changes. -/
theorem stateAt_zero_step (m : Move ρ ε) : (p.step exec prog env m).stateAt 0 = p.stateAt 0 :=
  step_rule (P := fun p' => p'.stateAt 0 = p.stateAt 0) m
    (fun _ hq => stateAt_of_past hq.past (Nat.zero_le _)) rfl
    (fun _ _ _ _ _ _ _ => stateAt_of_past rfl (Nat.zero_le _))

theorem stateAt_zero_reach (s : σ) (moves : List (Move ρ ε)) :
    (Run.reach (step exec prog env) (Pool.new s) moves).stateAt 0 = s :=
  Run.invariant (fun p m h => (stateAt_zero_step (p := p) m).trans h) rfl moves

/-- **History rule**: what neither a call nor the environment breaks, in a state that
meets `P`, relates an earlier state to a later one when those between meet `P`. -/
theorem Sound.rel_stateAt_of_forall (h : Sound exec prog env p) {R : σ → σ → Prop} {P : σ → Prop}
    (hrefl : ∀ s, R s s) (htrans : ∀ {s u v}, R s u → R u v → R s v)
    (hcall : ∀ d ∈ p.deeds, P d.before → R d.before (exec d.call d.before).2)
    (henv : ∀ e s, P s → R s (env e s)) {time time' : Nat} (hle : time ≤ time')
    (hP : ∀ between, time ≤ between → between < time' → P (p.stateAt between)) :
    R (p.stateAt time) (p.stateAt time') := by
  induction hle with
  | refl => exact hrefl _
  | @step time' hle ih =>
      have hnow : P (p.stateAt time') := hP time' hle (Nat.lt_succ_self _)
      refine htrans (ih fun between hafter hlt => hP between hafter (Nat.lt_succ_of_lt hlt)) ?_
      rcases Nat.lt_or_ge time' p.clock with hlt | hge
      · cases h.happened time' hlt with
        | nothing hsame =>
            rw [hsame]
            exact hrefl _
        | deed d hd htime =>
            obtain ⟨t, ht, hdt⟩ := mem_deeds.mp hd
            obtain ⟨_, _, hbefore, hafter⟩ := h.applied t ht d hdt
            subst htime
            rw [hbefore] at hnow
            rw [hbefore, hafter]
            exact hcall d hd hnow
        | env e henvAt =>
            rw [henvAt]
            exact henv e _ hnow
      · rw [stateAt_of_clock_le hge, stateAt_of_clock_le (Nat.le_succ_of_le hge)]
        exact hrefl _

/-- The history rule for what is never broken. -/
theorem Sound.rel_stateAt (h : Sound exec prog env p) {R : σ → σ → Prop} (hrefl : ∀ s, R s s)
    (htrans : ∀ {s u v}, R s u → R u v → R s v)
    (hcall : ∀ d ∈ p.deeds, R d.before (exec d.call d.before).2) (henv : ∀ e s, R s (env e s))
    {time time' : Nat} (hle : time ≤ time') : R (p.stateAt time) (p.stateAt time') :=
  h.rel_stateAt_of_forall (P := fun _ => True) hrefl htrans (fun d hd _ => hcall d hd)
    (fun e s _ => henv e s) hle (fun _ _ _ => trivial)

end Rules

/-! ## two implementations of the shared state -/

section Alike

variable {τ ε' : Type} {exec : (c : Call) → σ → Resp c × σ} {exec' : (c : Call) → τ → Resp c × τ}
  {prog : ρ → Proc Resp α} {env : ε → σ → σ} {env' : ε' → τ → τ} {rel : σ → τ → Prop}
  {p : Pool ρ Resp α σ} {q : Pool ρ Resp α τ}

/-- What is left to do for every request. -/
def rests (p : Pool ρ Resp α σ) : List (ρ × Proc Resp α) := p.tasks.map (fun t => (t.request, t.rest))

/-- Two pools that no client can tell apart, with related states. -/
structure Alike (rel : σ → τ → Prop) (p : Pool ρ Resp α σ) (q : Pool ρ Resp α τ) : Prop where
  state : rel p.state q.state
  rests : p.rests = q.rests

theorem alike_new {s : σ} {t : τ} (h : rel s t) :
    Alike rel (Pool.new s : Pool ρ Resp α σ) (Pool.new t) := ⟨h, rfl⟩

theorem Alike.start (h : Alike rel p q) (r : ρ) :
    Alike rel (p.step exec prog env (.start r)) (q.step exec' prog env' (.start r)) := by
  refine ⟨h.state, ?_⟩
  have hrests := h.rests
  simp only [Pool.rests] at hrests ⊢
  simp [step, hrests]

theorem Alike.elapsed (h : Alike rel p q) {e : ε} {t : τ} (hrel : rel (env e p.state) t) (past : List τ) :
    Alike rel (p.step exec prog env (.env e)) { q with state := t, past := past } := ⟨hrel, h.rests⟩

/-- The task of one pool has its like in the other. -/
theorem Alike.task (h : Alike rel p q) (i : Nat) : (p.tasks[i]?).map (fun t => (t.request, t.rest)) =
    (q.tasks[i]?).map (fun t => (t.request, t.rest)) := by
  have hget : p.rests[i]? = q.rests[i]? := by rw [h.rests]
  simpa [Pool.rests] using hget

/-- Calls that are answered alike, and keep the states related, keep the pools alike. -/
theorem Alike.advance (h : Alike rel p q) (i : Nat)
    (hcall : ∀ t c k, p.tasks[i]? = some t → t.rest = .call c k →
      (exec c p.state).1 = (exec' c q.state).1 ∧ rel (exec c p.state).2 (exec' c q.state).2) :
    Alike rel (p.step exec prog env (.advance i)) (q.step exec' prog env' (.advance i)) := by
  have htask := h.task i
  cases ht : p.tasks[i]? with
  | none =>
      have hu : q.tasks[i]? = none := by simpa [ht] using htask.symm
      simpa [step, ht, hu] using h
  | some t =>
      obtain ⟨u, hu, hview⟩ : ∃ u, q.tasks[i]? = some u ∧ (u.request, u.rest) = (t.request, t.rest) := by
        simpa [ht, Option.map_eq_some_iff] using htask.symm
      obtain ⟨hrequest, hrest⟩ := Prod.mk.inj hview
      cases hr : t.rest with
      | done a => simpa [step, ht, hu, hrest, hr] using h
      | call c k =>
          obtain ⟨hanswer, hrel⟩ := hcall t c k ht hr
          rw [hr] at hrest
          refine ⟨by simpa [step, ht, hu, hrest, hr, called] using hrel, ?_⟩
          have hrests := h.rests
          simp only [Pool.rests] at hrests ⊢
          simp [step, ht, hu, hrest, hr, called, List.map_set, hrests, hrequest, hanswer]

end Alike

/-! ## two implementations whose answers differ

Where the answers of two implementations are only alike, the programs of a task may go on
apart.  They are twins as long as they treat what is alike in one way.
-/

section Twins

variable {τ : Type} {exec : (c : Call) → σ → Resp c × σ} {exec' : (c : Call) → τ → Resp c × τ}
  {prog : ρ → Proc Resp α} {env : ε → σ → σ} {env' : ε → τ → τ} {P : ρ → Call → Prop}
  {alike : ρ → (c : Call) → Resp c → Resp c → Prop} {ends : ρ → α → α → Prop} {rel : σ → τ → Prop}
  {p : Pool ρ Resp α σ} {q : Pool ρ Resp α τ}

/-- What is left of one request in two pools. -/
def TwinTasks (P : ρ → Call → Prop) (alike : ρ → (c : Call) → Resp c → Resp c → Prop)
    (ends : ρ → α → α → Prop) (t : Task ρ Resp α σ) (u : Task ρ Resp α τ) : Prop :=
  t.request = u.request ∧ Proc.Twin (P t.request) (alike t.request) (ends t.request) t.rest u.rest

/-- Pools in related states, the same requests of which are left with twins. -/
structure Twins (P : ρ → Call → Prop) (alike : ρ → (c : Call) → Resp c → Resp c → Prop)
    (ends : ρ → α → α → Prop) (rel : σ → τ → Prop) (p : Pool ρ Resp α σ) (q : Pool ρ Resp α τ) : Prop where
  state : rel p.state q.state
  tasks : List.Forall₂ (TwinTasks P alike ends) p.tasks q.tasks

theorem twins_new {s : σ} {t : τ} (h : rel s t) :
    Twins P alike ends rel (Pool.new s : Pool ρ Resp α σ) (Pool.new t) := ⟨h, .nil⟩

theorem Twins.start (h : Twins P alike ends rel p q) {r : ρ}
    (hr : Proc.Twin (P r) (alike r) (ends r) (prog r) (prog r)) :
    Twins P alike ends rel (p.step exec prog env (.start r)) (q.step exec' prog env' (.start r)) :=
  ⟨h.state, List.rel_append h.tasks (.cons ⟨rfl, hr⟩ .nil)⟩

theorem Twins.elapsed (h : Twins P alike ends rel p q) {e : ε} (he : rel (env e p.state) (env' e q.state)) :
    Twins P alike ends rel (p.step exec prog env (.env e)) (q.step exec' prog env' (.env e)) := ⟨he, h.tasks⟩

/-- Lists related item by item have related items at one place, or both none. -/
theorem forall₂_getElem? {β γ : Type} {rel : β → γ → Prop} {l : List β} {m : List γ}
    (h : List.Forall₂ rel l m) (i : Nat) : (l[i]? = none ∧ m[i]? = none) ∨
      ∃ b c, l[i]? = some b ∧ m[i]? = some c ∧ rel b c := by
  induction h generalizing i with
  | nil => exact .inl ⟨rfl, rfl⟩
  | cons hbc _ ih =>
      cases i with
      | zero => exact .inr ⟨_, _, rfl, rfl, hbc⟩
      | succ i => exact ih i

theorem forall₂_set {β γ : Type} {rel : β → γ → Prop} {l : List β} {m : List γ} {b : β} {c : γ}
    (h : List.Forall₂ rel l m) (i : Nat) (hbc : rel b c) : List.Forall₂ rel (l.set i b) (m.set i c) := by
  induction h generalizing i with
  | nil => exact .nil
  | cons hrel htail ih =>
      cases i with
      | zero => exact .cons hbc htail
      | succ i => exact .cons hrel (ih i)

/-- Calls that are answered alike, and keep the states related, keep the pools twins. -/
theorem Twins.advance (h : Twins P alike ends rel p q) (i : Nat)
    (hcall : ∀ t c k, p.tasks[i]? = some t → t.rest = .call c k → P t.request c →
      alike t.request c (exec c p.state).1 (exec' c q.state).1 ∧
        rel (exec c p.state).2 (exec' c q.state).2) :
    Twins P alike ends rel (p.step exec prog env (.advance i)) (q.step exec' prog env' (.advance i)) := by
  obtain ⟨hp, hq⟩ | ⟨t, u, ht, hu, hrequest, htwin⟩ := forall₂_getElem? h.tasks i
  · simpa [step, hp, hq] using h
  · cases hrest : t.rest with
    | done a =>
        obtain ⟨b, hb, _⟩ := (hrest ▸ htwin).of_done
        simpa [step, ht, hu, hrest, hb] using h
    | call c k =>
        obtain ⟨hc, k', hother, hk⟩ := (hrest ▸ htwin).of_call
        obtain ⟨hanswer, hstate⟩ := hcall t c k ht hrest hc
        have htasks : List.Forall₂ (TwinTasks P alike ends) (p.called exec i t c k).tasks
            (q.called exec' i u c k').tasks := forall₂_set h.tasks i ⟨hrequest, hk _ _ hanswer⟩
        have htwins : Twins P alike ends rel (p.called exec i t c k) (q.called exec' i u c k') := ⟨hstate, htasks⟩
        simpa [step, ht, hu, hrest, hother] using htwins

/-- Twins have come to results that are alike, or both to none. -/
theorem Twins.result? (h : Twins P alike ends rel p q) :
    List.Forall₂ (fun t u => t.request = u.request ∧
      Option.Rel (ends t.request) t.rest.result? u.rest.result?) p.tasks q.tasks := by
  refine h.tasks.imp (fun t u ⟨hrequest, htwin⟩ => ⟨hrequest, ?_⟩)
  cases hrest : t.rest with
  | done a =>
      obtain ⟨b, hb, hab⟩ := (hrest ▸ htwin).of_done
      rw [hb]
      exact .some hab
  | call c k =>
      obtain ⟨_, k', hother, _⟩ := (hrest ▸ htwin).of_call
      rw [hother]
      exact .none

end Twins

/-! ## requests behind requests -/

section Shadows

variable {ρ' : Type} {exec : (c : Call) → σ → Resp c × σ} {prog : ρ → Proc Resp α} {prog' : ρ' → Proc Resp β}
  {env : ε → σ → σ} {rel : ρ → ρ' → Prop} {p : Pool ρ Resp α σ} {q : Pool ρ' Resp β σ}

/-- A program that makes no call, or is another one but for what it makes of the result. -/
def Adapts (r : Proc Resp α) (r' : Proc Resp β) : Prop := (∃ a, r = .done a) ∨ ∃ f : β → α, r = f <$> r'

theorem adapts_map (f : β → α) (r : Proc Resp β) : Adapts (f <$> r) r := .inr ⟨f, rfl⟩

/-- What is made of a result may be made of what was. -/
theorem Adapts.map {γ : Type} {r : Proc Resp α} {r' : Proc Resp β} (h : Adapts r r') (g : α → γ) :
    Adapts (g <$> r) r' := by
  obtain ⟨a, rfl⟩ | ⟨f, rfl⟩ := h
  · exact .inl ⟨g a, rfl⟩
  · exact .inr ⟨g ∘ f, Proc.map_map g f r'⟩

/-- A task that makes the calls of another, or none. -/
def ShadowTasks (rel : ρ → ρ' → Prop) (t : Task ρ Resp α σ) (u : Task ρ' Resp β σ) : Prop :=
  rel t.request u.request ∧ t.startedAt = u.startedAt ∧ Adapts t.rest u.rest

/-- Two pools that go through the same states, task by task. -/
structure Shadows (rel : ρ → ρ' → Prop) (p : Pool ρ Resp α σ) (q : Pool ρ' Resp β σ) : Prop where
  state : p.state = q.state
  past : p.past = q.past
  tasks : List.Forall₂ (ShadowTasks rel) p.tasks q.tasks

theorem Shadows.stateAt (h : Shadows rel p q) (time : Nat) : p.stateAt time = q.stateAt time := by
  rw [Pool.stateAt, Pool.stateAt, h.past, h.state]

theorem Shadows.start (h : Shadows rel p q) {r : ρ} {r' : ρ'} (hrel : rel r r')
    (hprog : Adapts (prog r) (prog' r')) :
    Shadows rel (p.step exec prog env (.start r)) (q.step exec prog' env (.start r')) := by
  have hclock : p.clock = q.clock := by rw [clock, clock, h.past]
  exact ⟨h.state, by simp [step, h.past, h.state], List.rel_append h.tasks (.cons ⟨hrel, hclock, hprog⟩ .nil)⟩

theorem Shadows.elapsed (h : Shadows rel p q) (e : ε) :
    Shadows rel (p.step exec prog env (.env e)) (q.step exec prog' env (.env e)) :=
  ⟨by simp [step, h.state], by simp [step, h.past, h.state], h.tasks⟩

/-- A call of a task is one of the task behind it. -/
theorem Shadows.advance (h : Shadows rel p q) (i : Nat) :
    Shadows rel (p.step exec prog env (.advance i)) q ∨
      Shadows rel (p.step exec prog env (.advance i)) (q.step exec prog' env (.advance i)) := by
  obtain ⟨hp, _⟩ | ⟨t, u, ht, hu, hrel, hstart, hadapts⟩ := forall₂_getElem? h.tasks i
  · exact .inl (by simpa [step, hp] using h)
  · obtain ⟨a, hdone⟩ | ⟨f, hrest⟩ := hadapts
    · exact .inl (by simpa [step, ht, hdone] using h)
    · cases hother : u.rest with
      | done b =>
          have hdone : t.rest = .done (f b) := by rw [hrest, hother, Proc.map_done]
          exact .inl (by simpa [step, ht, hdone] using h)
      | call c k =>
          have hcall : t.rest = .call c (fun r => f <$> k r) := by rw [hrest, hother, Proc.map_call]
          refine .inr ?_
          have hshadows : Shadows rel (p.called exec i t c (fun r => f <$> k r)) (q.called exec i u c k) := by
            refine ⟨by simp [called, h.state], by simp [called, h.past, h.state], forall₂_set h.tasks i ?_⟩
            exact ⟨hrel, hstart, .inr ⟨f, by rw [h.state]⟩⟩
          simpa [step, ht, hu, hcall, hother] using hshadows

end Shadows

end Pool
