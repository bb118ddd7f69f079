import Mathlib.Control.Lawful

/-!
# Shorty.Lib.Proc

Programs that talk to their surroundings through calls.  A `Proc` either is
done with a result or makes a call and continues with the answer, so one
definition of a program has two readings:

* `run` answers every call at once from a state, which is the program executed
  with nothing in between;
* `step` answers one call only, which is what an interleaving of several
  programs is made of.

`run_step` says that the first is the second, repeated.
-/

/-- A program over calls `c : Call` answered in `Resp c`. -/
inductive Proc {Call : Type} (Resp : Call → Type) (α : Type) where
  | done (a : α)
  | call (c : Call) (k : Resp c → Proc Resp α)

namespace Proc

variable {Call : Type} {Resp : Call → Type} {α β σ : Type}

/-- Continue with the result of a program. -/
def bind (p : Proc Resp α) (f : α → Proc Resp β) : Proc Resp β :=
  match p with
  | .done a => f a
  | .call c k => .call c (fun r => (k r).bind f)

instance : Monad (Proc Resp) where
  pure := .done
  bind := bind

/-- The program that makes one call and returns the answer. -/
def request (c : Call) : Proc Resp (Resp c) := .call c .done

@[simp] theorem pure_eq (a : α) : (pure a : Proc Resp α) = .done a := rfl

@[simp] theorem done_bind (a : α) (f : α → Proc Resp β) : (Proc.done a >>= f) = f a := rfl

@[simp] theorem call_bind (c : Call) (k : Resp c → Proc Resp α) (f : α → Proc Resp β) :
    (Proc.call c k >>= f) = .call c (fun r => k r >>= f) := rfl

@[simp] theorem request_bind (c : Call) (f : Resp c → Proc Resp β) :
    (request c >>= f) = .call c f := rfl

@[simp] theorem map_done (f : α → β) (a : α) : f <$> (Proc.done a : Proc Resp α) = .done (f a) := rfl

@[simp] theorem map_call (f : α → β) (c : Call) (k : Resp c → Proc Resp α) :
    f <$> Proc.call c k = .call c (fun r => f <$> k r) := rfl

theorem map_map {γ : Type} (g : β → γ) (f : α → β) (p : Proc Resp α) : g <$> f <$> p = (g ∘ f) <$> p := by
  induction p with
  | done a => rfl
  | call c k ih => simp only [map_call, ih]

/-- Execute a program from a state, every call answered at once. -/
def run (exec : (c : Call) → σ → Resp c × σ) : Proc Resp α → σ → α × σ
  | .done a, s => (a, s)
  | .call c k, s => run exec (k (exec c s).1) (exec c s).2

/-- Execute the next call of a program, if it has one. -/
def step (exec : (c : Call) → σ → Resp c × σ) : Proc Resp α → σ → Proc Resp α × σ
  | .done a, s => (.done a, s)
  | .call c k, s => (k (exec c s).1, (exec c s).2)

/-- The result of a finished program. -/
def result? : Proc Resp α → Option α
  | .done a => some a
  | .call _ _ => none

/-- The next call of a program that is not finished. -/
def call? : Proc Resp α → Option Call
  | .done _ => none
  | .call c _ => some c

@[simp] theorem result?_map (f : α → β) (p : Proc Resp α) : (f <$> p).result? = p.result?.map f := by
  cases p <;> rfl

section Rules

variable {exec : (c : Call) → σ → Resp c × σ}

@[simp] theorem run_done (a : α) (s : σ) : run exec (.done a) s = (a, s) := rfl

@[simp] theorem run_call (c : Call) (k : Resp c → Proc Resp α) (s : σ) :
    run exec (.call c k) s = run exec (k (exec c s).1) (exec c s).2 := rfl

@[simp] theorem run_request (c : Call) (s : σ) : run exec (request c) s = exec c s := rfl

/-- Sequencing two programs executes one after the other. -/
@[simp] theorem run_bind (p : Proc Resp α) (f : α → Proc Resp β) (s : σ) :
    run exec (p >>= f) s = run exec (f (run exec p s).1) (run exec p s).2 := by
  induction p generalizing s with
  | done a => rfl
  | call c k ih => exact ih _ _

@[simp] theorem run_map (g : α → β) (p : Proc Resp α) (s : σ) :
    run exec (g <$> p) s = (g (run exec p s).1, (run exec p s).2) := by
  induction p generalizing s with
  | done a => rfl
  | call c k ih => exact ih _ _

/-- **Frame rule**: what every call of every program keeps, an execution keeps. -/
theorem run_invariant {P : σ → Prop} (h : ∀ c s, P s → P (exec c s).2) (p : Proc Resp α) (s : σ)
    (hs : P s) : P (run exec p s).2 := by
  induction p generalizing s with
  | done a => exact hs
  | call c k ih => exact ih _ _ (h c s hs)

end Rules

/-! ## programs that make only some calls -/

/-- Every call a program can make is one of `P`. -/
inductive Only (P : Call → Prop) : Proc Resp α → Prop where
  | done (a : α) : Only P (.done a)
  | call (c : Call) (k : Resp c → Proc Resp α) (hc : P c) (hk : ∀ r, Only P (k r)) :
      Only P (.call c k)

section Only

variable {exec : (c : Call) → σ → Resp c × σ} {P : Call → Prop}

theorem only_request {c : Call} (h : P c) : Only P (request c : Proc Resp (Resp c)) :=
  .call c .done h .done

theorem only_bind {p : Proc Resp α} {f : α → Proc Resp β} (hp : Only P p)
    (hf : ∀ a, Only P (f a)) : Only P (p >>= f) := by
  induction hp with
  | done a => exact hf a
  | call c k hc _ ih => exact .call c _ hc ih

theorem only_map {f : α → β} {p : Proc Resp α} (hp : Only P p) : Only P (f <$> p) := by
  induction hp with
  | done a => exact .done (f a)
  | call c k hc _ ih => exact .call c _ hc ih

theorem Only.mono {Q : Call → Prop} (hPQ : ∀ c, P c → Q c) {p : Proc Resp α} (hp : Only P p) :
    Only Q p := by
  induction hp with
  | done a => exact .done a
  | call c k hc _ ih => exact .call c k (hPQ c hc) ih

/-- **Two-run rule**: states that answer alike every call a program can make, and
stay related, give the program the same result. -/
theorem run_simulation_of_only {τ : Type} {exec' : (c : Call) → τ → Resp c × τ}
    (rel : σ → τ → Prop)
    (h : ∀ c s t, P c → rel s t → (exec c s).1 = (exec' c t).1 ∧ rel (exec c s).2 (exec' c t).2)
    {p : Proc Resp α} (hp : Only P p) (s : σ) (t : τ) (hst : rel s t) :
    (run exec p s).1 = (run exec' p t).1 ∧ rel (run exec p s).2 (run exec' p t).2 := by
  induction hp generalizing s t with
  | done a => exact ⟨rfl, hst⟩
  | call c k hc _ ih =>
      obtain ⟨hr, hrel⟩ := h c s t hc hst
      rw [run_call, run_call, ← hr]
      exact ih _ _ _ hrel

end Only

/-! ## programs with one deciding call -/

/-- A program all of whose calls are of `P`, or fail as `F` says, but for one at most. -/
inductive Once (P : Call → Prop) (F : (c : Call) → Resp c → Prop) : Proc Resp α → Prop where
  | only (p : Proc Resp α) (h : Only P p) : Once P F p
  | pass (c : Call) (k : Resp c → Proc Resp α) (hc : P c) (hk : ∀ r, Once P F (k r)) :
      Once P F (.call c k)
  | decide (c : Call) (k : Resp c → Proc Resp α) (hfail : ∀ r, F c r → Once P F (k r))
      (hdone : ∀ r, ¬ F c r → Only P (k r)) : Once P F (.call c k)

section Once

variable {P : Call → Prop} {F : (c : Call) → Resp c → Prop} {p : Proc Resp α} {f : α → Proc Resp β}

/-- The deciding call may come after others ... -/
theorem once_bind_of_only (hp : Only P p) (hf : ∀ a, Once P F (f a)) : Once P F (p >>= f) := by
  induction hp with
  | done a => exact hf a
  | call c k hc _ ih => exact .pass c _ hc ih

/-- ... and before others. -/
theorem Once.bind (hp : Once P F p) (hf : ∀ a, Only P (f a)) : Once P F (p >>= f) := by
  induction hp with
  | only p h => exact .only _ (only_bind h hf)
  | pass c k hc _ ih => exact .pass c _ hc ih
  | decide c k _ hdone ih => exact .decide c _ ih (fun r hr => only_bind (hdone r hr) hf)

theorem Once.map {g : α → β} (hp : Once P F p) : Once P F (g <$> p) := by
  induction hp with
  | only p h => exact .only _ (only_map h)
  | pass c k hc _ ih => exact .pass c _ hc ih
  | decide c k _ hdone ih => exact .decide c _ ih (fun r hr => only_map (hdone r hr))

end Once

/-! ## what a program returns -/

/-- Whatever its calls are answered, a program returns nothing but `Q`. -/
inductive Returns (Q : α → Prop) : Proc Resp α → Prop where
  | done {a : α} (h : Q a) : Returns Q (.done a)
  | call (c : Call) {k : Resp c → Proc Resp α} (hk : ∀ r, Returns Q (k r)) : Returns Q (.call c k)

section Returns

variable {Q : α → Prop} {Q' : β → Prop} {p : Proc Resp α} {f : α → Proc Resp β}

theorem Returns.of_done {a : α} (h : Returns Q (.done a : Proc Resp α)) : Q a := by
  cases h with
  | done h => exact h

theorem Returns.bind (h : Returns Q p) (hf : ∀ a, Q a → Returns Q' (f a)) : Returns Q' (p >>= f) := by
  induction h with
  | done h => exact hf _ h
  | call c _ ih => exact .call c ih

/-- What a program goes on with decides. -/
theorem returns_bind (p : Proc Resp α) (hf : ∀ a, Returns Q' (f a)) : Returns Q' (p >>= f) := by
  induction p with
  | done a => exact hf a
  | call c k ih => exact .call c ih

theorem Returns.map {g : α → β} (h : Returns Q p) (hg : ∀ a, Q a → Q' (g a)) : Returns Q' (g <$> p) := by
  induction h with
  | done h => exact .done (hg _ h)
  | call c _ ih => exact .call c ih

end Returns

/-! ## two programs answered alike -/

/-- Two programs that make the same calls, all of `P`, as long as they are answered alike,
and end alike. -/
inductive Twin (P : Call → Prop) (alike : (c : Call) → Resp c → Resp c → Prop) (Q : α → β → Prop) :
    Proc Resp α → Proc Resp β → Prop where
  | done {a : α} {b : β} (h : Q a b) : Twin P alike Q (.done a) (.done b)
  | call (c : Call) {k : Resp c → Proc Resp α} {k' : Resp c → Proc Resp β} (hc : P c)
      (hk : ∀ r r', alike c r r' → Twin P alike Q (k r) (k' r')) : Twin P alike Q (.call c k) (.call c k')

section Twin

variable {P : Call → Prop} {alike : (c : Call) → Resp c → Resp c → Prop} {Q : α → β → Prop}
  {p : Proc Resp α} {q : Proc Resp β}

theorem twin_request {c : Call} (h : P c) : Twin P alike (alike c) (request c) (request c) :=
  .call c h (fun _ _ hr => .done hr)

theorem Twin.of_done {a : α} (h : Twin P alike Q (.done a) q) : ∃ b, q = .done b ∧ Q a b := by
  cases h with
  | done h => exact ⟨_, rfl, h⟩

theorem Twin.of_call {c : Call} {k : Resp c → Proc Resp α} (h : Twin P alike Q (.call c k) q) :
    P c ∧ ∃ k', q = .call c k' ∧ ∀ r r', alike c r r' → Twin P alike Q (k r) (k' r') := by
  cases h with
  | call _ hc hk => exact ⟨hc, _, rfl, hk⟩

/-- Sequencing twins gives twins. -/
theorem Twin.bind {γ δ : Type} {Q' : γ → δ → Prop} {f : α → Proc Resp γ} {g : β → Proc Resp δ}
    (h : Twin P alike Q p q) (hfg : ∀ a b, Q a b → Twin P alike Q' (f a) (g b)) :
    Twin P alike Q' (p >>= f) (q >>= g) := by
  induction h with
  | done h => exact hfg _ _ h
  | call c hc _ ih => exact .call c hc ih

theorem Twin.map {γ δ : Type} {Q' : γ → δ → Prop} {f : α → γ} {g : β → δ} (h : Twin P alike Q p q)
    (hfg : ∀ a b, Q a b → Q' (f a) (g b)) : Twin P alike Q' (f <$> p) (g <$> q) := by
  induction h with
  | done h => exact .done (hfg _ _ h)
  | call c hc _ ih => exact .call c hc ih

end Twin

/-! ## calls made of smaller calls -/

section Expand

variable {Call' : Type} {Resp' : Call' → Type}

/-- Make every call by a program of smaller calls. -/
def expand (f : (c : Call) → Proc Resp' (Resp c)) : Proc Resp α → Proc Resp' α
  | .done a => .done a
  | .call c k => f c >>= fun r => expand f (k r)

@[simp] theorem expand_done (f : (c : Call) → Proc Resp' (Resp c)) (a : α) :
    expand f (.done a : Proc Resp α) = .done a := rfl

@[simp] theorem expand_call (f : (c : Call) → Proc Resp' (Resp c)) (c : Call)
    (k : Resp c → Proc Resp α) : expand f (.call c k) = f c >>= fun r => expand f (k r) := rfl

/-- **Refinement**: where the smaller calls of every call do what it does, a program
made of them does what it did. -/
theorem run_expand {exec : (c : Call) → σ → Resp c × σ} {exec' : (c : Call') → σ → Resp' c × σ}
    {f : (c : Call) → Proc Resp' (Resp c)} (h : ∀ c s, run exec' (f c) s = exec c s)
    (p : Proc Resp α) (s : σ) : run exec' (expand f p) s = run exec p s := by
  induction p generalizing s with
  | done a => rfl
  | call c k ih =>
      rw [expand_call, run_bind, h, ih]
      rfl

end Expand

end Proc
