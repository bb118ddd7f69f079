import Mathlib.Data.List.Basic

/-!
# Shorty.Lib.Run

Runs of a deterministic machine `step : σ → ε → σ` over a list of events.

Three notions recur whenever a law is stated about runs: the state a run ends
in (`reach`), a condition every step meets in the state it starts from
(`Along`), and a property of every state on the way (`Throughout`).  The rules
here turn one-step facts into run facts, so that a proof about runs is a proof
about one step plus the name of a rule.
-/

namespace Run

variable {σ ε ω τ : Type}

/-- The state a run ends in. -/
def reach (step : σ → ε → σ) (s : σ) (es : List ε) : σ := es.foldl step s

/-- Every event of the run meets `C` in the state it happens in. -/
def Along (step : σ → ε → σ) (C : σ → ε → Prop) : σ → List ε → Prop
  | _, [] => True
  | s, e :: es => C s e ∧ Along step C (step s e) es

instance decidableAlong {step : σ → ε → σ} {C : σ → ε → Prop} [∀ s e, Decidable (C s e)] :
    ∀ s es, Decidable (Along step C s es)
  | _, [] => .isTrue trivial
  | s, e :: es =>
      have : Decidable (Along step C (step s e) es) := decidableAlong (step s e) es
      inferInstanceAs (Decidable (C s e ∧ Along step C (step s e) es))

/-- `P` holds in every state of the run, the first and the last included. -/
def Throughout (step : σ → ε → σ) (P : σ → Prop) : σ → List ε → Prop
  | s, [] => P s
  | s, e :: es => P s ∧ Throughout step P (step s e) es

instance decidableThroughout {step : σ → ε → σ} {P : σ → Prop} [∀ s, Decidable (P s)] :
    ∀ s es, Decidable (Throughout step P s es)
  | s, [] => inferInstanceAs (Decidable (P s))
  | s, e :: es =>
      have : Decidable (Throughout step P (step s e) es) := decidableThroughout (step s e) es
      inferInstanceAs (Decidable (P s ∧ Throughout step P (step s e) es))

/-- What an observer sees at each event of the run. -/
def outputs (step : σ → ε → σ) (out : σ → ε → ω) : σ → List ε → List ω
  | _, [] => []
  | s, e :: es => out s e :: outputs step out (step s e) es

/-- What an observer of some of the events sees. -/
def seen (step : σ → ε → σ) (out : σ → ε → ω) (p : ε → Bool) : σ → List ε → List ω
  | _, [] => []
  | s, e :: es =>
      if p e then out s e :: seen step out p (step s e) es else seen step out p (step s e) es

/-- The events of a run that are of a kind in the state they happen in. -/
def kept (step : σ → ε → σ) (p : σ → ε → Bool) : σ → List ε → List ε
  | _, [] => []
  | s, e :: es => if p s e then e :: kept step p (step s e) es else kept step p (step s e) es

section Rules

variable {step : σ → ε → σ} {C : σ → ε → Prop} {P : σ → Prop} {s : σ} {es es' : List ε}

@[simp] theorem reach_nil : reach step s [] = s := rfl

@[simp] theorem reach_cons (e : ε) : reach step s (e :: es) = reach step (step s e) es := rfl

theorem reach_append (es es' : List ε) :
    reach step s (es ++ es') = reach step (reach step s es) es' := List.foldl_append

@[simp] theorem along_nil : Along step C s [] ↔ True := Iff.rfl

@[simp] theorem along_cons (e : ε) :
    Along step C s (e :: es) ↔ C s e ∧ Along step C (step s e) es := Iff.rfl

@[simp] theorem throughout_nil : Throughout step P s [] ↔ P s := Iff.rfl

@[simp] theorem throughout_cons (e : ε) :
    Throughout step P s (e :: es) ↔ P s ∧ Throughout step P (step s e) es := Iff.rfl

theorem Throughout.head (h : Throughout step P s es) : P s := by
  cases es with
  | nil => exact h
  | cons e es => exact h.1

theorem Throughout.last (h : Throughout step P s es) : P (reach step s es) := by
  induction es generalizing s with
  | nil => exact h
  | cons e es ih => exact ih h.2

theorem Throughout.mono {Q : σ → Prop} (hPQ : ∀ s, P s → Q s) (h : Throughout step P s es) :
    Throughout step Q s es := by
  induction es generalizing s with
  | nil => exact hPQ s h
  | cons e es ih => exact ⟨hPQ s h.1, ih h.2⟩

theorem Along.mono {D : σ → ε → Prop} (hCD : ∀ s e, C s e → D s e) (h : Along step C s es) :
    Along step D s es := by
  induction es generalizing s with
  | nil => trivial
  | cons e es ih => exact ⟨hCD s e h.1, ih h.2⟩

theorem along_of_forall (h : ∀ s e, C s e) : Along step C s es := by
  induction es generalizing s with
  | nil => trivial
  | cons e es ih => exact ⟨h s e, ih⟩

/-- A condition that no state has a say in holds along a run when it holds of all its
events. -/
theorem along_iff_forall {D : ε → Prop} (h : ∀ s e, C s e ↔ D e) : Along step C s es ↔ ∀ e ∈ es, D e := by
  induction es generalizing s with
  | nil => simp
  | cons e es ih => rw [along_cons, h, ih, List.forall_mem_cons]

/-- **Invariant rule**: what every step meeting `C` preserves holds in every
state of a run whose steps all meet `C`. -/
theorem throughout_of_step (hstep : ∀ s e, P s → C s e → P (step s e)) (hs : P s)
    (h : Along step C s es) : Throughout step P s es := by
  induction es generalizing s with
  | nil => exact hs
  | cons e es ih => exact ⟨hs, ih (hstep s e hs h.1) h.2⟩

/-- The invariant rule for the last state. -/
theorem reach_of_step (hstep : ∀ s e, P s → C s e → P (step s e)) (hs : P s)
    (h : Along step C s es) : P (reach step s es) :=
  (throughout_of_step hstep hs h).last

/-- The invariant rule for a step that preserves `P` unconditionally. -/
theorem invariant (hstep : ∀ s e, P s → P (step s e)) (hs : P s) (es : List ε) :
    P (reach step s es) := by
  induction es generalizing s with
  | nil => exact hs
  | cons e es ih => exact ih (hstep s e hs)

/-- Conditions that agree in every state with an invariant agree along a run. -/
theorem along_congr {D : σ → ε → Prop} (hstep : ∀ s e, P s → P (step s e))
    (hCD : ∀ s e, P s → (C s e ↔ D s e)) (hs : P s) : Along step C s es ↔ Along step D s es := by
  induction es generalizing s with
  | nil => exact Iff.rfl
  | cons e es ih => rw [along_cons, along_cons, hCD s e hs, ih (hstep s e hs)]

/-- **Exact invariant rule**: let `I` strengthen `P`, be kept by every step that
meets `C`, and let only a step that meets `C` keep `P`.  Then a run keeps `P`
throughout exactly when all its steps meet `C`. -/
theorem throughout_iff_along {I : σ → Prop} (hIP : ∀ s, I s → P s)
    (hkeep : ∀ s e, I s → C s e → I (step s e)) (hneed : ∀ s e, I s → P (step s e) → C s e)
    (hs : I s) : Throughout step P s es ↔ Along step C s es := by
  induction es generalizing s with
  | nil => simp [hIP s hs]
  | cons e es ih =>
      rw [throughout_cons, along_cons]
      constructor
      · rintro ⟨_, h⟩
        have hc : C s e := hneed s e hs h.head
        exact ⟨hc, (ih (hkeep s e hs hc)).mp h⟩
      · rintro ⟨hc, h⟩
        exact ⟨hIP s hs, (ih (hkeep s e hs hc)).mpr h⟩

end Rules

section Outputs

variable {step : σ → ε → σ} {out : σ → ε → ω} {step' : τ → ε → τ} {out' : τ → ε → ω} {s : σ} {t : τ}
  {es es' : List ε}

theorem outputs_append :
    outputs step out s (es ++ es') = outputs step out s es ++ outputs step out (reach step s es) es' := by
  induction es generalizing s with
  | nil => rfl
  | cons e es ih => simp [outputs, ih]

theorem map_outputs {ω' : Type} (f : ω → ω') :
    (outputs step out s es).map f = outputs step (fun s e => f (out s e)) s es := by
  induction es generalizing s with
  | nil => rfl
  | cons e es ih => simp [outputs, ih]

theorem seen_true : seen step out (fun _ => true) s es = outputs step out s es := by
  induction es generalizing s with
  | nil => rfl
  | cons e es ih => simp [seen, outputs, ih]

/-- **Two-run rule**: where a relation, which may look at the events to come, makes
the observed events answer alike and is kept by them in both machines and by the
others in the first alone, an observer of the first sees what the second answers when
only the observed events happen. -/
theorem seen_eq_outputs_filter {p : ε → Bool} (rel : List ε → σ → τ → Prop)
    (hstep : ∀ e es s t, rel (e :: es) s t → p e = true →
      out s e = out' t e ∧ rel es (step s e) (step' t e))
    (hskip : ∀ e es s t, rel (e :: es) s t → p e = false → rel es (step s e) t)
    (h : rel es s t) : seen step out p s es = outputs step' out' t (es.filter p) := by
  induction es generalizing s t with
  | nil => rfl
  | cons e es ih =>
      cases hp : p e with
      | true =>
          obtain ⟨hout, hrel⟩ := hstep e es s t h hp
          simp [seen, outputs, hp, hout, ih hrel]
      | false => simp [seen, hp, ih (hskip e es s t h hp)]

/-- The two-run rule for an observer of all events. -/
theorem outputs_eq_of_rel (rel : List ε → σ → τ → Prop)
    (hstep : ∀ e es s t, rel (e :: es) s t → out s e = out' t e ∧ rel es (step s e) (step' t e))
    (h : rel es s t) : outputs step out s es = outputs step' out' t es := by
  have hseen := seen_eq_outputs_filter (p := fun _ => true) rel
    (fun e es s t hrel _ => hstep e es s t hrel) (fun _ _ _ _ _ hp => by simp at hp) h
  rw [seen_true] at hseen
  simpa using hseen

/-- **Deletion rule**: where a relation, which may look at the events to come, makes the
events of a kind answer alike and is kept by them in both runs and by the others in the
first alone, deleting the others deletes their answers and changes no other. -/
theorem outputs_kept {p : σ → ε → Bool} {q : ω → Bool} (hq : ∀ s e, q (out s e) = p s e)
    (rel : List ε → σ → σ → Prop)
    (hstep : ∀ e es s t, rel (e :: es) s t → p s e = true →
      out s e = out t e ∧ rel es (step s e) (step t e))
    (hskip : ∀ e es s t, rel (e :: es) s t → p s e = false → rel es (step s e) t)
    {s t : σ} (h : rel es s t) :
    outputs step out t (kept step p s es) = (outputs step out s es).filter q := by
  induction es generalizing s t with
  | nil => rfl
  | cons e es ih =>
      have hout := hq s e
      cases hp : p s e with
      | true =>
          obtain ⟨hsame, hrel⟩ := hstep e es s t h hp
          rw [hp] at hout
          simp [kept, outputs, hp, hout, ← hsame, ih hrel]
      | false =>
          rw [hp] at hout
          simp [kept, outputs, hp, hout, ih (hskip e es s t h hp)]

end Outputs

/-- **Refinement rule**: a machine whose states and events stand for those of
another answers what that one answers. -/
theorem outputs_map {ε' : Type} {step : σ → ε → σ} {out : σ → ε → ω} {step' : τ → ε' → τ}
    {out' : τ → ε' → ω} (f : σ → τ) (g : ε → ε') (hstep : ∀ s e, f (step s e) = step' (f s) (g e))
    (hout : ∀ s e, out s e = out' (f s) (g e)) (s : σ) (es : List ε) :
    outputs step out s es = outputs step' out' (f s) (es.map g) := by
  induction es generalizing s with
  | nil => rfl
  | cons e es ih => rw [List.map_cons, outputs, outputs, hout, ih, hstep]

/-- **Simulation rule**: two machines in related states that answer alike and
stay related on every step meeting `C` answer alike along the whole run. -/
theorem outputs_eq_of_simulation {step : σ → ε → σ} {out : σ → ε → ω} {step' : τ → ε → τ}
    {out' : τ → ε → ω} {C : σ → ε → Prop} (rel : σ → τ → Prop)
    (hstep : ∀ s t e, rel s t → C s e → out s e = out' t e ∧ rel (step s e) (step' t e))
    {s : σ} {t : τ} {es : List ε} (hst : rel s t) (h : Along step C s es) :
    outputs step out s es = outputs step' out' t es := by
  induction es generalizing s t with
  | nil => rfl
  | cons e es ih =>
      obtain ⟨hout, hrel⟩ := hstep s t e hst h.1
      rw [outputs, outputs, hout, ih hrel h.2]

/-- The simulation rule for the last states. -/
theorem reach_of_simulation {step : σ → ε → σ} {step' : τ → ε → τ} {C : σ → ε → Prop} (rel : σ → τ → Prop)
    (hstep : ∀ s t e, rel s t → C s e → rel (step s e) (step' t e)) {s : σ} {t : τ} {es : List ε}
    (hst : rel s t) (h : Along step C s es) : rel (reach step s es) (reach step' t es) := by
  induction es generalizing s t with
  | nil => exact hst
  | cons e es ih => exact ih (hstep s t e hst h.1) h.2

/-- **Stuttering simulation rule**: where every step of a machine that meets `C` is matched
by some steps of another, so is every run. -/
theorem exists_reach_of_simulation {ε' : Type} {step : σ → ε → σ} {step' : τ → ε' → τ}
    {C : σ → ε → Prop} (rel : σ → τ → Prop)
    (hstep : ∀ s t e, rel s t → C s e → ∃ es', rel (step s e) (reach step' t es')) {s : σ} {t : τ}
    {es : List ε} (hst : rel s t) (h : Along step C s es) :
    ∃ es', rel (reach step s es) (reach step' t es') := by
  induction es generalizing s t with
  | nil => exact ⟨[], hst⟩
  | cons e es ih =>
      obtain ⟨first, hfirst⟩ := hstep s t e hst h.1
      obtain ⟨others, hothers⟩ := ih hfirst h.2
      exact ⟨first ++ others, by simpa [reach] using hothers⟩

/-! ## steps that may fail -/

section Partial

variable {step? : σ → ε → Option σ} {step : σ → ε → σ} {s : σ} {es es' : List ε}

/-- The state a run ends in when no step of it fails. -/
def reach? (step? : σ → ε → Option σ) (s : σ) (es : List ε) : Option σ := es.foldlM step? s

@[simp] theorem reach?_nil : reach? step? s [] = some s := rfl

@[simp] theorem reach?_cons (e : ε) :
    reach? step? s (e :: es) = (step? s e).bind (fun s' => reach? step? s' es) := rfl

theorem reach?_append :
    reach? step? s (es ++ es') = (reach? step? s es).bind (fun s' => reach? step? s' es') :=
  List.foldlM_append

/-- **No-failure rule**: where a condition, which may look at the events to come, lets a
step succeed as one that cannot fail and is kept by it, the whole run does. -/
theorem reach?_eq_some (P : List ε → σ → Prop)
    (hstep : ∀ e es s, P (e :: es) s → step? s e = some (step s e) ∧ P es (step s e)) (hs : P es s) :
    reach? step? s es = some (reach step s es) := by
  induction es generalizing s with
  | nil => rfl
  | cons e es ih =>
      obtain ⟨hsome, hnext⟩ := hstep e es s hs
      rw [reach?_cons, hsome, Option.bind_some, ih hnext, reach_cons]

end Partial

end Run
