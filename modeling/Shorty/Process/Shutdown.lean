import Shorty.Process
import Shorty.Timed.Dropped

/-!
# Shorty.Process.Shutdown

How a process ends.  `run` waits for the first of the two servers, so it is the quicker one
that has nothing left to do, and what the other is still at is dropped with the runtime.  A
process on which nobody calls gRPC has no time for its HTTP requests at all; and one without
authentication, whose gRPC server panics where it starts, ends by itself.
-/

namespace Shorty

namespace Process

namespace State

variable {config : Config} {R : Type} [LinkRepository R] {b : Boot} {s : State config R}

/-! ## the clients of a process -/

/-- The clients go on as they do in `Shorty.Timed`, or not at all, and a request arrives when
the system clock says so. -/
theorem clients_step (b : Boot) (s : State config R) (e : Event config) :
    (s.step b e).clients = s.clients ∨
      ∃ m, (s.step b e).clients = Timed.step b.deployment s.clients m ∧
        ∀ q, m = .start q → q.now.ns = s.clockNs b := by
  unfold step
  split
  · exact .inl rfl
  · cases e with
    | advance i => exact .inr ⟨.advance i, rfl, fun q h => by cases h⟩
    | pass ms => exact .inr ⟨.env (.pass ms), rfl, fun q h => by cases h⟩
    | evict key => exact .inr ⟨.env (.evict key), rfl, fun q h => by cases h⟩
    | start q =>
        simp only [live]
        split
        · rename_i hstart
          exact .inr ⟨.start q, rfl, fun q' h => by cases h; exact hstart.2⟩
        · exact .inl rfl
    | purged fails =>
        simp only [live]
        split
        · rename_i now _
          cases fails with
          | true => exact .inl rfl
          | false => exact .inr ⟨.env (.purge now), rfl, fun q h => by cases h⟩
        · exact .inl rfl
    | runReturns | exit =>
        simp only [live]
        split
        · split <;> exact .inl rfl
        · exact .inl rfl
    | wake i => exact .inl rfl
    | signal | httpFinishes | grpcBoots | grpcStops | grpcFinishes | tick now | cleanerStops | select | sleep z =>
        simp only [live]
        split <;> exact .inl rfl

/-- **Refinement**: what holds of the clients under every schedule holds of those of a
process. -/
theorem clients_reach (b : Boot) (s : Timed.State R) (es : List (Event config)) :
    ∃ moves, (Run.reach (step b) (boot s) es).clients =
      Run.reach (Timed.step b.deployment) (Pool.new { s with nowMs := 0 }) moves := by
  refine Run.invariant (P := fun p : State config R => ∃ moves, p.clients =
    Run.reach (Timed.step b.deployment) (Pool.new { s with nowMs := 0 }) moves) (fun p e ⟨moves, hmoves⟩ => ?_)
    ⟨[], rfl⟩ es
  obtain hsame | ⟨m, hm, _⟩ := clients_step b p e
  · exact ⟨moves, hsame.trans hmoves⟩
  · refine ⟨moves ++ [m], ?_⟩
    rw [Run.reach_append, ← hmoves]
    exact hm

/-- Time passes where the move says so. -/
theorem nowMs_moved (b : Boot) (s : State config R) (m : Pool.Move (Timed.Request config) Timed.Event)
    (hm : ∀ ms, m ≠ .env (.pass ms)) : (s.moved b m).nowMs = s.nowMs := by
  show (Timed.step b.deployment s.clients m).state.nowMs = s.clients.state.nowMs
  obtain hsame | ⟨hmove, _⟩ := Timed.step_cases b.deployment s.clients m
  · rw [hsame]
  · rw [hmove]
    cases m with
    | start q => rfl
    | env e =>
        cases e with
        | pass ms => exact absurd rfl (hm ms)
        | purge now => rfl
        | evict key => rfl
    | advance i =>
        have hadvance : Timed.move b.deployment s.clients (.advance i) = s.clients ∨
            ∃ u c k, s.clients.tasks[i]? = some u ∧ u.rest = .call c k ∧
              Timed.move b.deployment s.clients (.advance i) =
                s.clients.called (Timed.State.exec b.deployment.json) i u c k := Pool.step_advance s.clients i
        obtain hstay | ⟨u, c, k, _, _, hcalled⟩ := hadvance
        · rw [hstay]
        · rw [hcalled]
          exact Timed.State.nowMs_exec c

theorem nowMs_le_moved (b : Boot) (s : State config R) (m : Pool.Move (Timed.Request config) Timed.Event) :
    s.nowMs ≤ (s.moved b m).nowMs := by
  by_cases hpass : ∃ ms, m = .env (.pass ms)
  · obtain ⟨ms, rfl⟩ := hpass
    exact Nat.le_add_right _ ms
  · exact Nat.le_of_eq (nowMs_moved b s m (fun ms hm => hpass ⟨ms, hm⟩)).symm

/-! ## requests in progress -/

omit [LinkRepository R] in
/-- A request that has been dropped stays so. -/
theorem dropped_of_past {d : Timed.Deployment} {p p' : Timed.Clients config R} {t : Timed.ClientTask config R}
    (hstarted : t.startedAt < p.clock) (hpast : p'.past = p.past ++ [p.state])
    (hle : p.state.nowMs ≤ p'.state.nowMs) (h : Timed.Dropped d p t) : Timed.Dropped d p' t := by
  unfold Timed.Dropped at h ⊢
  cases hq : t.request with
  | http a =>
      simp only [hq] at h ⊢
      rw [Pool.stateAt_of_past hpast (Nat.le_of_lt hstarted)]
      omega
  | grpc now rpc =>
      simp only [hq] at h

omit [LinkRepository R] in
theorem mem_inFlight {ofHttp : Bool} {t : Timed.ClientTask config R} : t ∈ s.inFlight b ofHttp ↔
    t ∈ s.clients.tasks ∧ isHttp t.request = ofHttp ∧ InFlight b s t := by
  simp [inFlight]

/-- No request of a transport is in progress after a move that starts none, if none was
before. -/
theorem inFlight_moved {ofHttp : Bool} (hsound : Timed.Sound b.deployment s.clients)
    (m : Pool.Move (Timed.Request config) Timed.Event) (hm : ∀ q, m = .start q → isHttp q ≠ ofHttp)
    (h : s.inFlight b ofHttp = []) : (s.moved b m).inFlight b ofHttp = [] := by
  have hnone : ∀ t ∈ s.clients.tasks, isHttp t.request = ofHttp → ¬ InFlight b s t := by
    intro t ht hof hin
    have hmem := mem_inFlight.mpr ⟨ht, hof, hin⟩
    simp [h] at hmem
  refine List.eq_nil_iff_forall_not_mem.mpr (fun t ht => ?_)
  obtain ⟨htasks, hof, hrest, hlive⟩ := mem_inFlight.mp ht
  -- a task of before is finished or dropped, and stays so
  have hold : ∀ p' : Timed.Clients config R, p'.past = s.clients.past ++ [s.clients.state] →
      s.clients.state.nowMs ≤ p'.state.nowMs → t ∈ s.clients.tasks → Timed.Dropped b.deployment p' t := by
    intro p' hpast hle hmem
    by_contra hnot
    have hdropped : ¬ Timed.Dropped b.deployment s.clients t := fun hdropped =>
      hnot (dropped_of_past (hsound.started t hmem) hpast hle hdropped)
    exact hnone t hmem hof ⟨hrest, hdropped⟩
  have hmoved : (s.moved b m).clients = Timed.step b.deployment s.clients m := rfl
  rw [hmoved] at htasks hlive
  obtain hsame | ⟨hmove, hnot⟩ := Timed.step_cases b.deployment s.clients m
  · rw [hsame] at htasks hlive
    exact hnone t htasks hof ⟨hrest, hlive⟩
  · rw [hmove] at htasks hlive
    cases m with
    | start q =>
        obtain hmem | hnew := List.mem_append.mp htasks
        · exact hlive (hold _ rfl (Nat.le_refl _) hmem)
        · rw [List.mem_singleton.mp hnew] at hof
          exact hm q rfl hof
    | env e => exact hlive (hold _ rfl (Timed.State.nowMs_le_elapse e) htasks)
    | advance i =>
        have hadvance : Timed.move b.deployment s.clients (.advance i) = s.clients ∨
            ∃ u c k, s.clients.tasks[i]? = some u ∧ u.rest = .call c k ∧
              Timed.move b.deployment s.clients (.advance i) =
                s.clients.called (Timed.State.exec b.deployment.json) i u c k := Pool.step_advance s.clients i
        obtain hstay | ⟨u, c, k, hu, hcall, hcalled⟩ := hadvance
        · rw [hstay] at htasks hlive
          exact hnone t htasks hof ⟨hrest, hlive⟩
        · rw [hcalled] at htasks hlive
          obtain hmem | rfl := Pool.mem_tasks_called htasks
          · exact hlive (hold _ rfl (Nat.le_of_eq (Timed.State.nowMs_exec c).symm) hmem)
          · -- the task of the call was in progress
            exact hnone u (List.mem_of_getElem? hu) hof ⟨by rw [hcall]; rfl, hnot i u rfl hu⟩

omit [LinkRepository R] in
theorem httpIdle_iff : s.httpIdle b = true ↔ s.inFlight b true = [] ∧ s.sleeping b = [] := by
  simp [httpIdle]

omit [LinkRepository R] in
theorem sleeping_eq_nil_iff : s.sleeping b = [] ↔
    ∀ z ∈ s.sleeps, z.isInFlight b.deployment.requestTimeoutMs s.nowMs = false := by
  simp [sleeping]

/-- What is in a list after one element was changed. -/
theorem mem_modify {α : Type} {f : α → α} {i : Nat} {l : List α} {a : α} (h : a ∈ l.modify i f) :
    a ∈ l ∨ ∃ a' ∈ l, a = f a' := by
  obtain ⟨n, hn⟩ := List.mem_iff_getElem?.mp h
  rw [List.getElem?_modify, Option.map_eq_map, Option.map_eq_some_iff] at hn
  obtain ⟨a', ha', rfl⟩ := hn
  have hmem : a' ∈ l := List.mem_of_getElem? ha'
  split
  · exact .inr ⟨a', hmem, rfl⟩
  · exact .inl hmem

/-- Who has been answered is not in progress later. -/
theorem isInFlight_later {timeoutMs nowMs laterMs : Nat} (hle : nowMs ≤ laterMs) {z : Sleep}
    (h : z.isInFlight timeoutMs nowMs = false) : z.isInFlight timeoutMs laterMs = false := by
  unfold Sleep.isInFlight at h ⊢
  cases hz : z.sleeper with
  | slow =>
      simp only [hz, Bool.and_eq_false_iff, decide_eq_false_iff_not] at h ⊢
      exact h.imp_right (fun hover => by omega)
  | slowBlocking =>
      simp only [hz] at h ⊢
      exact h

theorem isInFlight_wake {timeoutMs nowMs : Nat} {z : Sleep} (h : z.isInFlight timeoutMs nowMs = false) :
    (z.wake nowMs).isInFlight timeoutMs nowMs = false := by
  unfold Sleep.wake
  split
  · obtain ⟨sleeper, sinceMs, wokenAt⟩ := z
    cases sleeper <;> simp [Sleep.isInFlight, Sleep.isOver]
  · exact h

/-! ## what holds on the way -/

/-- How the tasks of a process stand to each other. -/
structure Orderly (b : Boot) (s : State config R) : Prop where
  clients : Timed.Sound b.deployment s.clients
  /-- The HTTP server stops for a signal only. -/
  http : s.http.isAccepting = true ∨ s.cancelledAt.isSome = true
  /-- The gRPC server stops for a signal too, unless it has not started. -/
  grpc : s.grpc = .starting ∨ s.grpc.isAccepting = true ∨ s.cancelledAt.isSome = true ∨ b.grpcStarts = false
  httpDone : s.http.ended?.isSome = true → s.inFlight b true = []
  awake : s.http.ended?.isSome = true → s.sleeping b = []
  grpcDone : s.grpc = .starting ∨ s.grpc.ended?.isSome = true → s.inFlight b false = []
  main : s.main ≠ .selecting → s.http.ended?.isSome = true ∨ s.grpc.ended?.isSome = true

theorem orderly_boot (b : Boot) (s : Timed.State R) : Orderly b (boot s : State config R) where
  clients := Pool.sound_new _
  http := .inl rfl
  grpc := .inl rfl
  httpDone := by simp [boot, Serving.ended?]
  awake := by simp [boot, sleeping]
  grpcDone := by simp [boot, inFlight, Pool.new]
  main := by simp [boot]

/-- A move of the clients that starts nothing on a server that has ended. -/
theorem Orderly.moved (h : Orderly b s) (m : Pool.Move (Timed.Request config) Timed.Event)
    (hm : ∀ q, m = .start q → (s.server q).isAccepting = true) : Orderly b (s.moved b m) where
  clients := Timed.sound_step h.clients m
  http := h.http
  grpc := h.grpc
  httpDone hended := by
    refine inFlight_moved h.clients m (fun q hq hhttp => ?_) (h.httpDone hended)
    have haccepting := hm q hq
    rw [server, if_pos hhttp] at haccepting
    have hended' : s.http.ended?.isSome = true := hended
    cases hserving : s.http <;> simp [hserving, Serving.isAccepting, Serving.ended?] at haccepting hended'
  awake hended := sleeping_eq_nil_iff.mpr (fun z hz =>
    isInFlight_later (nowMs_le_moved b s m) (sleeping_eq_nil_iff.mp (h.awake hended) z hz))
  grpcDone hended := by
    refine inFlight_moved h.clients m (fun q hq hgrpc => ?_) (h.grpcDone hended)
    have haccepting := hm q hq
    rw [server, hgrpc, if_neg Bool.false_ne_true] at haccepting
    have hended' : s.grpc = .starting ∨ s.grpc.ended?.isSome = true := hended
    cases hserving : s.grpc <;> simp [hserving, Serving.isAccepting, Serving.ended?] at haccepting hended'
  main := h.main

theorem Orderly.step (h : Orderly b s) (e : Event config) : Orderly b (s.step b e) := by
  unfold State.step
  split
  · exact h
  · cases e with
    | advance i => exact h.moved _ (fun q hq => by cases hq)
    | pass ms => exact h.moved _ (fun q hq => by cases hq)
    | evict key => exact h.moved _ (fun q hq => by cases hq)
    | start q =>
        simp only [live]
        split
        · rename_i hstart
          exact h.moved _ (fun q' hq => by cases hq; exact hstart.1)
        · exact h
    | purged fails =>
        simp only [live]
        split
        · rename_i now _
          cases fails with
          | true => exact ⟨h.clients, h.http, h.grpc, h.httpDone, h.awake, h.grpcDone, h.main⟩
          | false =>
              have hmoved : Orderly b (s.moved b (.env (.purge now))) := h.moved _ (fun q hq => by cases hq)
              exact ⟨hmoved.clients, hmoved.http, hmoved.grpc, hmoved.httpDone, hmoved.awake, hmoved.grpcDone,
                hmoved.main⟩
        · exact h
    | sleep z =>
        simp only [live]
        split
        · rename_i hserving
          refine ⟨h.clients, h.http, h.grpc, h.httpDone, fun hended => ?_, h.grpcDone, h.main⟩
          have hended' : s.http.ended?.isSome = true := hended
          cases hhttp : s.http <;>
            simp [hhttp, Serving.isAccepting, Serving.isDraining, Serving.ended?] at hserving hended'
        · exact h
    | wake i =>
        refine ⟨h.clients, h.http, h.grpc, h.httpDone, fun hended => ?_, h.grpcDone, h.main⟩
        have hawake := sleeping_eq_nil_iff.mp (h.awake hended)
        refine sleeping_eq_nil_iff.mpr (fun z hz => ?_)
        obtain hmem | ⟨y, hy, rfl⟩ := mem_modify hz
        · exact hawake z hmem
        · exact isInFlight_wake (hawake y hy)
    | signal =>
        simp only [live]
        split
        · rename_i haccepting
          refine ⟨h.clients, .inr rfl, .inr (.inr (.inl rfl)), fun hended => ?_, fun hended => ?_, h.grpcDone,
            fun hmain => ?_⟩
          · simp [Serving.ended?] at hended
          · simp [Serving.ended?] at hended
          · obtain hended | hended := h.main hmain
            · cases hserving : s.http <;> simp [hserving, Serving.isAccepting, Serving.ended?] at haccepting hended
            · exact .inr hended
        · exact h
    | httpFinishes =>
        simp only [live]
        split
        · rename_i hdone
          have hsignalled : s.cancelledAt.isSome = true := by
            obtain haccepting | hsignalled := h.http
            · obtain ⟨hdraining, _⟩ := hdone
              cases hserving : s.http <;>
                simp [hserving, Serving.isAccepting, Serving.isDraining] at haccepting hdraining
            · exact hsignalled
          obtain ⟨hidle, hawake⟩ := httpIdle_iff.mp hdone.2
          exact ⟨h.clients, .inr hsignalled, h.grpc, fun _ => hidle, fun _ => hawake, h.grpcDone, fun _ => .inl rfl⟩
        · exact h
    | grpcBoots =>
        simp only [live]
        split
        · rename_i hstarting
          cases hstarts : b.grpcStarts with
          | true =>
              refine ⟨h.clients, h.http, .inr (.inl rfl), h.httpDone, h.awake, fun hended => ?_, fun hmain => ?_⟩
              · simp [Serving.ended?] at hended
              · obtain hended | hended := h.main hmain
                · exact .inl hended
                · simp [hstarting, Serving.ended?] at hended
          | false =>
              exact ⟨h.clients, h.http, .inr (.inr (.inr hstarts)), h.httpDone, h.awake,
                fun _ => h.grpcDone (.inl hstarting), fun _ => .inr rfl⟩
        · exact h
    | grpcStops =>
        simp only [live]
        split
        · rename_i hstops
          refine ⟨h.clients, h.http, .inr (.inr (.inl hstops.2)), h.httpDone, h.awake, fun hended => ?_,
            fun hmain => ?_⟩
          · simp [Serving.ended?] at hended
          · obtain hended | hended := h.main hmain
            · exact .inl hended
            · obtain ⟨haccepting, _⟩ := hstops
              cases hserving : s.grpc <;> simp [hserving, Serving.isAccepting, Serving.ended?] at haccepting hended
        · exact h
    | grpcFinishes =>
        simp only [live]
        split
        · rename_i hdone
          have hgrpc : s.cancelledAt.isSome = true ∨ b.grpcStarts = false := by
            obtain ⟨hdraining, _⟩ := hdone
            obtain hstarting | haccepting | hrest := h.grpc
            · simp [hstarting, Serving.isDraining] at hdraining
            · cases hserving : s.grpc <;>
                simp [hserving, Serving.isAccepting, Serving.isDraining] at haccepting hdraining
            · exact hrest
          exact ⟨h.clients, h.http, .inr (.inr hgrpc), h.httpDone, h.awake, fun _ => List.isEmpty_iff.mp hdone.2,
            fun _ => .inr rfl⟩
        · exact h
    | select =>
        simp only [live]
        split
        · rename_i hselect
          exact ⟨h.clients, h.http, h.grpc, h.httpDone, h.awake, h.grpcDone, fun _ => hselect.2⟩
        · exact h
    | runReturns | exit =>
        simp only [live]
        split
        · rename_i hmain
          split
          · exact ⟨h.clients, h.http, h.grpc, h.httpDone, h.awake, h.grpcDone, fun _ => h.main (by simp [hmain])⟩
          · exact h
        · exact h
    | tick now | cleanerStops =>
        simp only [live]
        split
        · exact ⟨h.clients, h.http, h.grpc, h.httpDone, h.awake, h.grpcDone, h.main⟩
        · exact h

theorem orderly_reach (b : Boot) (s : Timed.State R) (es : List (Event config)) :
    Orderly b (Run.reach (State.step b) (boot s : State config R) es) :=
  Run.invariant (fun _ e h => h.step e) (orderly_boot b s) es

theorem Orderly.cause (h : Orderly b s) (hmain : s.main ≠ .selecting) :
    s.cancelledAt.isSome = true ∨ b.grpcStarts = false := by
  obtain hended | hended := h.main hmain
  · obtain haccepting | hsignalled := h.http
    · cases hserving : s.http <;> simp [hserving, Serving.isAccepting, Serving.ended?] at haccepting hended
    · exact .inl hsignalled
  · obtain hstarting | haccepting | hrest := h.grpc
    · simp [hstarting, Serving.ended?] at hended
    · cases hserving : s.grpc <;> simp [hserving, Serving.isAccepting, Serving.ended?] at haccepting hended
    · exact hrest

/-- How a process ends. -/
structure Ends [LawfulLinkRepository R] (b : Boot) (s : State config R) : Prop where
  /-- For a signal, or because its gRPC server does not start. -/
  cause : s.main ≠ .selecting → s.cancelledAt.isSome = true ∨ b.grpcStarts = false
  /-- With requests of one transport at most to cut off, those that sleep included. -/
  oneTransport : s.main ≠ .selecting → (s.inFlight b true = [] ∧ s.sleeping b = []) ∨ s.inFlight b false = []
  /-- And what it cuts off has changed the store as a whole or not at all. -/
  allOrNothing : Timed.EachAllOrNothing b.deployment.json s.clients

/-- **Shutdown**: whatever happens to a process, and in whatever order, it is to end so. -/
theorem ends_reach [LawfulLinkRepository R] (b : Boot) (s : Timed.State R) (es : List (Event config)) :
    Ends b (Run.reach (State.step b) (boot s : State config R) es) := by
  have h := orderly_reach b s es
  refine ⟨h.cause, fun hmain => ?_, ?_⟩
  · obtain hended | hended := h.main hmain
    · exact .inl ⟨h.httpDone hended, h.awake hended⟩
    · exact .inr (h.grpcDone (.inr hended))
  · obtain ⟨moves, hmoves⟩ := clients_reach b s es
    rw [hmoves]
    exact Timed.eachAllOrNothing_reach b.deployment _ moves

end State

end Process

end Shorty
