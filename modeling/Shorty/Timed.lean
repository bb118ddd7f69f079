import Shorty.Lib.Pool
import Shorty.Cache.Redis
import Shorty.Api.Calls
import Shorty.Grpc.Server

/-!
# Shorty.Timed

The service with a clock: requests of both transports, interleaved at their calls on the
repository and on the Redis cache, while time passes.

`TimeoutLayer` (`lib.rs`) drops the program of an HTTP request that has run for
`request_timeout`: what it has done stays done, and it makes no more calls.  gRPC calls
have no such layer.
-/

namespace Shorty

namespace Timed

open LawfulLinkRepository (find)

/-- The shared state, with the Redis cache and the time in milliseconds. -/
structure State (R : Type) where
  repo : R
  statsStorage : StatsStorage
  cache : RedisCache
  nowMs : Nat

/-- A request of either transport, past authentication. -/
inductive Request (config : Config) where
  | http (arrival : Api.Arrival config)
  | grpc (now : SystemTime) (rpc : Grpc.Rpc)

/-- When a request arrives. -/
def Request.now {config : Config} : Request config → SystemTime
  | .http a => a.now
  | .grpc now _ => now

inductive Answer where
  | http (response : Option Response)
  | grpc (out : Except (Failure Grpc.Status) Grpc.Reply)

/-- What happens besides the requests: time passes, the cleaner ticks, and Redis evicts. -/
inductive Event where
  | pass (ms : Nat)
  | purge (now : SystemTime)
  | evict (key : String)

/-- What a server is run with. -/
structure Deployment where
  json : SerdeJson
  crates : Crates
  requestTimeoutMs : Nat

/-- What is done for a request, a call at a time. -/
def program {config : Config} (crates : Crates) : Request config → Proc Call.Resp Answer
  | .http a => Answer.http <$> Api.program crates a
  | .grpc now rpc => Answer.grpc <$> ExceptT.run (Grpc.method now rpc)

/-! ## which calls a request can make -/

/-- The calls of the gRPC service, which does not use the cache. -/
def OfGrpc : Call → Prop
  | .insert _ _ | .stats _ | .list _ _ _ => True
  | _ => False

/-- The calls a request can make. -/
def Makes {config : Config} : Request config → Call → Prop
  | .http a, c => Api.Makes a.req c
  | .grpc _ _, c => OfGrpc c

section Only

open Handler

variable (now : SystemTime) {P : Call → Prop}

theorem only_linkEvent (hstats : ∀ code, P (.stats code)) (code : String) :
    Only P (Grpc.linkEvent now code) := by
  refine only_bind (only_ask (hstats code)) (fun (out : Except RepoError LinkStats) => ?_)
  cases out <;> exact only_pure _

/-- A method reads links and lists, and one of them inserts. -/
theorem only_method (hstats : ∀ code, P (.stats code))
    (hlist : ∀ limit cursor, P (.list now limit cursor)) (rpc : Grpc.Rpc)
    (hinsert : ∀ generated req, rpc = .createLink generated req → ∀ link, P (.insert now link)) :
    Only P (Grpc.method now rpc) := by
  cases rpc with
  | getLink req =>
      refine only_bind ?_ (fun _ => only_pure _)
      refine only_bind (only_ask (hstats req.code)) (fun _ => ?_)
      exact only_bind (only_ofExcept _ _) (fun _ => only_pure _)
  | createLink generated req =>
      refine only_bind ?_ (fun _ => only_pure _)
      unfold Grpc.createLink
      split
      · exact only_fail _
      · refine only_bind (only_ask (hinsert generated req rfl _)) (fun _ => ?_)
        refine only_bind (only_ofExcept _ _) (fun _ => ?_)
        refine only_bind (only_ask (hstats _)) (fun _ => ?_)
        exact only_bind (only_ofExcept _ _) (fun _ => only_pure _)
  | listLinks req =>
      refine only_bind ?_ (fun _ => only_pure _)
      refine only_bind (only_ask (hlist _ _)) (fun _ => ?_)
      refine only_bind (only_orPanic _) (fun _ => ?_)
      exact only_bind (only_ofExcept _ _) (fun _ => only_pure _)
  | streamLinks =>
      refine only_bind ?_ (fun _ => only_pure _)
      refine only_bind (only_linkEvent now hstats _) (fun _ => ?_)
      exact only_bind (only_linkEvent now hstats _) (fun _ => only_pure _)

theorem only_program {config : Config} (crates : Crates) (q : Request config) :
    Proc.Only (Makes q) (program crates q) := by
  cases q with
  | http a => exact Proc.only_map (Api.only_program crates a)
  | grpc now rpc =>
      exact Proc.only_map
        (only_method (P := OfGrpc) now (fun _ => trivial) (fun _ _ => trivial) rpc (fun _ _ _ _ => trivial))

end Only

namespace State

variable {R : Type} [LinkRepository R]

/-- The state without its cache. -/
def uncached (s : State R) : AppState R := ⟨s.repo, s.statsStorage, .disabled⟩

/-- One call, answered. -/
def exec (json : SerdeJson) : (c : Call) → State R → c.Resp × State R
  | .cacheGet key, s =>
      let out := s.cache.get json s.nowMs key
      (out.1, { s with cache := out.2 })
  | .cacheSet key value, s => ((), { s with cache := s.cache.set json s.nowMs key value })
  | .cacheInvalidate key, s => ((), { s with cache := s.cache.invalidate key })
  | c, s =>
      let out := AppState.exec c s.uncached
      (out.1, { s with repo := out.2.repo, statsStorage := out.2.statsStorage })

def elapse : Event → State R → State R
  | .pass ms, s => { s with nowMs := s.nowMs + ms }
  | .purge now, s => { s with repo := (LinkRepository.purgeExpired now s.repo).2 }
  | .evict key, s => { s with cache := s.cache.evict key }

/-! ## what a call does -/

variable {json : SerdeJson} {s : State R}

/-- The value under a key, whether or not its time is over. -/
def value? (s : State R) (key : String) : Option RedisValue :=
  s.cache.conn.bind (fun r => r.values.get? key)

@[simp] theorem nowMs_exec (c : Call) : (exec json c s).2.nowMs = s.nowMs := by
  cases c <;> rfl

theorem nowMs_le_elapse (e : Event) : s.nowMs ≤ (elapse e s).nowMs := by
  cases e with
  | pass ms => exact Nat.le_add_right _ _
  | purge now => exact Nat.le_refl _
  | evict key => exact Nat.le_refl _

@[simp] theorem config_exec (c : Call) : (exec json c s).2.cache.config = s.cache.config := by
  cases c with
  | cacheGet key =>
      simp only [exec, RedisCache.get]
      split
      · rfl
      · split <;> rfl
  | cacheSet key value =>
      simp only [exec, RedisCache.set]
      split
      · rfl
      · split <;> rfl
  | _ => rfl

@[simp] theorem config_elapse (e : Event) : (elapse e s).cache.config = s.cache.config := by
  cases e <;> rfl

/-- A value is there because it was there before, or because this call stored it. -/
theorem value?_exec {c : Call} {key : String} {v : RedisValue}
    (h : (exec json c s).2.value? key = some v) : s.value? key = some v ∨
      ∃ value ttlSecs, c = .cacheSet key value ∧ json.toString value = some v.raw ∧
        v.lastMs = s.nowMs + ttlSecs * 1000 ∧ ttlSecs ≤ s.cache.config.maxTtlSecs := by
  cases c with
  | cacheGet key' =>
      refine Or.inl ?_
      simp only [exec, RedisCache.get, value?] at h ⊢
      cases hc : s.cache.conn with
      | none =>
          rw [hc] at h
          simp at h
      | some r =>
          rw [hc] at h
          simp only at h
          split at h <;> exact h
  | cacheSet key' value =>
      simp only [exec, RedisCache.set, value?] at h ⊢
      cases hc : s.cache.conn with
      | none =>
          rw [hc] at h
          simp [hc] at h
      | some r =>
          rw [hc] at h
          simp only at h
          cases hraw : json.toString value with
          | none =>
              rw [hraw] at h
              simp only [hc, Option.bind_some] at h
              exact Or.inl h
          | some raw =>
              rw [hraw] at h
              simp only [Option.bind_some, RedisServer.setEx, RedisServer.answered] at h
              split at h
              · exact Or.inl h
              · rw [Table.get?_set] at h
                split at h
                · rename_i hkey
                  cases h
                  exact Or.inr ⟨value, _, by rw [hkey], hraw, rfl, s.cache.nextTtl_le r⟩
                · exact Or.inl h
  | cacheInvalidate key' =>
      refine Or.inl ?_
      simp only [exec, RedisCache.invalidate, value?] at h ⊢
      cases hc : s.cache.conn with
      | none =>
          rw [hc] at h
          cases h
      | some r =>
          rw [hc] at h
          simp only [Option.map_some, Option.bind_some, RedisServer.del, RedisServer.answered] at h
          split at h
          · exact h
          · rw [Table.get?_erase] at h
            split at h
            · cases h
            · exact h
  | _ => exact Or.inl h

theorem value?_elapse {e : Event} {key : String} {v : RedisValue}
    (h : (elapse e s).value? key = some v) : s.value? key = some v := by
  cases e with
  | pass ms => exact h
  | purge now => exact h
  | evict key' =>
      simp only [elapse, RedisCache.evict, value?] at h ⊢
      cases hc : s.cache.conn with
      | none =>
          rw [hc] at h
          cases h
      | some r =>
          rw [hc] at h
          simp only [Option.map_some, Option.bind_some, RedisServer.evict, Table.get?_erase] at h
          split at h
          · cases h
          · exact h

/-- A hit is read back from a value whose time is not over. -/
theorem value?_of_cacheGet {key : String} {value : LinkResponse}
    (h : (exec json (.cacheGet key) s).1 = some value) :
    ∃ v, s.value? key = some v ∧ s.nowMs ≤ v.lastMs ∧ json.fromStr v.raw = some value := by
  simp only [exec, RedisCache.get] at h
  cases hc : s.cache.conn with
  | none =>
      rw [hc] at h
      cases h
  | some r =>
      rw [hc] at h
      simp only at h
      split at h
      · rename_i found hfound
        cases h
        obtain ⟨raw, hraw, hvalue⟩ := Option.bind_eq_some_iff.mp hfound
        split at hraw
        · cases hraw
        · obtain ⟨v, hv, rfl⟩ := Option.map_eq_some_iff.mp hraw
          obtain ⟨hget, hlive⟩ := Option.filter_eq_some_iff.mp hv
          refine ⟨v, ?_, of_decide_eq_true hlive, hvalue⟩
          rw [value?, hc]
          exact hget
      · cases h

end State

section Machine

variable {config : Config} {R : Type} [LinkRepository R] (d : Deployment)

/-- The clients of the service. -/
abbrev Clients (config : Config) (R : Type) := Pool (Request config) Call.Resp Answer (State R)

abbrev ClientTask (config : Config) (R : Type) :=
  Pool.Task (Request config) Call.Resp Answer (State R)

/-- Whether `TimeoutLayer` has dropped a request. -/
def Dropped (p : Clients config R) (t : ClientTask config R) : Prop :=
  match t.request with
  | .http _ => (p.stateAt t.startedAt).nowMs + d.requestTimeoutMs < p.state.nowMs
  | .grpc _ _ => False

instance (p : Clients config R) (t : ClientTask config R) : Decidable (Dropped d p t) := by
  unfold Dropped
  split <;> infer_instance

/-- One move of the clients, where nothing is dropped. -/
def move : Clients config R → Pool.Move (Request config) Event → Clients config R :=
  Pool.step (State.exec d.json) (program d.crates) State.elapse

/-- One move: a request that has been dropped makes no call. -/
def step (p : Clients config R) : Pool.Move (Request config) Event → Clients config R
  | .advance i =>
      if ∀ t, p.tasks[i]? = some t → ¬ Dropped d p t then move d p (.advance i) else p
  | m => move d p m

end Machine

/-! ## schedules -/

section Schedules

variable {config : Config} {R : Type} [LinkRepository R] {d : Deployment} {p : Clients config R}

abbrev Sound (d : Deployment) (p : Clients config R) : Prop :=
  Pool.Sound (State.exec d.json) (program d.crates) State.elapse p

/-- A move that is not one of the pool is none. -/
theorem step_cases (d : Deployment) (p : Clients config R) (m : Pool.Move (Request config) Event) :
    step d p m = p ∨ step d p m = move d p m ∧
      ∀ i t, m = .advance i → p.tasks[i]? = some t → ¬ Dropped d p t := by
  cases m with
  | start q => exact Or.inr ⟨rfl, fun _ _ h => by cases h⟩
  | env e => exact Or.inr ⟨rfl, fun _ _ h => by cases h⟩
  | advance i =>
      by_cases hlive : ∀ t, p.tasks[i]? = some t → ¬ Dropped d p t
      · refine Or.inr ⟨if_pos hlive, fun j t hj ht => ?_⟩
        cases hj
        exact hlive t ht
      · exact Or.inl (if_neg hlive)

theorem sound_step (h : Sound d p) (m : Pool.Move (Request config) Event) : Sound d (step d p m) := by
  rcases step_cases d p m with hsame | ⟨hmove, _⟩
  · rw [hsame]
    exact h
  · rw [hmove]
    exact h.step m

/-- The calls of an HTTP request are made before its timeout. -/
def InTime (d : Deployment) (p : Clients config R) : Prop :=
  ∀ t ∈ p.tasks, ∀ a, t.request = .http a → ∀ e ∈ t.deeds,
    e.before.nowMs ≤ (p.stateAt t.startedAt).nowMs + d.requestTimeoutMs

theorem inTime_step (hsound : Sound d p) (h : InTime d p) (m : Pool.Move (Request config) Event) :
    InTime d (step d p m) := by
  rcases step_cases d p m with hsame | ⟨hmove, hlive⟩
  · rw [hsame]
    exact h
  · rw [hmove]
    refine Pool.step_rule (P := InTime d) m (fun p' hq => ?_) h ?_
    · intro t ht a ha e he
      rcases hq.tasks t ht with hold | ⟨_, hnil, _⟩
      · rw [Pool.stateAt_of_past hq.past (Nat.le_of_lt (hsound.started t hold))]
        exact h t hold a ha e he
      · simp [hnil] at he
    · intro i t c k hm ht hr t' ht' a ha e he
      have hmem : t ∈ p.tasks := List.mem_of_getElem? ht
      rcases Pool.mem_tasks_called ht' with hold | rfl
      · rw [Pool.stateAt_of_past rfl (Nat.le_of_lt (hsound.started t' hold))]
        exact h t' hold a ha e he
      · rw [Pool.stateAt_of_past rfl (Nat.le_of_lt (hsound.started t hmem))]
        rcases List.mem_append.mp he with hold | hnew
        · exact h t hmem a ha e hold
        · -- the call of this move: its request has not been dropped
          rw [List.mem_singleton.mp hnew]
          have hnot := hlive i t hm ht
          simp only [Dropped, show t.request = .http a from ha] at hnot
          exact Nat.le_of_not_lt hnot

variable (d)

/-- What holds of the service under every schedule. -/
theorem sound_reach (s : State R) (moves : List (Pool.Move (Request config) Event)) :
    Sound d (Run.reach (step d) (Pool.new s) moves) ∧ InTime d (Run.reach (step d) (Pool.new s) moves) := by
  refine Run.invariant (P := fun p => Sound d p ∧ InTime d p)
    (fun _ m h => ⟨sound_step h.1 m, inTime_step h.1 h.2 m⟩) ⟨Pool.sound_new s, ?_⟩ moves
  intro t ht
  cases ht

theorem stateAt_zero_reach (s : State R) (moves : List (Pool.Move (Request config) Event)) :
    (Run.reach (step d) (Pool.new s) moves).stateAt 0 = s := by
  refine Run.invariant (P := fun p : Clients config R => p.stateAt 0 = s) (fun p m h => ?_) rfl moves
  rcases step_cases d p m with hsame | ⟨hmove, _⟩
  · rw [hsame]
    exact h
  · rw [hmove]
    exact (Pool.stateAt_zero_step m).trans h

variable {d}

theorem Sound.makes (h : Sound d p) {t : ClientTask config R} (ht : t ∈ p.tasks)
    {e : Pool.Deed Call (State R)} (he : e ∈ t.deeds) : Makes t.request e.call :=
  (Pool.only_of_follows (h.follows t ht) (only_program d.crates t.request)).2 e he

/-- Time does not go back. -/
theorem Sound.nowMs_le (h : Sound d p) {time time' : Nat} (hle : time ≤ time') :
    (p.stateAt time).nowMs ≤ (p.stateAt time').nowMs :=
  h.rel_stateAt (R := fun s u => s.nowMs ≤ u.nowMs) (fun _ => Nat.le_refl _) Nat.le_trans
    (fun e _ => Nat.le_of_eq (State.nowMs_exec e.call).symm) (fun e _ => State.nowMs_le_elapse e) hle

theorem Sound.config_eq (h : Sound d p) (time : Nat) :
    (p.stateAt time).cache.config = (p.stateAt 0).cache.config :=
  (h.rel_stateAt (R := fun s u => s.cache.config = u.cache.config) (fun _ => rfl) Eq.trans
    (fun e _ => (State.config_exec e.call).symm) (fun e _ => (State.config_elapse e).symm)
    (Nat.zero_le time)).symm

end Schedules

end Timed

end Shorty
