import Shorty.Cleanup
import Shorty.Router
import Shorty.Timed

/-!
# Shorty.Process

The process (`main.rs`): the HTTP server and the gRPC server, each a task, the cleaner, and
`run` itself, which waits for the first of the servers to end and then, for ten seconds at
most, for the cleaner.

When `run` returns, `main` drops the runtime.  A task that waits is dropped where it is, but
a thread is waited for: one that sleeps for `GET /slow` or `GET /slow-blocking` does so to
the end, and the process with it.  Until all threads are done, those that have not seen the
end of the runtime go on with what they do.

The requests are those of `Shorty.Timed`, and the two that sleep; the process says when one
can still start, and when none can go on.  The system clock is the time since the start, from
where it was then: nobody sets it meanwhile.
-/

namespace Shorty

namespace Process

open Router (slowMs)

/-- `CLEANUP_PERIOD`. -/
def cleanupPeriodMs : Nat := 30000

/-- `SHUTDOWN_TIMEOUT`. -/
def shutdownTimeoutMs : Nat := 10000

/-- What a process is started with. -/
structure Boot where
  deployment : Timed.Deployment
  auth : Option AuthConfig
  /-- Whether the descriptor set of the gRPC server can be read and its address bound. -/
  grpcBinds : Bool
  /-- The system clock at the start, in nanoseconds since the epoch. -/
  bootedNs : Int

/-- Whether `GrpcServer::serve` gets to serve: it panics where there is no configuration of
authentication. -/
def Boot.grpcStarts (b : Boot) : Bool := (Grpc.serve b.auth).isSome && b.grpcBinds

/-- What the task of a server is at. -/
inductive Serving where
  | starting
  | accepting (sinceMs : Nat)
  /-- No new connections; and whether no request was in progress then. -/
  | draining (sinceMs : Nat) (quiet : Bool)
  | finished (atMs : Nat)
  | panicked (atMs : Nat)
deriving DecidableEq

namespace Serving

def isAccepting : Serving → Bool
  | accepting _ => true
  | _ => false

def isDraining : Serving → Bool
  | draining _ _ => true
  | _ => false

/-- Whether the server waits for no request: none was in progress when it stopped accepting. -/
def isQuiet : Serving → Bool
  | draining _ quiet => quiet
  | _ => true

/-- When the task ended. -/
def ended? : Serving → Option Nat
  | finished atMs => some atMs
  | panicked atMs => some atMs
  | _ => none

end Serving

/-! ## the handlers that sleep -/

/-- Who sleeps: `slow` has a thread of `spawn_blocking` do it, `slow_blocking` sleeps on a
worker. -/
inductive Sleeper where
  | slow
  | slowBlocking
deriving DecidableEq

/-- A thread that a handler has put to sleep. -/
structure Sleep where
  sleeper : Sleeper
  sinceMs : Nat
  wokenAt : Option Nat

namespace Sleep

def isOver (z : Sleep) : Bool := z.wokenAt.isSome

/-- Whether the request is still to be answered.  `TimeoutLayer` answers one that waits for
another thread; where the handler sleeps itself, it cannot look at its own clock. -/
def isInFlight (timeoutMs nowMs : Nat) (z : Sleep) : Bool :=
  match z.sleeper with
  | .slow => !z.isOver && decide (nowMs ≤ z.sinceMs + timeoutMs)
  | .slowBlocking => !z.isOver

/-- The thread wakes up, if its time is over. -/
def wake (nowMs : Nat) (z : Sleep) : Sleep :=
  if z.wokenAt = none ∧ z.sinceMs + slowMs ≤ nowMs then { z with wokenAt := some nowMs } else z

end Sleep

/-- What `main` is at: in `run` at `select!` on the servers or at `tracker.wait()`, dropping
the runtime, or past its end. -/
inductive Main where
  | selecting
  | waiting (sinceMs : Nat)
  | dropping (returnedMs : Nat)
  | exited (returnedMs atMs : Nat)
deriving DecidableEq

/-- When `run` returned. -/
def Main.returned? : Main → Option Nat
  | dropping returnedMs => some returnedMs
  | exited returnedMs _ => some returnedMs
  | _ => none

/-- The state of a process. -/
structure State (config : Config) (R : Type) where
  clients : Timed.Clients config R
  /-- When the shutdown token was cancelled. -/
  cancelledAt : Option Nat
  http : Serving
  grpc : Serving
  cleaner : Cleaner
  /-- How many purges in a row have failed. -/
  failedPurges : Nat
  sleeps : List Sleep
  main : Main

/-- What can happen. -/
inductive Event (config : Config) where
  | start (q : Timed.Request config)
  | advance (i : Nat)
  | pass (ms : Nat)
  | evict (key : String)
  /-- Ctrl+C or SIGTERM. -/
  | signal
  | httpFinishes
  | grpcBoots
  /-- The gRPC server sees the cancelled token. -/
  | grpcStops
  | grpcFinishes
  /-- The cleaner takes a tick, is done with its purge, or takes the cancellation. -/
  | tick (now : SystemTime)
  | purged (fails : Bool)
  | cleanerStops
  /-- A handler begins to sleep, and a thread wakes up. -/
  | sleep (z : Sleeper)
  | wake (i : Nat)
  /-- `run` leaves `select!`, and returns; and the runtime has been dropped. -/
  | select
  | runReturns
  | exit

variable {config : Config} {R : Type}

/-- Whether a request is one of the HTTP API. -/
def isHttp : Timed.Request config → Bool
  | .http _ => true
  | .grpc _ _ => false

namespace State

variable [LinkRepository R]

def nowMs (s : State config R) : Nat := s.clients.state.nowMs

/-- The system clock, in nanoseconds since the epoch. -/
def clockNs (b : Boot) (s : State config R) : Int := b.bootedNs + s.nowMs * 10 ^ 6

/-- A process that starts on a store.  Its time is counted from here. -/
def boot (s : Timed.State R) : State config R where
  clients := Pool.new { s with nowMs := 0 }
  cancelledAt := none
  http := .accepting 0
  grpc := .starting
  cleaner := .spawn cleanupPeriodMs 0
  failedPurges := 0
  sleeps := []
  main := .selecting

/-- The request is neither answered nor dropped. -/
def InFlight (b : Boot) (s : State config R) (t : Timed.ClientTask config R) : Prop :=
  t.rest.result? = none ∧ ¬ Timed.Dropped b.deployment s.clients t

instance (b : Boot) (s : State config R) (t : Timed.ClientTask config R) : Decidable (InFlight b s t) :=
  inferInstanceAs (Decidable (_ ∧ _))

/-- The requests in progress of one transport. -/
def inFlight (b : Boot) (s : State config R) (ofHttp : Bool) : List (Timed.ClientTask config R) :=
  s.clients.tasks.filter (fun t => isHttp t.request = ofHttp ∧ InFlight b s t)

/-- The requests that sleep, and are still to be answered. -/
def sleeping (b : Boot) (s : State config R) : List Sleep :=
  s.sleeps.filter (Sleep.isInFlight b.deployment.requestTimeoutMs s.nowMs)

/-- Whether no HTTP request is in progress. -/
def httpIdle (b : Boot) (s : State config R) : Bool := (s.inFlight b true).isEmpty && (s.sleeping b).isEmpty

/-- The server of a request. -/
def server (s : State config R) (q : Timed.Request config) : Serving :=
  if isHttp q then s.http else s.grpc

/-- A move of the clients. -/
def moved (b : Boot) (s : State config R) (m : Pool.Move (Timed.Request config) Timed.Event) : State config R :=
  { s with clients := Timed.step b.deployment s.clients m }

/-- A purge is over.  Where PostgreSQL answers with an error, it has dropped nothing. -/
def swept (b : Boot) (s : State config R) (now : SystemTime) : Bool → State config R
  | true => { s with failedPurges := s.failedPurges + 1 }
  | false => { s.moved b (.env (.purge now)) with failedPurges := 0 }

/-- One event, in a process that is not over. -/
def live (b : Boot) (s : State config R) : Event config → State config R
  | .start q =>
      if (s.server q).isAccepting ∧ q.now.ns = s.clockNs b then s.moved b (.start q) else s
  | .advance i => s.moved b (.advance i)
  | .pass ms => s.moved b (.env (.pass ms))
  | .evict key => s.moved b (.env (.evict key))
  | .signal =>
      if s.http.isAccepting then
        { s with cancelledAt := some s.nowMs, http := .draining s.nowMs (s.httpIdle b) }
      else s
  | .httpFinishes =>
      if s.http.isDraining ∧ s.httpIdle b then { s with http := .finished s.nowMs } else s
  | .grpcBoots =>
      if s.grpc = .starting then
        { s with grpc := if b.grpcStarts then .accepting s.nowMs else .panicked s.nowMs }
      else s
  | .grpcStops =>
      if s.grpc.isAccepting ∧ s.cancelledAt.isSome then
        { s with grpc := .draining s.nowMs (s.inFlight b false).isEmpty }
      else s
  | .grpcFinishes =>
      if s.grpc.isDraining ∧ (s.inFlight b false).isEmpty then { s with grpc := .finished s.nowMs } else s
  | .tick now => if now.ns = s.clockNs b then { s with cleaner := s.cleaner.tick s.nowMs now } else s
  | .purged fails =>
      match s.cleaner.purging? with
      | some now => { s.swept b now fails with cleaner := s.cleaner.resume s.nowMs }
      | none => s
  | .cleanerStops => if s.cancelledAt.isSome then { s with cleaner := s.cleaner.stop s.nowMs } else s
  -- a handler that is polled late begins to sleep after the server has stopped accepting
  | .sleep z =>
      if s.http.isAccepting ∨ s.http.isDraining then
        { s with sleeps := s.sleeps ++ [⟨z, s.nowMs, none⟩] }
      else s
  | .wake i => { s with sleeps := s.sleeps.modify i (Sleep.wake s.nowMs) }
  | .select =>
      if s.main = .selecting ∧ (s.http.ended?.isSome ∨ s.grpc.ended?.isSome) then
        { s with main := .waiting s.nowMs }
      else s
  | .runReturns =>
      match s.main with
      | .waiting sinceMs =>
          if s.cleaner.exited?.isSome ∨ sinceMs + shutdownTimeoutMs ≤ s.nowMs then
            { s with main := .dropping s.nowMs }
          else s
      | _ => s
  | .exit =>
      match s.main with
      | .dropping returnedMs =>
          if s.sleeps.all Sleep.isOver then { s with main := .exited returnedMs s.nowMs } else s
      | _ => s

/-- One event; nothing happens after the process is over. -/
def step (b : Boot) (s : State config R) (e : Event config) : State config R :=
  match s.main with
  | .exited _ _ => s
  | _ => live b s e

end State

end Process

end Shorty
