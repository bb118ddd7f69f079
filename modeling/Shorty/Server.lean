import Shorty.Lib.Proc
import Shorty.Repository
import Shorty.Cache

/-!
# Shorty.Server

The state the handlers of both transports share, the calls they make on it, and
the monad they are written in.  A handler is a program over single calls, so the
same definition is executed at once (`Handler.run`) or a call at a time among
others (`Proc.step`).
-/

namespace Shorty

/-- The shared state: the repository, the statistics storage of the statistics
endpoints, and the cache. -/
structure AppState (R : Type) where
  repo : R
  statsStorage : StatsStorage
  cache : Cache

/-- A call of a handler on the shared state. -/
inductive Call where
  | insert (now : SystemTime) (link : ShortLink)
  | get (code : String)
  | update (now : SystemTime) (code targetUrl : String) (version : Int64)
  | remove (code : String)
  | recordHit (now : SystemTime) (code : String)
  | stats (code : String)
  | list (now : SystemTime) (limit : Nat) (cursor : Option (String × String))
  | cacheGet (key : String)
  | cacheSet (key : String) (value : LinkResponse)
  | cacheInvalidate (key : String)
  | window (code : String)
  | top (limit : Nat)

namespace Call

/-- What a call answers. -/
def Resp : Call → Type
  | insert _ _ => Except RepoError Unit
  | get _ => Except RepoError ShortLink
  | update _ _ _ _ => Except RepoError ShortLink
  | remove _ => Except RepoError Unit
  | recordHit _ _ => Except RepoError Nat
  | stats _ => Except RepoError LinkStats
  | list _ _ _ => Option (Except RepoError ListPage)
  | cacheGet _ => Option LinkResponse
  | cacheSet _ _ => Unit
  | cacheInvalidate _ => Unit
  | window _ => Option SlidingWindowStats
  | top _ => List (String × Nat)

end Call

namespace AppState

variable {R : Type} [LinkRepository R]

/-- The state with another repository, paired with an answer. -/
def withRepo {α : Type} (s : AppState R) (out : α × R) : α × AppState R :=
  (out.1, { s with repo := out.2 })

/-- One call, answered. -/
def exec : (c : Call) → AppState R → c.Resp × AppState R
  | .insert now link, s => s.withRepo (LinkRepository.insert now link s.repo)
  | .get code, s => s.withRepo (LinkRepository.get code s.repo)
  | .update now code targetUrl version, s =>
      s.withRepo (LinkRepository.update now code targetUrl version s.repo)
  | .remove code, s => s.withRepo (LinkRepository.remove code s.repo)
  | .recordHit now code, s => s.withRepo (LinkRepository.recordHit now code s.repo)
  | .stats code, s => s.withRepo (LinkRepository.stats code s.repo)
  | .list now limit cursor, s => s.withRepo (LinkRepository.list now limit cursor s.repo)
  | .cacheGet key, s => ((s.cache.get key).1, { s with cache := (s.cache.get key).2 })
  | .cacheSet key value, s => ((), { s with cache := s.cache.set key value })
  | .cacheInvalidate key, s => ((), { s with cache := s.cache.invalidate key })
  | .window code, s => (s.statsStorage.get code, s)
  | .top limit, s => (s.statsStorage.getTop limit, s)

/-! ## calls on a lawful repository -/

variable [LawfulLinkRepository R] {s : AppState R} {code : String} {l : LinkStats}

open LawfulLinkRepository (find missing refusal taken)

theorem exec_get (s : AppState R) (code : String) :
    exec (.get code) s =
      ((Store.lookup (missing R code) (find s.repo code)).map LinkStats.link, s) := by
  rw [exec, LawfulLinkRepository.get_eq]
  rfl

theorem exec_stats (s : AppState R) (code : String) :
    exec (.stats code) s = (Store.lookup (missing R code) (find s.repo code), s) := by
  rw [exec, LawfulLinkRepository.stats_eq]
  rfl

theorem exec_get_of_find (h : find s.repo code = some l) : exec (.get code) s = (.ok l.link, s) := by
  rw [exec_get, h]
  rfl

theorem exec_get_of_absent (h : find s.repo code = none) :
    exec (.get code) s = (.error (missing R code), s) := by
  rw [exec_get, h]
  rfl

theorem exec_stats_of_find (h : find s.repo code = some l) : exec (.stats code) s = (.ok l, s) := by
  rw [exec_stats, h]
  rfl

theorem exec_stats_of_absent (h : find s.repo code = none) :
    exec (.stats code) s = (.error (missing R code), s) := by
  rw [exec_stats, h]
  rfl

theorem exec_insert_free (now : SystemTime) {link : ShortLink} (hr : refusal R link = none)
    (h : find s.repo link.code = none) :
    exec (.insert now link) s = (.ok (), { s with repo := inserted s.repo now link }) :=
  Prod.ext (LawfulLinkRepository.insert_free hr h).1 rfl

theorem exec_insert_taken (now : SystemTime) {link : ShortLink} (hr : refusal R link = none)
    (h : find s.repo link.code = some l) :
    exec (.insert now link) s = (.error (taken R link.code), s) := by
  rw [exec, LawfulLinkRepository.insert_taken hr h]
  rfl

theorem exec_insert_refused (now : SystemTime) {link : ShortLink} {e : RepoError}
    (hr : refusal R link = some e) : exec (.insert now link) s = (.error e, s) := by
  rw [exec, LawfulLinkRepository.insert_refused hr]
  rfl

theorem exec_remove_of_find (h : find s.repo code = some l) :
    exec (.remove code) s = (.ok (), { s with repo := (LinkRepository.remove code s.repo).2 }) :=
  Prod.ext (LawfulLinkRepository.remove_found h).1 rfl

theorem exec_remove_of_absent (h : find s.repo code = none) :
    exec (.remove code) s = (.error (missing R code), s) := by
  rw [exec, LawfulLinkRepository.remove_missing h]
  rfl

theorem exec_recordHit_of_find (now : SystemTime) (h : find s.repo code = some l) :
    exec (.recordHit now code) s =
      (.ok (l.hits + 1), { s with repo := (LinkRepository.recordHit now code s.repo).2 }) :=
  Prod.ext (LawfulLinkRepository.recordHit_found h).1 rfl

/-- An update fails and changes nothing, or changes the link it found. -/
theorem exec_update_cases (now : SystemTime) (code url : String) (v : Int64) (s : AppState R) :
    (∃ e, exec (.update now code url v) s = (.error e, s)) ∨
    ∃ l, find s.repo code = some l ∧
      (exec (.update now code url v) s).1 =
        .ok (l.link.updated (LawfulLinkRepository.stamp R now) url) ∧
      find (exec (.update now code url v) s).2.repo = (find s.repo).put code
        { l with link := l.link.updated (LawfulLinkRepository.stamp R now) url } := by
  rcases LawfulLinkRepository.update_cases now code url v s.repo with ⟨e, he⟩ | hchanged
  · exact Or.inl ⟨e, by rw [exec, he]; rfl⟩
  · exact Or.inr hchanged

end AppState

/-! ## handlers -/

/-- How a handler ends without a result: with an error it answers, or with a
panic, which the client sees as a closed connection. -/
inductive Failure (ε : Type) where
  | error (e : ε)
  | panicked
deriving DecidableEq

/-- A handler whose errors are of type `ε`. -/
abbrev Handler (ε : Type) := ExceptT (Failure ε) (Proc Call.Resp)

namespace Handler

variable {ε ε' α β : Type}

/-- Make a call. -/
def ask (c : Call) : Handler ε c.Resp := ExceptT.lift (Proc.request c)

/-- Answer an error. -/
def fail (e : ε) : Handler ε α := throw (.error e)

/-- Go on with a result, or answer the error it is (`?`). -/
def ofExcept (f : ε' → ε) : Except ε' α → Handler ε α
  | .ok a => pure a
  | .error e => fail (f e)

/-- Go on with a result, or panic. -/
def orPanic : Option α → Handler ε α
  | some a => pure a
  | none => throw .panicked

section Run

variable {R : Type} [LinkRepository R]

/-- Execute a handler with nothing in between. -/
def run (h : Handler ε α) (s : AppState R) : Except (Failure ε) α × AppState R :=
  Proc.run AppState.exec (ExceptT.run h) s

@[simp] theorem run_pure (a : α) (s : AppState R) :
    run (pure a : Handler ε α) s = (.ok a, s) := rfl

@[simp] theorem run_throw (e : Failure ε) (s : AppState R) :
    run (throw e : Handler ε α) s = (.error e, s) := rfl

@[simp] theorem run_fail (e : ε) (s : AppState R) :
    run (fail e : Handler ε α) s = (.error (.error e), s) := rfl

@[simp] theorem run_ask (c : Call) (s : AppState R) :
    run (ask c : Handler ε c.Resp) s = (.ok (AppState.exec c s).1, (AppState.exec c s).2) := rfl

@[simp] theorem run_ofExcept_ok (f : ε' → ε) (a : α) (s : AppState R) :
    run (ofExcept f (.ok a)) s = (.ok a, s) := rfl

@[simp] theorem run_ofExcept_error (f : ε' → ε) (e : ε') (s : AppState R) :
    run (ofExcept f (.error e) : Handler ε α) s = (.error (.error (f e)), s) := rfl

@[simp] theorem run_orPanic_some (a : α) (s : AppState R) :
    run (orPanic (some a) : Handler ε α) s = (.ok a, s) := rfl

@[simp] theorem run_orPanic_none (s : AppState R) :
    run (orPanic none : Handler ε α) s = (.error .panicked, s) := rfl

/-- Sequencing goes on where the first handler succeeds and ends where it does
not. -/
theorem run_bind (h : Handler ε α) (f : α → Handler ε β) (s : AppState R) :
    run (h >>= f) s = match run h s with
      | (.ok a, s') => run (f a) s'
      | (.error e, s') => (.error e, s') := by
  have hbind : ExceptT.run (h >>= f) =
      (ExceptT.run h >>= fun out => ExceptT.run (match out with
        | .ok a => f a
        | .error e => throw e)) := by
    rw [ExceptT.run_bind]
    congr 1
    funext out
    cases out <;> rfl
  rw [run, hbind, Proc.run_bind, run]
  cases hrun : Proc.run AppState.exec (ExceptT.run h) s with
  | mk out s' => cases out <;> rfl

/-- A call and what comes after it. -/
@[simp] theorem run_ask_bind (c : Call) (f : c.Resp → Handler ε β) (s : AppState R) :
    run (ask c >>= f) s = run (f (AppState.exec c s).1) (AppState.exec c s).2 := by
  rw [run_bind, run_ask]

@[simp] theorem run_pure_bind (a : α) (f : α → Handler ε β) (s : AppState R) :
    run (pure a >>= f) s = run (f a) s := by
  rw [run_bind, run_pure]

@[simp] theorem run_fail_bind (e : ε) (f : α → Handler ε β) (s : AppState R) :
    run (fail e >>= f) s = (.error (.error e), s) := by
  rw [run_bind, run_fail]

@[simp] theorem run_ofExcept_ok_bind (g : ε' → ε) (a : α) (f : α → Handler ε β)
    (s : AppState R) : run (ofExcept g (.ok a) >>= f) s = run (f a) s := by
  rw [run_bind, run_ofExcept_ok]

@[simp] theorem run_ofExcept_error_bind (g : ε' → ε) (e : ε') (f : α → Handler ε β)
    (s : AppState R) : run (ofExcept g (.error e) >>= f) s = (.error (.error (g e)), s) := by
  rw [run_bind, run_ofExcept_error]

@[simp] theorem run_orPanic_some_bind (a : α) (f : α → Handler ε β) (s : AppState R) :
    run (orPanic (some a) >>= f) s = run (f a) s := by
  rw [run_bind, run_orPanic_some]

@[simp] theorem run_orPanic_none_bind (f : α → Handler ε β) (s : AppState R) :
    run (orPanic none >>= f) s = (.error .panicked, s) := by
  rw [run_bind, run_orPanic_none]

/-- **Frame rule**: what every call keeps, a handler keeps. -/
theorem run_invariant {P : AppState R → Prop} (hcall : ∀ c s, P s → P (AppState.exec c s).2)
    (h : Handler ε α) {s : AppState R} (hs : P s) : P (run h s).2 :=
  Proc.run_invariant hcall _ s hs

end Run

/-! ## handlers that make only some calls -/

/-- Every call a handler can make is one of `P`. -/
def Only (P : Call → Prop) (h : Handler ε α) : Prop := Proc.Only P (ExceptT.run h)

section Only

variable {P : Call → Prop}

theorem only_pure (a : α) : Only P (pure a : Handler ε α) := .done _

theorem only_fail (e : ε) : Only P (fail e : Handler ε α) := .done _

theorem only_ofExcept (f : ε' → ε) (x : Except ε' α) : Only P (ofExcept f x) := by
  cases x <;> exact .done _

theorem only_orPanic (x : Option α) : Only P (orPanic x : Handler ε α) := by
  cases x <;> exact .done _

theorem only_ask {c : Call} (h : P c) : Only P (ask c : Handler ε c.Resp) :=
  Proc.only_bind (Proc.only_request h) (fun _ => .done _)

theorem only_bind {h : Handler ε α} {f : α → Handler ε β} (hh : Only P h)
    (hf : ∀ a, Only P (f a)) : Only P (h >>= f) := by
  rw [Only, ExceptT.run_bind]
  apply Proc.only_bind hh
  intro out
  cases out with
  | ok a => exact hf a
  | error e => exact .done _

end Only

/-! ## what a handler returns -/

/-- Whatever its calls are answered, the results of a handler are of `Q`. -/
def Returns (Q : α → Prop) (h : Handler ε α) : Prop :=
  Proc.Returns (fun out => ∀ a, out = .ok a → Q a) (ExceptT.run h)

section Returns

variable {Q : α → Prop} {Q' : β → Prop}

theorem returns_pure {a : α} (h : Q a) : Returns Q (pure a : Handler ε α) :=
  .done (fun _ ha => Except.ok.inj ha ▸ h)

theorem returns_throw (failure : Failure ε) : Returns Q (throw failure : Handler ε α) :=
  .done (fun _ ha => by cases ha)

theorem returns_bind (h : Handler ε α) {f : α → Handler ε β} (hf : ∀ a, Returns Q' (f a)) :
    Returns Q' (h >>= f) := by
  rw [Returns, ExceptT.run_bind]
  refine Proc.returns_bind _ (fun out => ?_)
  cases out with
  | ok a => exact hf a
  | error failure => exact returns_throw failure

theorem Returns.bind {h : Handler ε α} {f : α → Handler ε β} (hh : Returns Q h)
    (hf : ∀ a, Q a → Returns Q' (f a)) : Returns Q' (h >>= f) := by
  rw [Returns, ExceptT.run_bind]
  refine Proc.Returns.bind hh (fun out hout => ?_)
  cases out with
  | ok a => exact hf a (hout a rfl)
  | error failure => exact returns_throw failure

end Returns

/-! ## handlers answered alike -/

/-- Two handlers end alike: with one failure, or with results that are alike. -/
inductive Ends (Q : α → β → Prop) : Except (Failure ε) α → Except (Failure ε) β → Prop where
  | ok {a : α} {b : β} (h : Q a b) : Ends Q (.ok a) (.ok b)
  | error (failure : Failure ε) : Ends Q (.error failure) (.error failure)

/-- Two handlers that make the same calls, all of `P`, as long as they are answered alike,
and end alike. -/
def Twin (P : Call → Prop) (alike : (c : Call) → c.Resp → c.Resp → Prop) (Q : α → β → Prop)
    (h : Handler ε α) (g : Handler ε β) : Prop :=
  Proc.Twin P alike (Ends Q) (ExceptT.run h) (ExceptT.run g)

section Twin

variable {P : Call → Prop} {alike : (c : Call) → c.Resp → c.Resp → Prop} {Q : α → β → Prop}

theorem twin_pure {a : α} {b : β} (h : Q a b) : Twin P alike Q (pure a : Handler ε α) (pure b) :=
  .done (.ok h)

theorem twin_throw (failure : Failure ε) : Twin P alike Q (throw failure : Handler ε α) (throw failure) :=
  .done (.error failure)

theorem twin_ask {c : Call} (h : P c) : Twin P alike (alike c) (ask c : Handler ε c.Resp) (ask c) :=
  (Proc.twin_request h).bind (fun _ _ hr => .done (.ok hr))

/-- The results of a handler that answers at once are its own. -/
theorem twin_ofExcept (f : ε' → ε) (x : Except ε' α) : Twin P alike Eq (ofExcept f x) (ofExcept f x) := by
  cases x with
  | ok a => exact .done (.ok rfl)
  | error e => exact .done (.error _)

theorem Twin.bind {γ δ : Type} {Q' : γ → δ → Prop} {h : Handler ε α} {g : Handler ε β}
    {f : α → Handler ε γ} {f' : β → Handler ε δ} (hg : Twin P alike Q h g)
    (hf : ∀ a b, Q a b → Twin P alike Q' (f a) (f' b)) : Twin P alike Q' (h >>= f) (g >>= f') := by
  rw [Twin, ExceptT.run_bind, ExceptT.run_bind]
  refine Proc.Twin.bind hg (fun out out' hout => ?_)
  cases hout with
  | ok hab => exact hf _ _ hab
  | error failure => exact .done (.error failure)

end Twin

end Handler

end Shorty
