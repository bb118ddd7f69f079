import Shorty.Lib.Run
import Shorty.Api.Spec

/-!
# Shorty.Service.Interleaved

Requests on one code, interleaved at the calls they make.  A `World` is the shared
state with the requests in progress, each a program with some calls still to
make; an event starts a request or executes the next call of one.

Time is counted in events, and every event ends a moment: `past` keeps the link
of the code at each moment that ended.  The moments at which a request started,
read, wrote and finished are recorded beside its program and change nothing.
-/

namespace Shorty

namespace Interleaved

open LawfulLinkRepository (find)

/-- A request on the code. -/
inductive CodeRequest where
  | getLink
  | updateLink (now : SystemTime) (req : UpdateLinkRequest)
  | deleteLink
  | redirect (now : SystemTime)

/-- What is left to do of a request. -/
abbrev Program := Proc Call.Resp (Except (Failure AppError) Response)

/-- The handler of a request, as a program. -/
def program (crates : Crates) (code : String) : CodeRequest → Program
  | .getLink => ExceptT.run (Api.getLink code)
  | .updateLink now req => ExceptT.run (Api.updateLink crates now code req)
  | .deleteLink => ExceptT.run (Api.deleteLink code)
  | .redirect now => ExceptT.run (Api.redirect now code)

/-- A request in progress. -/
structure Thread where
  req : CodeRequest
  prog : Program
  startedAt : Nat
  /-- The moment `stats` was answered in. -/
  readAt : Option Nat
  /-- The moment a successful update or delete ended. -/
  wroteAt : Option Nat
  finishedAt : Option Nat

structure World (R : Type) where
  past : List (Option LinkStats)
  app : AppState R
  threads : List Thread

inductive Event where
  | start (req : CodeRequest)
  | advance (i : Nat)

/-- The call reads the link as `get_link` shows it. -/
def reads : Call → Bool
  | .stats _ => true
  | _ => false

/-- The call was an update or a delete, and succeeded. -/
def writes : (c : Call) → c.Resp → Bool
  | .update _ _ _ _ => fun (out : Except RepoError ShortLink) => out.isOk
  | .remove _ => fun (out : Except RepoError Unit) => out.isOk
  | _ => fun _ => false

namespace Thread

/-- A request that starts. -/
def start (now : Nat) (req : CodeRequest) (prog : Program) : Thread where
  req := req
  prog := prog
  startedAt := now
  readAt := none
  wroteAt := none
  finishedAt := prog.result?.map (fun _ => now)

variable {R : Type} [LinkRepository R]

/-- Execute the next call of a request. -/
def advance (now : Nat) (t : Thread) (s : AppState R) : Thread × AppState R :=
  match t.prog with
  | .done _ => (t, s)
  | .call c k =>
      let out := AppState.exec c s
      ({ t with
          prog := k out.1
          readAt := if reads c then some now else t.readAt
          wroteAt := if writes c out.1 then some now else t.wroteAt
          finishedAt := (k out.1).result?.map (fun _ => now) }, out.2)

/-- The recording aside, advancing a request is a step of its program. -/
theorem advance_eq_step (now : Nat) (t : Thread) (s : AppState R) :
    ((t.advance now s).1.prog, (t.advance now s).2) = Proc.step AppState.exec t.prog s := by
  cases h : t.prog <;> simp only [advance, h, Proc.step]

/-- The moment ended by the write of a finished request. -/
def written (t : Thread) : Option Nat := t.finishedAt.bind (fun _ => t.wroteAt)

/-- The moment a request that is about to cache a response read it in. -/
def filling (t : Thread) : Option Nat :=
  match t.prog with
  | .call (.cacheSet _ _) _ => t.readAt
  | _ => none

/-- One request finished before the other started. -/
def Before (u t : Thread) : Prop := ∃ f, u.finishedAt = some f ∧ f < t.startedAt

end Thread

section Machine

variable {R : Type} [LinkRepository R] [LawfulLinkRepository R]

/-- The link of the code at every moment, the current one last. -/
def World.moments (code : String) (w : World R) : List (Option LinkStats) :=
  w.past ++ [find w.app.repo code]

/-- The world after an event. -/
def step (crates : Crates) (code : String) (w : World R) : Event → World R
  | .start req =>
      { w with
        past := w.moments code
        threads := w.threads ++ [.start w.past.length req (program crates code req)] }
  | .advance i =>
      match w.threads[i]? with
      | none => { w with past := w.moments code }
      | some t =>
          let out := t.advance w.past.length w.app
          { past := w.moments code, app := out.2, threads := w.threads.set i out.1 }

/-- No request is in progress. -/
def World.opening (s : AppState R) : World R := ⟨[], s, []⟩

/-- A response is cached only if no write that has finished came after the read
it shows. -/
def FillsCurrent (w : World R) : Event → Prop
  | .start _ => True
  | .advance i => ∀ t ∈ w.threads[i]?, ∀ r ∈ t.filling, ∀ u ∈ w.threads, ∀ m ∈ u.written, m < r

instance (w : World R) : DecidablePred (FillsCurrent w)
  | .start _ => .isTrue trivial
  | .advance i => inferInstanceAs (Decidable
      (∀ t ∈ w.threads[i]?, ∀ r ∈ t.filling, ∀ u ∈ w.threads, ∀ m ∈ u.written, m < r))

end Machine

/-! ## the link from moment to moment -/

/-- The second can be the link of the code after the first, with no create and at most
`n` updates in between. -/
def Ages (n : Nat) : Option LinkStats → Option LinkStats → Prop
  | some l, some l' => ∃ k ≤ n, l'.link.version = l.link.version + Int64.ofNat k
  | none, some _ => False
  | _, none => True

theorem ages_of_version {n : Nat} {l l' : LinkStats} (h : l'.link.version = l.link.version) :
    Ages n (some l) (some l') := ⟨0, Nat.zero_le n, h.trans (Int64.add_zero _).symm⟩

theorem ages_refl (n : Nat) (x : Option LinkStats) : Ages n x x := by
  cases x with
  | none => trivial
  | some l => exact ages_of_version rfl

theorem ages_trans {m n : Nat} {x y z : Option LinkStats} (hxy : Ages m x y) (hyz : Ages n y z) :
    Ages (m + n) x z := by
  cases z with
  | none => cases x <;> trivial
  | some l'' =>
      cases y with
      | none => exact absurd hyz id
      | some l' =>
          cases x with
          | none => exact absurd hxy id
          | some l =>
              obtain ⟨j, hj, hxy⟩ := hxy
              obtain ⟨k, hk, hyz⟩ := hyz
              exact ⟨j + k, Nat.add_le_add hj hk, by rw [hyz, hxy, Int64.ofNat_add, Int64.add_assoc]⟩

/-- The link moment after moment, with one update at most from each to the next. -/
def Aging (moments : List (Option LinkStats)) : Prop :=
  ∀ i j, i ≤ j → ∀ x y, moments[i]? = some x → moments[j]? = some y → Ages (j - i) x y

theorem aging_singleton (x : Option LinkStats) : Aging [x] := by
  intro i j hij y z hy hz
  obtain ⟨hj, rfl⟩ := List.getElem?_eq_some_iff.mp hz
  have hj0 : j = 0 := by simpa using hj
  obtain rfl : i = j := by omega
  cases Option.some.inj (hy.symm.trans hz)
  exact ages_refl _ _

/-- One more moment. -/
theorem Aging.concat {past : List (Option LinkStats)} {x y : Option LinkStats} (h : Aging (past ++ [x]))
    (hxy : Ages 1 x y) : Aging (past ++ [x] ++ [y]) := by
  intro i j hij a b ha hb
  have hlast : (past ++ [x])[past.length]? = some x := List.getElem?_concat_length
  have hj : j ≤ past.length + 1 := by
    have hlt := (List.getElem?_eq_some_iff.mp hb).1
    simp only [List.length_append, List.length_singleton] at hlt
    omega
  obtain hold | rfl := Nat.lt_or_eq_of_le hj
  · rw [List.getElem?_append_left (by simp; omega)] at ha hb
    exact h i j hij a b ha hb
  · have hb' : b = y := by simpa using hb.symm
    subst hb'
    obtain hbefore | rfl := Nat.lt_or_eq_of_le hij
    · rw [List.getElem?_append_left (by simp; omega)] at ha
      have hages := ages_trans (h i past.length (by omega) a x ha hlast) hxy
      rwa [← Nat.sub_add_comm (by omega)] at hages
    · cases Option.some.inj (ha.symm.trans hb)
      exact ages_refl _ _

/-- What a successful write of a request makes of the link. -/
def Changed : CodeRequest → Option LinkStats → Option LinkStats → Prop
  | .updateLink _ _, some l, some l' => l'.link.version = l.link.version + 1
  | .deleteLink, some _, none => True
  | _, _, _ => False

/-! ## the programs of the requests -/

/-- The calls of a request on the repository. -/
def OnLink (code : String) : CodeRequest → Call → Prop
  | _, .get _ => True
  | .updateLink _ _, .update _ code' _ _ => code' = code
  | .deleteLink, .remove code' => code' = code
  | .redirect _, .recordHit _ code' => code' = code
  | _, _ => False

/-- A program that calls the repository on the code and, once it has written,
finishes by invalidating the key and in no other way. -/
inductive Orderly (code : String) (req : CodeRequest) : Bool → Program → Prop where
  | done (out : Except (Failure AppError) Response) : Orderly code req false (.done out)
  | invalidate (written : Bool) (out : Except (Failure AppError) Response) :
      Orderly code req written (.call (.cacheInvalidate (linkKey code)) (fun _ => .done out))
  | call (written : Bool) (c : Call) (k : c.Resp → Program) (hc : OnLink code req c)
      (hk : ∀ r, Orderly code req (written || writes c r) (k r)) :
      Orderly code req written (.call c k)

variable (crates : Crates) (code : String)

theorem orderly_updateLink (now : SystemTime) (req : UpdateLinkRequest) :
    Orderly code (.updateLink now req) false (program crates code (.updateLink now req)) := by
  rw [program, Api.updateLink]
  cases parseTargetUrl crates.url req.targetUrl with
  | error e => exact .done _
  | ok url =>
      refine .call _ (.update now code url.asStr req.version) _ rfl ?_
      intro (out : Except RepoError ShortLink)
      cases out with
      | error e => exact .done _
      | ok link => exact .invalidate _ _

theorem orderly_deleteLink :
    Orderly code .deleteLink false (program crates code .deleteLink) := by
  refine .call _ (.remove code) _ rfl ?_
  intro (out : Except RepoError Unit)
  cases out with
  | error e => exact .done _
  | ok u => exact .invalidate _ _

theorem orderly_redirect (now : SystemTime) :
    Orderly code (.redirect now) false (program crates code (.redirect now)) := by
  refine .call _ (.get code) _ trivial ?_
  intro (out : Except RepoError ShortLink)
  cases out with
  | error e => exact .done _
  | ok link =>
      change Orderly code (.redirect now) false (ExceptT.run (ite (link.isExpired now = true) _ _))
      by_cases hexp : link.isExpired now = true
      · rw [if_pos hexp]
        exact .done _
      · rw [if_neg hexp]
        refine .call _ (.recordHit now code) _ rfl ?_
        intro (out : Except RepoError Nat)
        cases out with
        | error e => exact .done _
        | ok n => exact .invalidate _ _

/-- What `get_link` answers when the link is this one. -/
def shows (missing : RepoError) : Option LinkStats → Except (Failure AppError) Response
  | some l => .ok (.ok (.link (.ofLinkStats l)))
  | none => .error (.error (.ofRepoError missing))

/-- `get_link` once it has read a link. -/
def fill (code : String) (l : LinkStats) : Program :=
  .call (.cacheSet (linkKey code) (.ofLinkStats l))
    (fun _ => .done (.ok (.ok (.link (.ofLinkStats l)))))

/-- `get_link` once it has missed the cache. -/
def lookup (code : String) : Program :=
  .call (.stats code) (fun (out : Except RepoError LinkStats) =>
    match out with
    | .ok l => fill code l
    | .error e => .done (.error (.error (.ofRepoError e))))

theorem program_getLink : program crates code .getLink =
    .call (.cacheGet (linkKey code)) (fun (out : Option LinkResponse) =>
      match out with
      | some cached => .done (.ok (.ok (.link cached)))
      | none => lookup code) := by
  refine congrArg (Proc.call (Call.cacheGet (linkKey code))) (funext ?_)
  intro (out : Option LinkResponse)
  cases out with
  | some cached => rfl
  | none =>
      refine congrArg (Proc.call (Call.stats code)) (funext ?_)
      intro (out : Except RepoError LinkStats)
      cases out <;> rfl

end Interleaved

end Shorty
