import Shorty.Timed

/-!
# Shorty.Timed.Dropped

What a request leaves behind that `TimeoutLayer` drops, at whatever call it is: all of its
change to the store, or nothing of it.  Every request changes the store by one call at
most; those before have failed, and those after only read the store, or touch the cache.
-/

namespace Shorty

namespace Timed

open LawfulLinkRepository (find)

/-- The calls that do not change the store. -/
def Reads : Call → Prop
  | .insert _ _ | .update _ _ _ _ | .remove _ | .recordHit _ _ => False
  | _ => True

/-- The answers to the others that tell of no change. -/
def Failed : (c : Call) → c.Resp → Prop
  | .insert _ _ => fun (out : Except RepoError Unit) => out.isOk = false
  | .update _ _ _ _ => fun (out : Except RepoError ShortLink) => out.isOk = false
  | .remove _ => fun (out : Except RepoError Unit) => out.isOk = false
  | .recordHit _ _ => fun (out : Except RepoError Nat) => out.isOk = false
  | _ => fun _ => False

/-! ## handlers that change the store once -/

/-- One call at most changes the store. -/
def WritesOnce {ε α : Type} (h : Handler ε α) : Prop := Proc.Once Reads Failed (ExceptT.run h)

section Handlers

open Handler

variable {ε α β : Type}

theorem writesOnce_of_only {h : Handler ε α} (hh : Only Reads h) : WritesOnce h := .only _ hh

theorem writesOnce_bind_of_only {h : Handler ε α} {f : α → Handler ε β} (hh : Only Reads h)
    (hf : ∀ a, WritesOnce (f a)) : WritesOnce (h >>= f) := by
  rw [WritesOnce, ExceptT.run_bind]
  refine Proc.once_bind_of_only hh (fun out => ?_)
  cases out with
  | ok a => exact hf a
  | error e => exact .only _ (.done _)

theorem WritesOnce.bind {h : Handler ε α} {f : α → Handler ε β} (hh : WritesOnce h)
    (hf : ∀ a, Only Reads (f a)) : WritesOnce (h >>= f) := by
  rw [WritesOnce, ExceptT.run_bind]
  refine Proc.Once.bind hh (fun out => ?_)
  cases out with
  | ok a => exact hf a
  | error e => exact .done _

/-- A call, and what comes after it if it fails and if it does not. -/
theorem writesOnce_ask_bind {c : Call} {f : c.Resp → Handler ε β}
    (hfail : ∀ r, Failed c r → WritesOnce (f r)) (hdone : ∀ r, ¬ Failed c r → Only Reads (f r)) :
    WritesOnce (ask c >>= f) := .decide c _ hfail hdone

/-- A call that is only read off afterwards. -/
theorem writesOnce_ask_bind_only {c : Call} {f : c.Resp → Handler ε β} (h : ∀ r, Only Reads (f r)) :
    WritesOnce (ask c >>= f) :=
  writesOnce_ask_bind (fun r _ => writesOnce_of_only (h r)) (fun r _ => h r)

variable {config : Config} (crates : Crates) (now : SystemTime)

theorem writesOnce_tryCodes (url : String) (expiresAt : Option SystemTime) (codes : List String) :
    WritesOnce (Api.tryCodes config now url expiresAt codes) := by
  induction codes with
  | nil => exact writesOnce_of_only (only_fail _)
  | cons code codes ih =>
      rw [Api.tryCodes, Api.tryInsertLink_eq]
      refine writesOnce_ask_bind (fun (out : Except RepoError Unit) hfailed => ?_)
        (fun (out : Except RepoError Unit) hdone => ?_)
      · cases out with
        | ok u => exact writesOnce_of_only (only_pure _)
        | error e =>
            cases e with
            | codeTaken message => exact ih
            | _ => exact writesOnce_of_only (only_fail _)
      · cases out with
        | ok u => exact only_pure _
        | error e => exact absurd rfl hdone

theorem writesOnce_storeLink (draw : Nat → Nanoid config.codeLength) (customCode : Option String)
    (url : String) (expiresAt : Option SystemTime) :
    WritesOnce (Api.storeLink config now draw customCode url expiresAt) := by
  cases customCode with
  | none => exact writesOnce_tryCodes now url expiresAt _
  | some code =>
      have hinsert : WritesOnce (Api.insertLink now url expiresAt code) := by
        rw [Api.insertLink, Api.tryInsertLink_eq]
        exact writesOnce_ask_bind_only (fun out => Api.only_ofRepo out)
      exact hinsert.bind (fun _ => only_pure _)

theorem writesOnce_handle (req : Api.Request config) : WritesOnce (Api.handle crates now req) := by
  have hread : (∀ c, Api.Makes req c → Reads c) → WritesOnce (Api.handle crates now req) := fun h =>
    writesOnce_of_only ((Api.only_handle crates now req).mono h)
  cases req with
  | createLink draw req =>
      rw [Api.handle, Api.createLink_eq]
      cases Api.validateCreate crates now req with
      | error failure => exact .only _ (.done _)
      | ok checked =>
          refine (writesOnce_storeLink now draw _ _ _).bind (fun code => ?_)
          exact only_bind (only_ask (c := .stats code) trivial)
            (fun _ => only_bind (Api.only_ofRepo _) (fun _ => only_pure _))
  | updateLink code req =>
      refine writesOnce_bind_of_only (only_ofExcept _ _) (fun url => ?_)
      refine writesOnce_ask_bind_only (fun out => ?_)
      refine only_bind (Api.only_ofRepo out) (fun link => ?_)
      exact only_bind (only_ask (c := .cacheInvalidate _) trivial) (fun _ => only_pure _)
  | deleteLink code =>
      refine writesOnce_ask_bind_only (fun out => ?_)
      refine only_bind (Api.only_ofRepo out) (fun _ => ?_)
      exact only_bind (only_ask (c := .cacheInvalidate _) trivial) (fun _ => only_pure _)
  | redirect code =>
      refine writesOnce_bind_of_only (only_ask (c := .get code) trivial) (fun answer => ?_)
      refine writesOnce_bind_of_only (Api.only_ofRepo answer) (fun link => ?_)
      split
      · exact writesOnce_of_only (only_fail _)
      · refine writesOnce_ask_bind_only (fun hits => ?_)
        refine only_bind (Api.only_ofRepo hits) (fun _ => ?_)
        exact only_bind (only_ask (c := .cacheInvalidate _) trivial) (fun _ => only_pure _)
  | _ =>
      refine hread (fun c hc => ?_)
      cases hc <;> trivial

theorem writesOnce_method (rpc : Grpc.Rpc) : WritesOnce (Grpc.method now rpc) := by
  by_cases hcreate : ∃ generated req, rpc = .createLink generated req
  · obtain ⟨generated, req, rfl⟩ := hcreate
    have honce : WritesOnce (Grpc.createLink now generated req) := by
      unfold Grpc.createLink
      split
      · exact writesOnce_of_only (only_fail _)
      · refine writesOnce_ask_bind_only (fun out => ?_)
        refine only_bind (only_ofExcept _ out) (fun _ => ?_)
        refine only_bind (only_ask (c := .stats _) trivial) (fun stats => ?_)
        exact only_bind (only_ofExcept _ stats) (fun _ => only_pure _)
    exact honce.bind (fun _ => only_pure _)
  · refine writesOnce_of_only (only_method now (fun _ => trivial) (fun _ _ => trivial) rpc ?_)
    intro generated req h
    exact absurd ⟨generated, req, h⟩ hcreate

theorem once_program (q : Request config) : Proc.Once Reads Failed (program crates q) := by
  cases q with
  | http a => exact (writesOnce_handle crates a.now a.req).map.map
  | grpc now rpc => exact (writesOnce_method now rpc).map

end Handlers

/-! ## what is left behind -/

variable {config : Config} {R : Type} [LinkRepository R] [LawfulLinkRepository R]

/-- A call changed the store. -/
def Changes (json : SerdeJson) (e : Pool.Deed Call (State R)) : Prop :=
  find (State.exec json e.call e.before).2.repo ≠ find e.before.repo

/-- A request has not changed the store, or one of its calls has, and nothing is left to do
that could. -/
def AllOrNothing (json : SerdeJson) (t : ClientTask config R) : Prop :=
  (∀ e ∈ t.deeds, ¬ Changes json e) ∨
    ∃ e ∈ t.deeds, (∀ e' ∈ t.deeds, e' ≠ e → ¬ Changes json e') ∧ Proc.Only Reads t.rest

def EachAllOrNothing (json : SerdeJson) (p : Clients config R) : Prop :=
  ∀ t ∈ p.tasks, AllOrNothing json t

theorem find_of_failed (json : SerdeJson) {c : Call} {s : State R}
    (h : Failed c (State.exec json c s).1) : find (State.exec json c s).2.repo = find s.repo := by
  cases c with
  | insert now link =>
      have hfailed : (LinkRepository.insert now link s.repo).1.isOk = false := h
      show find (LinkRepository.insert now link s.repo).2 = find s.repo
      cases hr : LawfulLinkRepository.refusal R link with
      | some e => rw [LawfulLinkRepository.insert_refused hr]
      | none =>
          cases hfind : find s.repo link.code with
          | some l => rw [LawfulLinkRepository.insert_taken hr hfind]
          | none =>
              rw [(LawfulLinkRepository.insert_free hr hfind).1] at hfailed
              cases hfailed
  | update now code url v =>
      have hfailed : (LinkRepository.update now code url v s.repo).1.isOk = false := h
      show find (LinkRepository.update now code url v s.repo).2 = find s.repo
      rcases LawfulLinkRepository.update_cases now code url v s.repo with ⟨e, he⟩ | ⟨l, _, hok, _⟩
      · rw [he]
      · rw [hok] at hfailed
        cases hfailed
  | remove code =>
      have hfailed : (LinkRepository.remove code s.repo).1.isOk = false := h
      show find (LinkRepository.remove code s.repo).2 = find s.repo
      cases hfind : find s.repo code with
      | none => rw [LawfulLinkRepository.remove_missing hfind]
      | some l =>
          rw [(LawfulLinkRepository.remove_found hfind).1] at hfailed
          cases hfailed
  | recordHit now code =>
      have hfailed : (LinkRepository.recordHit now code s.repo).1.isOk = false := h
      show find (LinkRepository.recordHit now code s.repo).2 = find s.repo
      cases hfind : find s.repo code with
      | none => rw [LawfulLinkRepository.recordHit_missing hfind]
      | some l =>
          rw [(LawfulLinkRepository.recordHit_found hfind).1] at hfailed
          cases hfailed
  | _ => exact absurd h id

theorem find_of_reads (json : SerdeJson) {c : Call} (hc : Reads c) (s : State R) :
    find (State.exec json c s).2.repo = find s.repo := by
  cases c with
  | insert => exact absurd hc id
  | update => exact absurd hc id
  | remove => exact absurd hc id
  | recordHit => exact absurd hc id
  | get code => exact congrArg (fun out => find out.2) (LawfulLinkRepository.get_eq code s.repo)
  | stats code => exact congrArg (fun out => find out.2) (LawfulLinkRepository.stats_eq code s.repo)
  | list now limit cursor =>
      exact congrArg find (LawfulLinkRepository.list_unchanged now limit cursor s.repo)
  | _ => rfl

theorem not_changes_of_idle (json : SerdeJson) {e : Pool.Deed Call (State R)}
    (h : Pool.Idle (State.exec json) Reads Failed e) : ¬ Changes json e := by
  rintro hchanges
  rcases h with hreads | hfailed
  · exact hchanges (find_of_reads json hreads e.before)
  · exact hchanges (find_of_failed json hfailed)

variable {d : Deployment} {p : Clients config R} {t : ClientTask config R}

theorem Sound.allOrNothing (h : Sound d p) (ht : t ∈ p.tasks) : AllOrNothing d.json t := by
  rcases Pool.once_of_follows (h.follows t ht) (once_program d.crates t.request) with
    ⟨hidle, _⟩ | ⟨before, e, after, hdeeds, hidle, hrest⟩
  · exact Or.inl (fun e he => not_changes_of_idle d.json (hidle e he))
  · refine Or.inr ⟨e, by simp [hdeeds], fun e' he' hne => ?_, hrest⟩
    rw [hdeeds] at he'
    have hothers : e' ∈ before ++ after := by simpa [hne] using he'
    exact not_changes_of_idle d.json (hidle e' hothers)

/-- **Atomicity of a dropped request**: under every schedule, wherever a request is when it
is dropped or its client leaves, its change to the store is made as a whole or not at
all. -/
theorem eachAllOrNothing_reach (d : Deployment) (s : State R)
    (moves : List (Pool.Move (Request config) Event)) :
    EachAllOrNothing d.json (Run.reach (step d) (Pool.new s) moves) :=
  fun _ ht => (sound_reach d s moves).1.allOrNothing ht

end Timed

end Shorty
