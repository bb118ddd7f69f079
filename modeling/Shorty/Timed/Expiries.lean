import Shorty.Postgres.Expiry
import Shorty.Timed.Dropped

/-!
# Shorty.Timed.Expiries

Which expiries get into the store.  Only an insert writes one, and the handlers insert links
that do not expire before their request has arrived (`Stamped`).  What a repository makes of
an expiry is not much earlier (`RecordsExpiry`).
-/

namespace Shorty

open LawfulLinkRepository (find recorded)

/-- A repository that records an expiry, to the second, or else the time of the insert. -/
class RecordsExpiry (R : Type) [LinkRepository R] [LawfulLinkRepository R] : Prop where
  le_recorded : ∀ {now : SystemTime} {link : ShortLink} {e : SystemTime},
    (recorded R now link).expiresAt = some e →
      ∃ t, link.expiresAt = some t ∧ (t.ns ≤ e.ns + 10 ^ 9 ∨ now.ns ≤ e.ns + 10 ^ 9)

instance : RecordsExpiry InMemoryRepo where
  le_recorded {now link e} h := by
    have hsame : link.expiresAt = some e := h
    exact ⟨e, hsame, .inl (by omega)⟩

theorem PostgresRepo.le_expiresColumn (now t : SystemTime) :
    t.ns ≤ (expiresColumn now t).ns + 10 ^ 9 ∨ now.ns ≤ (expiresColumn now t).ns + 10 ^ 9 := by
  cases hts : SystemTime.fromTimestamp t.secsSinceEpoch with
  | some date =>
      rw [ns_expiresColumn_of_some now hts]
      refine .inl ?_
      unfold SystemTime.secsSinceEpoch
      omega
  | none =>
      rw [expiresColumn_of_none hts]
      refine .inr ?_
      show now.ns ≤ now.ns - now.ns % 1000 + 10 ^ 9
      omega

instance {db : Database} : RecordsExpiry (PostgresRepo db) where
  le_recorded {now link e} h := by
    have hcolumn : link.expiresAt.map (PostgresRepo.expiresColumn now) = some e := h
    obtain ⟨t, ht, rfl⟩ := Option.map_eq_some_iff.mp hcolumn
    exact ⟨t, ht, PostgresRepo.le_expiresColumn now t⟩

namespace Timed

/-! ## what is inserted -/

/-- Only HTTP requests insert links that expire, and none that does before its request has
arrived. -/
def Stamped {config : Config} (q : Request config) : Call → Prop
  | .insert now link => ∀ e, link.expiresAt = some e → (∃ a, q = .http a) ∧ now = q.now ∧ q.now ≤ e
  | _ => True

section Handlers

open Handler

variable {config : Config} {q : Request config} {now : SystemTime}

theorem le_of_expiresAtFromTtl {ttl : Option Nat} {expiresAt : Option SystemTime}
    (h : expiresAtFromTtl now ttl = some (.ok expiresAt)) {e : SystemTime} (he : expiresAt = some e) :
    now ≤ e := by
  subst he
  cases ttl with
  | none => simp [expiresAtFromTtl] at h
  | some ttl =>
      by_cases hshort : ttl < 60
      · obtain ⟨message, details, herr⟩ := expiresAtFromTtl_short now hshort
        simp [herr] at h
      · rw [expiresAtFromTtl_long hshort] at h
        obtain ⟨t, ht, hte⟩ := Option.map_eq_some_iff.mp h
        obtain rfl : t = e := by simpa using hte
        unfold SystemTime.addSecs at ht
        split at ht
        · cases ht
          rw [SystemTime.le_iff]
          show now.ns ≤ now.ns + ttl * 10 ^ 9
          omega
        · cases ht

theorem only_stamped_tryCodes {url : String} {expiresAt : Option SystemTime}
    (hcode : ∀ code, Stamped q (.insert now (Api.newLink now url expiresAt code))) (codes : List String) :
    Only (Stamped q) (Api.tryCodes config now url expiresAt codes) := by
  induction codes with
  | nil => exact only_fail _
  | cons code codes ih =>
      rw [Api.tryCodes, Api.tryInsertLink_eq]
      refine only_bind (only_ask (hcode code)) (fun (out : Except RepoError Unit) => ?_)
      cases out with
      | ok u => exact only_pure _
      | error e =>
          cases e with
          | codeTaken message => exact ih
          | _ => exact only_fail _

theorem only_stamped_createLink (crates : Crates) (a : Api.Arrival config)
    (draw : Nat → Nanoid config.codeLength) (req : CreateLinkRequest) :
    Only (Stamped (.http a)) (Api.createLink config crates a.now draw req) := by
  rw [Api.createLink_eq]
  cases hv : Api.validateCreate crates a.now req with
  | error failure => exact .done _
  | ok checked =>
      have hexpiry := (Api.validateCreate_eq_ok_iff.mp hv).2.1
      have hcode : ∀ code, Stamped (.http a)
          (.insert a.now (Api.newLink a.now checked.1.asStr checked.2 code)) :=
        fun code e he => ⟨⟨a, rfl⟩, rfl, le_of_expiresAtFromTtl hexpiry he⟩
      refine only_bind ?_ (fun code => ?_)
      · cases req.customCode with
        | none => exact only_stamped_tryCodes hcode _
        | some code =>
            refine only_bind ?_ (fun _ => only_pure _)
            rw [Api.insertLink, Api.tryInsertLink_eq]
            exact only_bind (only_ask (hcode code)) (fun out => Api.only_ofRepo out)
      · exact only_bind (only_ask (c := .stats code) trivial)
          (fun _ => only_bind (Api.only_ofRepo _) (fun _ => only_pure _))

theorem only_stamped_grpcCreateLink (generated : Grpc.ShortUuid) (req : Grpc.CreateLinkRequest) :
    Only (Stamped q) (Grpc.createLink now generated req) := by
  unfold Grpc.createLink
  split
  · exact only_fail _
  · refine only_bind (only_ask (c := .insert now _) (fun e he => by cases he)) (fun out => ?_)
    refine only_bind (only_ofExcept _ out) (fun _ => ?_)
    refine only_bind (only_ask (c := .stats _) trivial) (fun stats => ?_)
    exact only_bind (only_ofExcept _ stats) (fun _ => only_pure _)

theorem only_stamped_program (crates : Crates) (q : Request config) :
    Proc.Only (Stamped q) (program crates q) := by
  cases q with
  | http a =>
      refine Proc.only_map (Proc.only_map ?_)
      by_cases hcreate : ∃ draw req, a.req = .createLink draw req
      · obtain ⟨draw, req, hreq⟩ := hcreate
        rw [hreq]
        exact only_stamped_createLink crates a draw req
      · refine (Api.only_handle crates a.now a.req).mono (fun c hc => ?_)
        cases c with
        | insert now link =>
            generalize hreq : a.req = r at hc
            cases hc with
            | insert draw req => exact absurd ⟨draw, req, hreq⟩ hcreate
        | _ => trivial
  | grpc now rpc =>
      refine Proc.only_map ?_
      by_cases hcreate : ∃ generated req, rpc = .createLink generated req
      · obtain ⟨generated, req, rfl⟩ := hcreate
        exact only_bind (only_stamped_grpcCreateLink generated req) (fun _ => only_pure _)
      · refine only_method now (fun _ => trivial) (fun _ _ => trivial) rpc (fun generated req h => ?_)
        exact absurd ⟨generated, req, h⟩ hcreate

end Handlers

/-! ## what is stored -/

/-- An expiry that a store holds a link with. -/
def Holds (store : Store) (e : SystemTime) : Prop := ∃ code l, store code = some l ∧ l.link.expiresAt = some e

section Store

variable {store : Store} {e : SystemTime} {code : String} {l l' : LinkStats}

theorem Holds.of_put (h : Holds (store.put code l) e) : Holds store e ∨ l.link.expiresAt = some e := by
  obtain ⟨code', l', hl', he⟩ := h
  by_cases hcode : code' = code
  · subst hcode
    obtain rfl : l = l' := by simpa using hl'
    exact .inr he
  · rw [Store.put_of_ne hcode] at hl'
    exact .inl ⟨code', l', hl', he⟩

/-- A link is replaced by one with its expiry. -/
theorem Holds.of_replaced (h : Holds (store.put code l') e) (hl : store code = some l)
    (he : l'.link.expiresAt = l.link.expiresAt) : Holds store e := by
  obtain hold | hnew := h.of_put
  · exact hold
  · exact ⟨code, l, hl, he ▸ hnew⟩

theorem Holds.of_drop (h : Holds (store.drop code) e) : Holds store e := by
  obtain ⟨code', l', hl', he⟩ := h
  by_cases hcode : code' = code
  · simp [hcode] at hl'
  · rw [Store.drop_of_ne hcode] at hl'
    exact ⟨code', l', hl', he⟩

/-- A purge leaves what expires later. -/
theorem Holds.of_purge {now : SystemTime} (h : Holds (store.purge now) e) : Holds store e ∧ now < e := by
  obtain ⟨code, l, hl, he⟩ := h
  obtain ⟨hstored, hlive⟩ := Option.filter_eq_some_iff.mp (show (store code).filter _ = some l from hl)
  refine ⟨⟨code, l, hstored, he⟩, ?_⟩
  simpa [ShortLink.isExpired, he] using hlive

end Store

variable {R : Type} [LinkRepository R] [LawfulLinkRepository R] {s : State R} {e : SystemTime}

/-- An expiry is in the store because it was there before, or because this call inserted
it. -/
theorem holds_exec (json : SerdeJson) {c : Call} (h : Holds (find (State.exec json c s).2.repo) e) :
    Holds (find s.repo) e ∨ ∃ now link, c = .insert now link ∧ (recorded R now link).expiresAt = some e := by
  by_cases hreads : Reads c
  · rw [find_of_reads json hreads] at h
    exact .inl h
  · cases c with
    | insert now link =>
        have hins : Holds (find (LinkRepository.insert now link s.repo).2) e := h
        cases hr : LawfulLinkRepository.refusal R link with
        | some error =>
            rw [LawfulLinkRepository.insert_refused hr] at hins
            exact .inl hins
        | none =>
            cases hfind : find s.repo link.code with
            | some l =>
                rw [LawfulLinkRepository.insert_taken hr hfind] at hins
                exact .inl hins
            | none =>
                rw [(LawfulLinkRepository.insert_free hr hfind).2] at hins
                obtain hold | hnew := hins.of_put
                · exact .inl hold
                · exact .inr ⟨now, link, rfl, hnew⟩
    | update now code url v =>
        have hupd : Holds (find (LinkRepository.update now code url v s.repo).2) e := h
        obtain ⟨error, herror⟩ | ⟨l, hl, _, hput⟩ := LawfulLinkRepository.update_cases now code url v s.repo
        · rw [herror] at hupd
          exact .inl hupd
        · rw [hput] at hupd
          exact .inl (hupd.of_replaced hl rfl)
    | remove code =>
        have hrem : Holds (find (LinkRepository.remove code s.repo).2) e := h
        cases hfind : find s.repo code with
        | none =>
            rw [LawfulLinkRepository.remove_missing hfind] at hrem
            exact .inl hrem
        | some l =>
            rw [(LawfulLinkRepository.remove_found hfind).2] at hrem
            exact .inl hrem.of_drop
    | recordHit now code =>
        have hhit : Holds (find (LinkRepository.recordHit now code s.repo).2) e := h
        cases hfind : find s.repo code with
        | none =>
            rw [LawfulLinkRepository.recordHit_missing hfind] at hhit
            exact .inl hhit
        | some l =>
            rw [(LawfulLinkRepository.recordHit_found hfind).2] at hhit
            exact .inl (hhit.of_replaced hfind rfl)
    | _ => exact absurd trivial hreads

end Timed

end Shorty
