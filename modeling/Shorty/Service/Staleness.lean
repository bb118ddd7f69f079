import Shorty.Service.Progress

/-!
# Shorty.Service.Staleness

Whether interleaved requests on one code can see the cache.  A writer changes the
repository and then deletes the key; a reader that missed reads the repository
and then sets the key.  Between the two calls of the reader a whole write fits,
and the reader then caches what the writer has just replaced.

That is the only way to an old response: as long as no response is cached that a
finished write came after, every `get_link` answers with the link as it was after
all the writes that had finished when it started.
-/

namespace Shorty

namespace Interleaved

open LawfulLinkRepository (find missing)

variable {crates : Crates} {code : String} {R : Type} [LinkRepository R] [LawfulLinkRepository R]
  {w : World R} {s : AppState R} {u : Thread}

/-! ## what a reader gets -/

/-- A request `u` that finished before `t` started, with the moment its write
ended. -/
structure Precedes (u t : Thread) (m : Nat) : Prop where
  before : u.Before t
  wrote : u.wroteAt = some m

/-- Every `get_link` that is done answers no older than the writes that had
finished when it started. -/
structure Fresh (code : String) (w : World R) : Prop where
  /-- The answer is the link of one moment after all those writes. -/
  current : ∀ g ∈ w.threads, g.req = .getLink → ∀ out, g.prog = .done out →
    ∃ n shown, (w.moments code)[n]? = some shown ∧ out = shows (missing R code) shown ∧
      ∀ u ∈ w.threads, ∀ m, Precedes u g m → m < n
  /-- After an update it is not the link the update found, nor one before it: its version
  has been counted on. -/
  newer : ∀ g ∈ w.threads, g.req = .getLink → ∀ out, g.prog = .done out →
    ∀ u ∈ w.threads, ∀ m now req, Precedes u g m → u.req = .updateLink now req →
      ∃ before, (w.moments code)[m]? = some (some before) ∧
        ∀ l, out = shows (missing R code) (some l) →
          CountedOn w.past.length before.link.version l.link.version
  /-- After a delete it is not a link. -/
  gone : ∀ g ∈ w.threads, g.req = .getLink → ∀ out, g.prog = .done out →
    ∀ u ∈ w.threads, ∀ m, Precedes u g m → u.req = .deleteLink →
      out = shows (missing R code) none

/-- A `get_link` that is done has its answer from a moment it can be asked for. -/
theorem Sound.current (h : Sound code w) {g : Thread} (hg : g ∈ w.threads) (hreq : g.req = .getLink)
    {out : Except (Failure AppError) Response} (hout : g.prog = .done out) :
    ∃ n shown, (w.moments code)[n]? = some shown ∧ out = shows (missing R code) shown ∧
      ∀ u ∈ w.threads, ∀ m, Precedes u g m → m < n := by
  have hcalls : ∀ c k, g.prog ≠ .call c k := by
    intro c k hcall
    rw [hout] at hcall
    cases hcall
  cases h.progress g hg with
  | looking _ hprog => exact absurd (hprog.trans (program_getLink Api.oneUrl code)) (hcalls _ _)
  | missed _ hprog => exact absurd hprog (hcalls _ _)
  | filling l r _ hprog => exact absurd hprog (hcalls _ _)
  | got n shown _ hprog hmoment hlater =>
      refine ⟨n, shown, hmoment, ?_, fun u hu m hm => hlater u hu hm.before m hm.wrote⟩
      exact Proc.done.inj (hout.symm.trans hprog)
  | writing hne => exact absurd hreq hne
  | ended hne => exact absurd hreq hne

/-- The link ages from the moment after a write to any later one. -/
theorem Sound.ages_of_lt (h : Sound code w) {m n : Nat} {after shown : Option LinkStats}
    (hafter : (w.moments code)[m + 1]? = some after) (hshown : (w.moments code)[n]? = some shown)
    (hlt : m < n) : Ages (n - (m + 1)) after shown :=
  h.ages (m + 1) n hlt _ _ hafter hshown

theorem shows_injective {e : RepoError} {x : Option LinkStats} {l : LinkStats}
    (h : shows e x = shows e (some l)) :
    ∃ l', x = some l' ∧ LinkResponse.ofLinkStats l' = LinkResponse.ofLinkStats l := by
  cases x with
  | none => cases h
  | some l' =>
      refine ⟨l', rfl, ?_⟩
      have hresponse : Response.ok (.link (.ofLinkStats l')) = Response.ok (.link (.ofLinkStats l)) :=
        Except.ok.inj h
      exact Body.link.inj (congrArg Response.body hresponse)

theorem Sound.newer (h : Sound code w) {g : Thread} (hg : g ∈ w.threads) (hreq : g.req = .getLink)
    {out : Except (Failure AppError) Response} (hout : g.prog = .done out) (hu : u ∈ w.threads)
    {m : Nat} {now : SystemTime} {req : UpdateLinkRequest} (hm : Precedes u g m)
    (hupdate : u.req = .updateLink now req) : ∃ before, (w.moments code)[m]? = some (some before) ∧
      ∀ l, out = shows (missing R code) (some l) →
        CountedOn w.past.length before.link.version l.link.version := by
  obtain ⟨n, shown, hshown, hanswer, hlater⟩ := h.current hg hreq hout
  obtain ⟨before, after, hbefore, hafter, hchanged⟩ := h.wrote u hu m hm.wrote
  rw [hupdate] at hchanged
  cases before with
  | none => exact absurd hchanged id
  | some old =>
      refine ⟨old, hbefore, fun l hl => ?_⟩
      cases after with
      | none => exact absurd hchanged id
      | some new =>
          obtain ⟨l', rfl, hresponse⟩ := shows_injective (hanswer.symm.trans hl)
          have hversion : l'.link.version = l.link.version := congrArg LinkResponse.version hresponse
          obtain ⟨k, hk, hages⟩ := h.ages_of_lt hafter hshown (hlater u hu m hm)
          have hstep : new.link.version = old.link.version + 1 := hchanged
          have hlt : m < n := hlater u hu m hm
          have hn := (List.getElem?_eq_some_iff.mp hshown).1
          rw [length_moments] at hn
          refine ⟨1 + k, by omega, by omega, ?_⟩
          rw [← hversion, hages, hstep, Int64.ofNat_add, Int64.add_assoc]
          rfl

theorem Sound.gone (h : Sound code w) {g : Thread} (hg : g ∈ w.threads) (hreq : g.req = .getLink)
    {out : Except (Failure AppError) Response} (hout : g.prog = .done out) (hu : u ∈ w.threads)
    {m : Nat} (hm : Precedes u g m) (hdelete : u.req = .deleteLink) :
    out = shows (missing R code) none := by
  obtain ⟨n, shown, hshown, hanswer, hlater⟩ := h.current hg hreq hout
  obtain ⟨before, after, _, hafter, hchanged⟩ := h.wrote u hu m hm.wrote
  rw [hdelete] at hchanged
  have hages := h.ages_of_lt hafter hshown (hlater u hu m hm)
  cases after with
  | some new => cases before <;> exact absurd hchanged id
  | none =>
      cases shown with
      | some l => exact absurd hages id
      | none => exact hanswer

theorem fresh_of_sound (h : Sound code w) : Fresh code w where
  current _ hg hreq _ hout := h.current hg hreq hout
  newer _ hg hreq _ hout _ hu _ _ _ hm hupdate := h.newer hg hreq hout hu hm hupdate
  gone _ hg hreq _ hout _ hu _ hm hdelete := h.gone hg hreq hout hu hm hdelete

/-! ## runs -/

/-- Every `DEL` succeeds, and what is cached under the code is its link. -/
structure Opens (code : String) (s : AppState R) : Prop where
  deletes : s.cache.Deletes
  entry : ∀ v, s.cache.entry (linkKey code) = some v →
    ∃ l, find s.repo code = some l ∧ v = .ofLinkStats l

theorem sound_opening (h : Opens code s) : Sound code (World.opening s) where
  deletes := h.deletes
  entry := by
    intro v hv
    obtain ⟨l, hl, hvalue⟩ := h.entry v hv
    refine ⟨0, l, ?_, hvalue, fun u hu => absurd hu List.not_mem_nil⟩
    exact congrArg some hl
  ages := aging_singleton _
  started _ hu := absurd hu List.not_mem_nil
  wrote _ hu := absurd hu List.not_mem_nil
  ordered _ hu := absurd hu List.not_mem_nil
  progress _ hu := absurd hu List.not_mem_nil

/-- **Freshness**: in a run that never caches what a finished write has replaced,
every `get_link` answers, in every state, no older than the writes that had
finished when it started. -/
theorem throughout_fresh (crates : Crates) (code : String) {s : AppState R} (hs : Opens code s)
    {events : List Event}
    (h : Run.Along (step crates code) FillsCurrent (World.opening s) events) :
    Run.Throughout (step crates code) (Fresh code) (World.opening s) events := by
  have hsound : Run.Throughout (step crates code) (Sound code) (World.opening s) events :=
    Run.throughout_of_step (fun _ e hw hcurrent => sound_step hw e hcurrent) (sound_opening hs) h
  exact hsound.mono (fun _ => fresh_of_sound)

/-- A link is stored, and the cache is empty and never fails. -/
def promoStored : AppState InMemoryRepo where
  repo := (LinkRepository.insert .UNIX_EPOCH
    (.new .UNIX_EPOCH "promo2026" "https://example.com/") InMemoryRepo.new).2
  statsStorage := .new
  cache := .fromManager ⟨fun _ => false, fun _ => false, fun _ => false⟩

theorem opens_promoStored : Opens "promo2026" promoStored where
  deletes := by
    intro f hf n
    cases hf
    rfl
  entry := by
    intro v hv
    cases hv

/-- The update of the link that was stored. -/
def promoUpdate : CodeRequest := .updateLink .UNIX_EPOCH ⟨"https://example.com/", 1⟩

/-- A reader that misses caches the link, and then a writer comes, and another
reader. -/
def fillThenWrite (write : CodeRequest) : List Event := [
  .start .getLink, .advance 0, .advance 0, .advance 0,
  .start write, .advance 1, .advance 1,
  .start .getLink, .advance 2, .advance 2, .advance 2]

/-- The same requests, with the writer between the two calls of the reader. -/
def writeThenFill (write : CodeRequest) : List Event := [
  .start .getLink, .advance 0, .advance 0,
  .start write, .advance 1, .advance 1,
  .advance 0,
  .start .getLink, .advance 2]

/-- Readers that cache before the write leave nothing stale. -/
theorem throughout_fresh_fillThenWrite :
    Run.Throughout (step Api.oneUrl "promo2026") (Fresh "promo2026") (World.opening promoStored)
      (fillThenWrite promoUpdate) :=
  throughout_fresh Api.oneUrl "promo2026" opens_promoStored (by decide)

/-- The world after a run of the writer between the two calls of the reader. -/
def overtaken (write : CodeRequest) : World InMemoryRepo :=
  Run.reach (step Api.oneUrl "promo2026") (World.opening promoStored) (writeThenFill write)

/-- The reader that starts last hits the entry the first reader left. -/
theorem overtaken_stale (write : CodeRequest) (hwrite : write = promoUpdate ∨ write = .deleteLink) :
    ∃ g u, (overtaken write).threads[2]? = some g ∧ (overtaken write).threads[1]? = some u ∧
      g.req = .getLink ∧ u.req = write ∧ Precedes u g 4 ∧ g.prog = .done (shows
        (missing InMemoryRepo "promo2026")
        (some ⟨.new .UNIX_EPOCH "promo2026" "https://example.com/", 0⟩)) := by
  rcases hwrite with rfl | rfl
  · exact ⟨_, _, rfl, rfl, rfl, rfl, ⟨⟨5, rfl, by decide⟩, rfl⟩, rfl⟩
  · exact ⟨_, _, rfl, rfl, rfl, rfl, ⟨⟨5, rfl, by decide⟩, rfl⟩, rfl⟩

/-- A writer between the two calls of a reader: a reader that starts after the
update has finished is answered the version before it, and one that starts after
a delete is answered the deleted link. -/
theorem not_throughout_fresh :
    ¬ Run.Throughout (step Api.oneUrl "promo2026") (Fresh "promo2026") (World.opening promoStored)
      (writeThenFill promoUpdate) ∧
    ¬ Run.Throughout (step Api.oneUrl "promo2026") (Fresh "promo2026") (World.opening promoStored)
      (writeThenFill .deleteLink) := by
  constructor
  · intro h
    obtain ⟨g, u, hg, hu, hreq, hupdate, hm, hout⟩ := overtaken_stale promoUpdate (Or.inl rfl)
    have hfresh : Fresh "promo2026" (overtaken promoUpdate) := h.last
    obtain ⟨before, hbefore, hnewer⟩ := hfresh.newer g (List.mem_of_getElem? hg) hreq _ hout
      u (List.mem_of_getElem? hu) 4 _ _ hm hupdate
    have hfound : ((overtaken promoUpdate).moments "promo2026")[4]? =
        some (some ⟨.new .UNIX_EPOCH "promo2026" "https://example.com/", 0⟩) := by decide
    rw [hfound] at hbefore
    cases hbefore
    exact (hnewer _ rfl).ne (by decide) rfl
  · intro h
    obtain ⟨g, u, hg, hu, hreq, hdelete, hm, hout⟩ := overtaken_stale .deleteLink (Or.inr rfl)
    have hfresh : Fresh "promo2026" (overtaken .deleteLink) := h.last
    have hgone := hfresh.gone g (List.mem_of_getElem? hg) hreq _ hout
      u (List.mem_of_getElem? hu) 4 hm hdelete
    cases hgone

end Interleaved

end Shorty
