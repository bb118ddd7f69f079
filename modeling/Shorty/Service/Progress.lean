import Shorty.Service.Interleaved

/-!
# Shorty.Service.Progress

What interleaved requests on one code keep.  `Progress` says how far each request
has come, and `Sound` adds what the cache and the past may hold: a cached response
is that of a moment after every write that has finished.  Every event keeps it but
one, a reader that caches what a finished write has replaced.
-/

namespace Shorty

namespace Interleaved

open LawfulLinkRepository (find missing)

variable {crates : Crates} {code : String} {R : Type} [LinkRepository R] [LawfulLinkRepository R]
  {w w' : World R} {s : AppState R} {t u : Thread} {i : Nat}

/-! ## what a call does to the link -/

/-- A call of a request on the repository moves the link on, leaves the cache
alone, and is a write only by what the request is for. -/
theorem exec_onLink {req : CodeRequest} {c : Call} (hc : OnLink code req c) (s : AppState R) :
    Ages 1 (find s.repo code) (find (AppState.exec c s).2.repo code) ∧
    (AppState.exec c s).2.cache = s.cache ∧
    (writes c (AppState.exec c s).1 = true →
      Changed req (find s.repo code) (find (AppState.exec c s).2.repo code)) := by
  cases c with
  | get code' =>
      rw [AppState.exec_get]
      exact ⟨ages_refl _ _, rfl, fun hw => by cases hw⟩
  | update now code' url v =>
      cases req with
      | updateLink now' req =>
          obtain rfl : code' = code := hc
          refine ⟨?_, rfl, ?_⟩
          · rcases AppState.exec_update_cases now code' url v s with ⟨e, he⟩ | ⟨l, hl, _, hput⟩
            · rw [he]
              exact ages_refl _ _
            · rw [hl, hput, Store.put_self]
              exact ⟨1, Nat.le_refl 1, rfl⟩
          · intro hw
            rcases AppState.exec_update_cases now code' url v s with ⟨e, he⟩ | ⟨l, hl, _, hput⟩
            · rw [he] at hw
              cases hw
            · rw [hl, hput, Store.put_self]
              rfl
      | _ => exact absurd hc id
  | remove code' =>
      cases req with
      | deleteLink =>
          obtain rfl : code' = code := hc
          cases h : find s.repo code' with
          | none =>
              rw [AppState.exec_remove_of_absent h, h]
              exact ⟨trivial, rfl, fun hw => by cases hw⟩
          | some l =>
              have hgone : find (AppState.exec (.remove code') s).2.repo code' = none := by
                rw [AppState.exec_remove_of_find h]
                exact (congrFun (LawfulLinkRepository.remove_found h).2 code').trans Store.drop_self
              rw [hgone]
              exact ⟨trivial, rfl, fun _ => trivial⟩
      | _ => exact absurd hc id
  | recordHit now code' =>
      cases req with
      | redirect now' =>
          obtain rfl : code' = code := hc
          refine ⟨?_, rfl, fun hw => by cases hw⟩
          cases h : find s.repo code' with
          | none =>
              have hmissed : (AppState.exec (.recordHit now code') s).2 = s := by
                rw [AppState.exec, LawfulLinkRepository.recordHit_missing h]
                rfl
              rw [hmissed, h]
              trivial
          | some l =>
              have hcounted : find (AppState.exec (.recordHit now code') s).2.repo code' =
                  some { l with hits := l.hits + 1 } := by
                rw [AppState.exec_recordHit_of_find now h]
                exact (congrFun (LawfulLinkRepository.recordHit_found h).2 code').trans Store.put_self
              rw [hcounted]
              exact ages_of_version rfl
      | _ => exact absurd hc id
  | _ => cases req <;> exact absurd hc id

/-! ## where a request stands -/

/-- How far a request has come.  A `get_link` that is done shows the link of a
moment after every write that had finished when it started. -/
inductive Progress (code : String) (missing : RepoError) (moments : List (Option LinkStats))
    (threads : List Thread) (t : Thread) : Prop where
  | looking (hreq : t.req = .getLink) (hprog : t.prog = ExceptT.run (Api.getLink code))
      (hwrote : t.wroteAt = none)
  | missed (hreq : t.req = .getLink) (hprog : t.prog = lookup code) (hwrote : t.wroteAt = none)
  | filling (l : LinkStats) (r : Nat) (hreq : t.req = .getLink) (hprog : t.prog = fill code l)
      (hread : t.readAt = some r) (hstart : t.startedAt ≤ r) (hmoment : moments[r]? = some (some l))
      (hwrote : t.wroteAt = none)
  | got (n : Nat) (shown : Option LinkStats) (hreq : t.req = .getLink)
      (hprog : t.prog = .done (shows missing shown)) (hmoment : moments[n]? = some shown)
      (hlater : ∀ u ∈ threads, u.Before t → ∀ m, u.wroteAt = some m → m < n)
      (hwrote : t.wroteAt = none)
  | writing (hreq : t.req ≠ .getLink) (hprog : Orderly code t.req t.wroteAt.isSome t.prog)
  | ended (hreq : t.req ≠ .getLink) (out : Except (Failure AppError) Response)
      (hprog : t.prog = .done out)

/-- A request wrote at a moment, and what it wrote shows in the next. -/
def Wrote (moments : List (Option LinkStats)) (req : CodeRequest) (m : Nat) : Prop :=
  ∃ before after, moments[m]? = some before ∧ moments[m + 1]? = some after ∧
    Changed req before after

/-- A response is that of a moment after every write that has finished. -/
def Current (code : String) (w : World R) (v : LinkResponse) : Prop :=
  ∃ n l, (w.moments code)[n]? = some (some l) ∧ v = .ofLinkStats l ∧
    ∀ u ∈ w.threads, ∀ m ∈ u.written, m < n

/-- The invariant of the runs that cache current responses only. -/
structure Sound (code : String) (w : World R) : Prop where
  deletes : w.app.cache.Deletes
  entry : ∀ v, w.app.cache.entry (linkKey code) = some v → Current code w v
  ages : Aging (w.moments code)
  started : ∀ t ∈ w.threads, t.startedAt ≤ w.past.length
  wrote : ∀ t ∈ w.threads, ∀ m, t.wroteAt = some m → Wrote (w.moments code) t.req m
  ordered : ∀ t ∈ w.threads, ∀ m f, t.wroteAt = some m → t.finishedAt = some f → m ≤ f
  progress : ∀ t ∈ w.threads, Progress code (missing R code) (w.moments code) w.threads t

/-- A request that the event from `w` to `w'` started or advanced. -/
structure Joins (code : String) (w w' : World R) (t : Thread) : Prop where
  started : t.startedAt ≤ w.past.length
  finished : ∀ f, t.finishedAt = some f → f = w.past.length
  wrote : ∀ m, t.wroteAt = some m → Wrote (w'.moments code) t.req m
  progress : Progress code (missing R code) (w.moments code) w.threads t

/-! ## one more moment -/

theorem getElem?_moments (code : String) (w : World R) :
    (w.moments code)[w.past.length]? = some (find w.app.repo code) :=
  List.getElem?_concat_length

theorem length_moments (w : World R) : (w.moments code).length = w.past.length + 1 :=
  List.length_append

theorem getElem?_moments_of_past {n : Nat} {x : Option LinkStats} (hpast : w'.past = w.moments code)
    (h : (w.moments code)[n]? = some x) : (w'.moments code)[n]? = some x := by
  have hlt : n < (w.moments code).length := (List.getElem?_eq_some_iff.mp h).1
  rw [World.moments, hpast, List.getElem?_append_left hlt, h]

theorem wrote_of_past {req : CodeRequest} {m : Nat} (hpast : w'.past = w.moments code)
    (h : Wrote (w.moments code) req m) : Wrote (w'.moments code) req m := by
  obtain ⟨before, after, hbefore, hafter, hchanged⟩ := h
  exact ⟨before, after, getElem?_moments_of_past hpast hbefore,
    getElem?_moments_of_past hpast hafter, hchanged⟩

/-- A write in the current moment shows in the next. -/
theorem wrote_now {req : CodeRequest} (hpast : w'.past = w.moments code)
    (h : Changed req (find w.app.repo code) (find w'.app.repo code)) :
    Wrote (w'.moments code) req w.past.length := by
  refine ⟨_, _, getElem?_moments_of_past hpast (getElem?_moments code w), ?_, h⟩
  have hnext := getElem?_moments code w'
  rwa [hpast, length_moments] at hnext

theorem aging_moments (hpast : w'.past = w.moments code) (h : Aging (w.moments code))
    (hages : Ages 1 (find w.app.repo code) (find w'.app.repo code)) : Aging (w'.moments code) := by
  rw [World.moments, hpast]
  exact h.concat hages

/-- Requests that finish now finish before no request that has started. -/
theorem progress_of_past (hpast : w'.past = w.moments code)
    (hthreads : ∀ u ∈ w'.threads, u ∈ w.threads ∨ Joins code w w' u)
    (hstarted : t.startedAt ≤ w.past.length)
    (h : Progress code (missing R code) (w.moments code) w.threads t) :
    Progress code (missing R code) (w'.moments code) w'.threads t := by
  cases h with
  | looking hreq hprog hwrote => exact .looking hreq hprog hwrote
  | missed hreq hprog hwrote => exact .missed hreq hprog hwrote
  | filling l r hreq hprog hread hstart hmoment hwrote =>
      exact .filling l r hreq hprog hread hstart (getElem?_moments_of_past hpast hmoment) hwrote
  | got n shown hreq hprog hmoment hlater hwrote =>
      refine .got n shown hreq hprog (getElem?_moments_of_past hpast hmoment) ?_ hwrote
      intro u hu hbefore m hm
      rcases hthreads u hu with hold | hjoins
      · exact hlater u hold hbefore m hm
      · obtain ⟨f, hf, hlt⟩ := hbefore
        have hnow := hjoins.finished f hf
        omega
  | writing hreq hprog => exact .writing hreq hprog
  | ended hreq out hprog => exact .ended hreq out hprog

/-- **Assembly**: the invariant after an event, from what the event did. -/
theorem sound_of_joins (h : Sound code w) (hpast : w'.past = w.moments code)
    (hthreads : ∀ u ∈ w'.threads, u ∈ w.threads ∨ Joins code w w' u)
    (hages : Ages 1 (find w.app.repo code) (find w'.app.repo code))
    (hdeletes : w'.app.cache.Deletes)
    (hentry : ∀ v, w'.app.cache.entry (linkKey code) = some v → Current code w v ∧
      ∀ u ∈ w'.threads, u ∈ w.threads ∨ u.written = none) : Sound code w' where
  deletes := hdeletes
  entry := by
    intro v hv
    obtain ⟨⟨n, l, hmoment, hvalue, hlater⟩, hwritten⟩ := hentry v hv
    refine ⟨n, l, getElem?_moments_of_past hpast hmoment, hvalue, fun u hu m hm => ?_⟩
    rcases hwritten u hu with hold | hnone
    · exact hlater u hold m hm
    · rw [hnone] at hm
      cases hm
  ages := aging_moments hpast h.ages hages
  started := by
    intro u hu
    rw [hpast, length_moments]
    rcases hthreads u hu with hold | hjoins
    · exact Nat.le_succ_of_le (h.started u hold)
    · exact Nat.le_succ_of_le hjoins.started
  wrote := by
    intro u hu m hm
    rcases hthreads u hu with hold | hjoins
    · exact wrote_of_past hpast (h.wrote u hold m hm)
    · exact hjoins.wrote m hm
  ordered := by
    intro u hu m f hm hf
    rcases hthreads u hu with hold | hjoins
    · exact h.ordered u hold m f hm hf
    · obtain ⟨_, _, _, hafter, _⟩ := hjoins.wrote m hm
      have hlt := (List.getElem?_eq_some_iff.mp hafter).1
      rw [length_moments, hpast, length_moments] at hlt
      rw [hjoins.finished f hf]
      omega
  progress := by
    intro u hu
    rcases hthreads u hu with hold | hjoins
    · exact progress_of_past hpast hthreads (h.started u hold) (h.progress u hold)
    · exact progress_of_past hpast hthreads hjoins.started hjoins.progress

/-! ## a request advances -/

omit [LawfulLinkRepository R] in
theorem advance_call {c : Call} {k : c.Resp → Program} (h : t.prog = .call c k) (now : Nat)
    (s : AppState R) : t.advance now s =
      ({ t with
          prog := k (AppState.exec c s).1
          readAt := if reads c then some now else t.readAt
          wroteAt := if writes c (AppState.exec c s).1 then some now else t.wroteAt
          finishedAt := (k (AppState.exec c s).1).result?.map (fun _ => now) },
        (AppState.exec c s).2) := by
  rw [Thread.advance, h]

omit [LawfulLinkRepository R] in
theorem advance_done {out : Except (Failure AppError) Response} (h : t.prog = .done out) (now : Nat)
    (s : AppState R) : t.advance now s = (t, s) := by
  rw [Thread.advance, h]

/-- The world after a request advances. -/
def advanced (code : String) (w : World R) (i : Nat) (out : Thread × AppState R) : World R :=
  ⟨w.moments code, out.2, w.threads.set i out.1⟩

/-- The invariant after a call that leaves the repository alone. -/
theorem sound_of_cache (h : Sound code w) (ht : w.threads[i]? = some t) {out : Thread × AppState R}
    (hrepo : out.2.repo = w.app.repo) (hfaults : out.2.cache.faults = w.app.cache.faults)
    (hfinished : ∀ f, out.1.finishedAt = some f → f = w.past.length)
    (hstarted : out.1.startedAt = t.startedAt)
    (hwrote : out.1.wroteAt = t.wroteAt) (hreq : out.1.req = t.req)
    (hprogress : Progress code (missing R code) (w.moments code) w.threads out.1)
    (hentry : ∀ v, out.2.cache.entry (linkKey code) = some v →
      Current code w v ∧ out.1.written = none) :
    Sound code (advanced code w i out) := by
  have hmem : t ∈ w.threads := List.mem_of_getElem? ht
  have hjoins : Joins code w (advanced code w i out) out.1 := by
    refine ⟨hstarted ▸ h.started t hmem, hfinished, fun m hm => ?_, hprogress⟩
    rw [hreq]
    exact wrote_of_past rfl (h.wrote t hmem m (hwrote ▸ hm))
  refine sound_of_joins h rfl ?_ ?_ ?_ ?_
  · intro u hu
    rcases List.mem_or_eq_of_mem_set hu with hold | rfl
    · exact Or.inl hold
    · exact Or.inr hjoins
  · rw [advanced, hrepo]
    exact ages_refl _ _
  · intro f hf
    exact h.deletes f (hfaults ▸ hf)
  · intro v hv
    obtain ⟨hcurrent, hwritten⟩ := hentry v hv
    refine ⟨hcurrent, fun u hu => ?_⟩
    rcases List.mem_or_eq_of_mem_set hu with hold | rfl
    · exact Or.inl hold
    · exact Or.inr hwritten

/-- A request that has not written has no write to count. -/
theorem written_of_wroteAt (h : t.wroteAt = none) : t.written = none := by
  rw [Thread.written, h]
  cases t.finishedAt <;> rfl

/-- Writes that had finished when a request started come before what it reads. -/
theorem Sound.lt_of_before (h : Sound code w) {m r : Nat} (hu : u ∈ w.threads) (hbefore : u.Before t)
    (hm : u.wroteAt = some m) (hr : t.startedAt ≤ r) : m < r := by
  obtain ⟨f, hf, hlt⟩ := hbefore
  have horder := h.ordered u hu m f hm hf
  omega

/-- What is current is the link of a moment after the writes before a request. -/
theorem Current.lt_of_before {v : LinkResponse} (h : Current code w v) : ∃ n l,
    (w.moments code)[n]? = some (some l) ∧ v = .ofLinkStats l ∧
      ∀ u ∈ w.threads, u.Before t → ∀ m, u.wroteAt = some m → m < n := by
  obtain ⟨n, l, hmoment, hvalue, hlater⟩ := h
  refine ⟨n, l, hmoment, hvalue, fun u hu hbefore m hm => hlater u hu m ?_⟩
  obtain ⟨f, hf, _⟩ := hbefore
  rw [Thread.written, hf]
  exact hm

theorem sound_looking (h : Sound code w) (ht : w.threads[i]? = some t) (hreq : t.req = .getLink)
    (hprog : t.prog = ExceptT.run (Api.getLink code)) (hwrote : t.wroteAt = none) :
    Sound code (advanced code w i (t.advance w.past.length w.app)) := by
  have hcall := hprog.trans (program_getLink Api.oneUrl code)
  have hentry : ∀ v, (Api.afterGet w.app code).cache.entry (linkKey code) = some v →
      Current code w v := by
    intro v hv
    rw [Api.afterGet, Cache.entry_get] at hv
    exact h.entry v hv
  cases hget : (w.app.cache.get (linkKey code)).1 with
  | some cached =>
      have hexec : AppState.exec (.cacheGet (linkKey code)) w.app =
          (some cached, Api.afterGet w.app code) := Prod.ext hget rfl
      obtain ⟨n, l, hmoment, rfl, hlater⟩ := (h.entry cached (Cache.entry_of_get hget)).lt_of_before
        (t := t)
      rw [advance_call hcall, hexec]
      exact sound_of_cache h ht rfl (Cache.faults_get ..) (fun f hf => (Option.some.inj hf).symm) rfl
        rfl rfl (.got n (some l) hreq rfl hmoment hlater hwrote)
        (fun v hv => ⟨hentry v hv, written_of_wroteAt hwrote⟩)
  | none =>
      have hexec : AppState.exec (.cacheGet (linkKey code)) w.app =
          (none, Api.afterGet w.app code) := Prod.ext hget rfl
      rw [advance_call hcall, hexec]
      exact sound_of_cache h ht rfl (Cache.faults_get ..) (fun f hf => by cases hf) rfl
        rfl rfl (.missed hreq rfl hwrote)
        (fun v hv => ⟨hentry v hv, written_of_wroteAt hwrote⟩)

theorem sound_missed (h : Sound code w) (ht : w.threads[i]? = some t) (hreq : t.req = .getLink)
    (hprog : t.prog = lookup code) (hwrote : t.wroteAt = none) :
    Sound code (advanced code w i (t.advance w.past.length w.app)) := by
  have hstart : t.startedAt ≤ w.past.length := h.started t (List.mem_of_getElem? ht)
  have hmoment := getElem?_moments code w
  cases hfind : find w.app.repo code with
  | some l =>
      rw [hfind] at hmoment
      rw [advance_call hprog, AppState.exec_stats_of_find hfind]
      exact sound_of_cache h ht rfl rfl (fun f hf => by cases hf) rfl rfl rfl
        (.filling l w.past.length hreq rfl rfl hstart hmoment hwrote)
        (fun v hv => ⟨h.entry v hv, written_of_wroteAt hwrote⟩)
  | none =>
      rw [hfind] at hmoment
      rw [advance_call hprog, AppState.exec_stats_of_absent hfind]
      exact sound_of_cache h ht rfl rfl (fun f hf => (Option.some.inj hf).symm) rfl rfl rfl
        (.got w.past.length none hreq rfl hmoment
          (fun u hu hbefore m hm => h.lt_of_before hu hbefore hm hstart) hwrote)
        (fun v hv => ⟨h.entry v hv, written_of_wroteAt hwrote⟩)

/-- The reader that caches what it read: the one place where the condition on the
run is used. -/
theorem sound_filling (h : Sound code w) (ht : w.threads[i]? = some t)
    (hcurrent : FillsCurrent w (.advance i)) {l : LinkStats} {r : Nat} (hreq : t.req = .getLink)
    (hprog : t.prog = fill code l) (hread : t.readAt = some r) (hstart : t.startedAt ≤ r)
    (hmoment : (w.moments code)[r]? = some (some l)) (hwrote : t.wroteAt = none) :
    Sound code (advanced code w i (t.advance w.past.length w.app)) := by
  have hfilling : t.filling = some r := by
    rw [Thread.filling, hprog]
    exact hread
  have hlater : ∀ u ∈ w.threads, ∀ m ∈ u.written, m < r := hcurrent t ht r hfilling
  rw [advance_call hprog]
  refine sound_of_cache h ht rfl (Cache.faults_set ..) (fun f hf => (Option.some.inj hf).symm) rfl rfl
    rfl (.got r (some l) hreq rfl hmoment
      (fun u hu hbefore m hm => h.lt_of_before hu hbefore hm hstart) hwrote) ?_
  intro v hv
  refine ⟨?_, written_of_wroteAt hwrote⟩
  rcases Cache.entry_set hv with ⟨_, hvalue⟩ | hold
  · exact ⟨r, l, hmoment, hvalue, hlater⟩
  · exact h.entry v hold

/-- A request that is done stays as it is. -/
theorem sound_done (h : Sound code w) (ht : w.threads[i]? = some t)
    {out : Except (Failure AppError) Response} (hprog : t.prog = .done out) :
    Sound code (advanced code w i (t.advance w.past.length w.app)) := by
  have hsame : ∀ u ∈ w.threads.set i t, u ∈ w.threads := by
    intro u hu
    rcases List.mem_or_eq_of_mem_set hu with hold | rfl
    · exact hold
    · exact List.mem_of_getElem? ht
  rw [advance_done hprog]
  exact sound_of_joins h rfl (fun u hu => Or.inl (hsame u hu)) (ages_refl _ _) h.deletes
    (fun v hv => ⟨h.entry v hv, fun u hu => Or.inl (hsame u hu)⟩)

/-- A writer finishes by deleting the key, so nothing is cached when its write
starts to count. -/
theorem sound_invalidate (h : Sound code w) (ht : w.threads[i]? = some t) (hreq : t.req ≠ .getLink)
    {out : Except (Failure AppError) Response}
    (hprog : t.prog = .call (.cacheInvalidate (linkKey code)) (fun _ => .done out)) :
    Sound code (advanced code w i (t.advance w.past.length w.app)) := by
  rw [advance_call hprog]
  refine sound_of_cache h ht rfl (Cache.faults_invalidate ..)
    (fun f hf => (Option.some.inj hf).symm) rfl rfl rfl (.ended hreq out rfl) ?_
  intro v hv
  rw [AppState.exec, Cache.entry_invalidate_self h.deletes] at hv
  cases hv

/-- A program that is in order and done has not written. -/
theorem not_written_of_orderly {req : CodeRequest} {written : Bool}
    {out : Except (Failure AppError) Response} (h : Orderly code req written (.done out)) :
    written = false := by
  cases h
  rfl

theorem sound_onLink (h : Sound code w) (ht : w.threads[i]? = some t) (hreq : t.req ≠ .getLink)
    {c : Call} {k : c.Resp → Program} (hprog : t.prog = .call c k) (hc : OnLink code t.req c)
    (hk : ∀ r, Orderly code t.req (t.wroteAt.isSome || writes c r) (k r)) :
    Sound code (advanced code w i (t.advance w.past.length w.app)) := by
  obtain ⟨hages, hcache, hchanged⟩ := exec_onLink hc w.app
  have hmem : t ∈ w.threads := List.mem_of_getElem? ht
  have hprogress : Orderly code t.req
      (if writes c (AppState.exec c w.app).1 then some w.past.length else t.wroteAt).isSome
      (k (AppState.exec c w.app).1) := by
    have hstep := hk (AppState.exec c w.app).1
    cases hwrites : writes c (AppState.exec c w.app).1 <;> simpa [hwrites] using hstep
  rw [advance_call hprog]
  generalize hwrites : writes c (AppState.exec c w.app).1 = wrote at hprogress hchanged ⊢
  generalize hrest : k (AppState.exec c w.app).1 = rest at hprogress ⊢
  set out : Thread × AppState R := ({ t with
    prog := rest
    readAt := if reads c then some w.past.length else t.readAt
    wroteAt := if wrote then some w.past.length else t.wroteAt
    finishedAt := rest.result?.map (fun _ => w.past.length) }, (AppState.exec c w.app).2) with hout
  have hjoins : Joins code w (advanced code w i out) out.1 := by
    refine ⟨h.started t hmem, fun f hf => ?_, fun m hm => ?_, .writing hreq hprogress⟩
    · obtain ⟨_, _, hnow⟩ := Option.map_eq_some_iff.mp hf
      exact hnow.symm
    · cases wrote with
      | true =>
          obtain rfl : w.past.length = m := Option.some.inj hm
          exact wrote_now rfl (hchanged rfl)
      | false => exact wrote_of_past rfl (h.wrote t hmem m hm)
  -- a request that is done after a call on the repository has not written
  have hwritten : out.1.written = none := by
    cases hdone : rest with
    | call c' k' =>
        rw [Thread.written, hout, hdone]
        rfl
    | done result =>
        rw [hdone] at hprogress
        have hnone := not_written_of_orderly hprogress
        exact written_of_wroteAt (Option.not_isSome_iff_eq_none.mp (by simp [out, hnone]))
  refine sound_of_joins h rfl ?_ hages ?_ ?_
  · intro u hu
    rcases List.mem_or_eq_of_mem_set hu with hold | rfl
    · exact Or.inl hold
    · exact Or.inr hjoins
  · rw [advanced, hcache]
    exact h.deletes
  · intro v hv
    rw [advanced, hcache] at hv
    refine ⟨h.entry v hv, fun u hu => ?_⟩
    rcases List.mem_or_eq_of_mem_set hu with hold | rfl
    · exact Or.inl hold
    · exact Or.inr hwritten

/-- Advancing a request keeps the invariant, unless it caches what a finished
write has replaced. -/
theorem sound_advance (h : Sound code w) (ht : w.threads[i]? = some t)
    (hcurrent : FillsCurrent w (.advance i)) :
    Sound code (advanced code w i (t.advance w.past.length w.app)) := by
  cases h.progress t (List.mem_of_getElem? ht) with
  | looking hreq hprog hwrote => exact sound_looking h ht hreq hprog hwrote
  | missed hreq hprog hwrote => exact sound_missed h ht hreq hprog hwrote
  | filling l r hreq hprog hread hstart hmoment hwrote =>
      exact sound_filling h ht hcurrent hreq hprog hread hstart hmoment hwrote
  | got n shown hreq hprog => exact sound_done h ht hprog
  | ended hreq out hprog => exact sound_done h ht hprog
  | writing hreq hprog =>
      generalize hp : t.prog = p at hprog
      generalize hb : t.wroteAt.isSome = b at hprog
      cases hprog with
      | done out => exact sound_done h ht hp
      | invalidate _ out => exact sound_invalidate h ht hreq hp
      | call _ c k hc hk =>
          rw [← hb] at hk
          exact sound_onLink h ht hreq hp hc hk

/-- A request has come nowhere when it starts. -/
theorem progress_start (w : World R) (req : CodeRequest) :
    Progress code (missing R code) (w.moments code) w.threads
      (.start w.past.length req (program crates code req)) := by
  cases req with
  | getLink => exact .looking rfl rfl rfl
  | updateLink now req => exact .writing (fun h => by cases h) (orderly_updateLink crates code now req)
  | deleteLink => exact .writing (fun h => by cases h) (orderly_deleteLink crates code)
  | redirect now => exact .writing (fun h => by cases h) (orderly_redirect crates code now)

theorem sound_start (h : Sound code w) (req : CodeRequest) :
    Sound code (step crates code w (.start req)) := by
  have hthreads : ∀ u ∈ w.threads ++ [.start w.past.length req (program crates code req)],
      u ∈ w.threads ∨ u = .start w.past.length req (program crates code req) := by
    intro u hu
    rcases List.mem_append.mp hu with hold | hnew
    · exact Or.inl hold
    · exact Or.inr (List.mem_singleton.mp hnew)
  refine sound_of_joins h rfl (fun u hu => ?_) (ages_refl _ _) h.deletes (fun v hv => ?_)
  · rcases hthreads u hu with hold | rfl
    · exact Or.inl hold
    · refine Or.inr ⟨Nat.le_refl _, fun f hf => ?_, fun m hm => ?_, progress_start w req⟩
      · obtain ⟨_, _, hnow⟩ := Option.map_eq_some_iff.mp hf
        exact hnow.symm
      · cases hm
  · refine ⟨h.entry v hv, fun u hu => ?_⟩
    rcases hthreads u hu with hold | rfl
    · exact Or.inl hold
    · exact Or.inr (written_of_wroteAt rfl)

/-- **Step**: an event that caches no replaced response keeps the invariant. -/
theorem sound_step (h : Sound code w) (e : Event) (hcurrent : FillsCurrent w e) :
    Sound code (step crates code w e) := by
  cases e with
  | start req => exact sound_start h req
  | advance i =>
      cases ht : w.threads[i]? with
      | none =>
          rw [step, ht]
          exact sound_of_joins h rfl (fun u hu => Or.inl hu) (ages_refl _ _) h.deletes
            (fun v hv => ⟨h.entry v hv, fun u hu => Or.inl hu⟩)
      | some t =>
          rw [step, ht]
          exact sound_advance h ht hcurrent

end Interleaved

end Shorty
