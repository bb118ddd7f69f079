import Mathlib.Data.List.Count
import Shorty.Timed.Recency

/-!
# Shorty.Timed.Counters

What the counters of the cache (`CacheStats`) count, under every schedule: a hit for every
`get_link` that is answered without the repository, and a miss for every other one that
has looked, whatever becomes of it.
-/

namespace Shorty

namespace Timed

variable {config : Config} {R : Type} [LinkRepository R]

/-- Whether a call was a `GET` that hit. -/
def lookedUp? (json : SerdeJson) (e : Deed R) : Option Bool :=
  match e.call with
  | .cacheGet key => some (State.exec json (.cacheGet key) e.before).1.isSome
  | _ => none

/-- Whether what was done was done with the first call, if there was one. -/
def doneAtOnce? : List (Deed R) → Bool → Option Bool
  | [], _ => none
  | _ :: others, done => some (others.isEmpty && done)

/-- Whether a `get_link` that has looked was answered without the repository. -/
def answeredFromCache? (t : ClientTask config R) : Option Bool :=
  match t.request with
  | .http ⟨_, _, .getLink _⟩ => doneAtOnce? t.deeds t.rest.result?.isSome
  | _ => none

/-- The counters after a lookup, if it is one. -/
def afterLookup (stats : CacheStats) : Option Bool → CacheStats
  | some true => stats.recordHit
  | some false => stats.recordMiss
  | none => stats

/-- The counters that count these lookups. -/
def counting (lookups : List Bool) : CacheStats := ⟨lookups.count true, lookups.count false⟩

theorem counting_cons (out : Option Bool) (lookups : List Bool) :
    counting (out.toList ++ lookups) = afterLookup (counting lookups) out := by
  match out with
  | none => rfl
  | some true => simp [counting, afterLookup, CacheStats.recordHit]
  | some false => simp [counting, afterLookup, CacheStats.recordMiss]

theorem stats_exec (json : SerdeJson) (time : Nat) (c : Call) (s : State R) :
    (State.exec json c s).2.cache.stats =
      afterLookup s.cache.stats (lookedUp? json ⟨time, c, s⟩) := by
  cases c with
  | cacheGet key =>
      simp only [State.exec, RedisCache.get, lookedUp?]
      cases hc : s.cache.conn with
      | none => rfl
      | some r =>
          dsimp only
          split
          · rename_i h
            rw [h]
            rfl
          · rename_i h
            rw [h]
            rfl
  | cacheSet key value =>
      simp only [State.exec, RedisCache.set, lookedUp?, afterLookup]
      split
      · rfl
      · split <;> rfl
  | _ => rfl

variable [LawfulLinkRepository R] {json : SerdeJson} {code : String} {ds : List (Deed R)}
  {rest : Interleaved.Program} {d : Deployment} {p : Clients config R} {t : ClientTask config R}

/-- A read looks once, first of all, and is over exactly when it has hit. -/
theorem GetLinkRun.lookedUp (h : GetLinkRun json code ds rest) :
    ds.filterMap (lookedUp? json) = (doneAtOnce? ds rest.result?.isSome).toList := by
  cases h with
  | begun => rfl
  | hit look value hlook hvalue => simp [lookedUp?, doneAtOnce?, hlook, hvalue, Proc.result?]
  | missed look hlook hmiss =>
      simp [lookedUp?, doneAtOnce?, hlook, hmiss, Proc.result?, Interleaved.lookup]
  | absent look read hlook hmiss hread hfind =>
      simp [lookedUp?, doneAtOnce?, hlook, hmiss, hread]
  | found look read l hlook hmiss hread hfind =>
      simp [lookedUp?, doneAtOnce?, hlook, hmiss, hread]
  | filled look read fill l hlook hmiss hread hfind hfill =>
      simp [lookedUp?, doneAtOnce?, hlook, hmiss, hread, hfill]

/-- A task has looked as often as it says: once, or not at all. -/
theorem Sound.lookedUp_deeds (h : Sound d p) (ht : t ∈ p.tasks) :
    t.deeds.filterMap (lookedUp? d.json) = (answeredFromCache? t).toList := by
  by_cases hreads : ∃ a code, t.request = .http a ∧ a.req = .getLink code
  · obtain ⟨⟨now, requestId, req⟩, code, ha, rfl⟩ := hreads
    obtain ⟨rest, hrun, hrest⟩ := h.getLinkRun ht ha rfl
    rw [hrun.lookedUp, answeredFromCache?, ha, hrest]
    simp
  · -- no other request looks
    have hnone : ∀ e ∈ t.deeds, lookedUp? d.json e = none := by
      intro e he
      have hmakes := h.makes ht he
      unfold lookedUp?
      split
      · rename_i key hcall
        rw [hcall] at hmakes
        cases hq : t.request with
        | grpc now rpc =>
            rw [hq] at hmakes
            exact absurd hmakes id
        | http a =>
            rw [hq] at hmakes
            have hcall : Api.Makes a.req (.cacheGet key) := hmakes
            generalize hreq : a.req = req at hcall
            cases hcall with
            | cacheGet code => exact absurd ⟨a, code, hq, hreq⟩ hreads
      · rfl
    have hanswered : answeredFromCache? t = none := by
      unfold answeredFromCache?
      split
      · rename_i now requestId code hq
        exact absurd ⟨_, code, hq, rfl⟩ hreads
      · rfl
    rw [hanswered]
    exact List.filterMap_eq_nil_iff.mpr hnone

/-- The counters count the lookups that were made. -/
def Counted (d : Deployment) (p : Clients config R) : Prop :=
  p.state.cache.stats = counting (p.deeds.filterMap (lookedUp? d.json))

omit [LawfulLinkRepository R] in
theorem counted_step (h : Counted d p) (m : Pool.Move (Request config) Event) : Counted d (step d p m) := by
  rcases step_cases d p m with hsame | ⟨hmove, _⟩
  · rw [hsame]
    exact h
  · rw [hmove]
    cases m with
    | start q =>
        rw [Counted, move, Pool.deeds_start]
        exact h
    | env e =>
        rw [Counted] at h ⊢
        cases e <;> exact h
    | advance i =>
        rcases Pool.step_advance p i with hstay | ⟨t, c, k, ht, hr, hstep⟩
        · rw [move, hstay]
          exact h
        · rw [move, hstep, Counted]
          have hperm : ((p.called (State.exec d.json) i t c k).deeds.filterMap (lookedUp? d.json)).Perm
              ((lookedUp? d.json ⟨p.clock, c, p.state⟩).toList ++ p.deeds.filterMap (lookedUp? d.json)) :=
            Pool.filterMap_deeds_called ht _
          have hcounting : ∀ {l l' : List Bool}, l.Perm l' → counting l = counting l' := by
            intro l l' hl
            rw [counting, counting, hl.count_eq, hl.count_eq]
          rw [hcounting hperm, counting_cons, ← h]
          exact stats_exec d.json p.clock c p.state

/-- **Accounting**: under every schedule the hits are the `get_link` requests answered
without the repository, and the misses all others that have looked, whether they were
answered, dropped or are still running. -/
theorem counted_reach (d : Deployment) {s : State R} (hstats : s.cache.stats = ⟨0, 0⟩)
    (moves : List (Pool.Move (Request config) Event)) :
    (Run.reach (step d) (Pool.new s) moves).state.cache.stats =
      counting ((Run.reach (step d) (Pool.new s) moves).tasks.filterMap answeredFromCache?) := by
  obtain ⟨hsound, _⟩ := sound_reach d s moves
  have hnew : Counted d (Pool.new s : Clients config R) := by
    rw [Counted]
    exact hstats
  have hcounted := Run.invariant (P := Counted d) (fun _ m h => counted_step h m) hnew moves
  rw [hcounted, Pool.filterMap_deeds (fun t ht => hsound.lookedUp_deeds ht)]

/-- One hit and one miss, in the run of the oldest answer. -/
theorem counted_worstRun : worstRun.state.cache.stats =
    counting (worstRun.tasks.filterMap answeredFromCache?) :=
  counted_reach promoDeployment rfl _

end Timed

end Shorty
