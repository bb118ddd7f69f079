import Shorty.Lib.Pipe
import Shorty.Service
import Shorty.Grpc.Server

/-!
# Shorty.Grpc.Stream

`stream_links` (`grpc/mod.rs`) while it runs: a spawned task looks the codes up one after
the other and sends an event for each it finds, through a channel of the batch size the
client asked for, and the client reads the events or hangs up.  Other requests change the
repository meanwhile.
-/

namespace Shorty

namespace Grpc

open LawfulLinkRepository (find)

/-- The codes the task looks up. -/
def streamCodes : List String := ["stream-1", "stream-2"]

/-- The size of the channel. -/
def batchSize (size : Int) : Nat := if size ≤ 0 then 10 else (min size 100).toNat

theorem batchSize_pos (size : Int) : 0 < batchSize size := by
  rw [batchSize]
  split <;> omega

/-- The event of a link. -/
def eventOf (now : SystemTime) (stats : LinkStats) : LinkEvent :=
  ⟨.created, .ofLinkStats stats, protobufTimestamp now⟩

/-- A code that was looked up, when and in which repository. -/
structure Lookup (R : Type) where
  now : SystemTime
  code : String
  repo : R

/-- A stream in progress. -/
structure Stream (R : Type) (capacity : Nat) where
  app : AppState R
  codes : List String
  looked : List (Lookup R)
  pipe : Pipe LinkEvent capacity

/-- What happens next: the task looks a code up or tries to send, the client reads or hangs
up, another request makes a call, or the cleaner ticks. -/
inductive StreamMove where
  | look (now : SystemTime)
  | push
  | pull
  | hangUp
  | call (c : Call)
  | purge (now : SystemTime)

namespace StreamMove

/-- The moves of the two ends of a stream that goes on. -/
def Continues : StreamMove → Prop
  | look _ | push | pull => True
  | _ => False

/-- These moves, with all lookups at one instant. -/
def Alone (now : SystemTime) : StreamMove → Prop
  | look now' => now' = now
  | push | pull => True
  | _ => False

end StreamMove

namespace Stream

variable {R : Type} {capacity : Nat}

/-- The stream of a call. -/
def start (app : AppState R) (size : Int) : Stream R (batchSize size) :=
  ⟨app, streamCodes, [], Pipe.new⟩

section Step

variable [LinkRepository R]

/-- `state.repo.stats(&code)`, and the event if it has found a link. -/
def look (now : SystemTime) (code : String) (codes : List String) (s : Stream R capacity) :
    Stream R capacity :=
  let out := AppState.exec (.stats code) s.app
  { app := out.2
    codes := codes
    looked := s.looked ++ [⟨now, code, s.app.repo⟩]
    pipe := match (out.1 : Except RepoError LinkStats) with
      | .ok stats => s.pipe.make (eventOf now stats)
      | .error _ => s.pipe }

def step (s : Stream R capacity) : StreamMove → Stream R capacity
  | .look now =>
      match s.codes, s.pipe.held, s.pipe.stopped with
      | code :: codes, none, false => s.look now code codes
      | _, _, _ => s
  | .push => { s with pipe := s.pipe.push }
  | .pull => { s with pipe := s.pipe.pull }
  | .hangUp => { s with pipe := s.pipe.hangUp }
  | .call c => { s with app := (AppState.exec c s.app).2 }
  | .purge now => { s with app := Service.tick now s.app }

end Step

/-- All codes are looked up and all events read. -/
def Finished (s : Stream R capacity) : Prop := s.codes = [] ∧ s.pipe.work = 0

variable [LinkRepository R] [LawfulLinkRepository R]

/-- The event of a lookup, if it has found a link. -/
def event? (l : Lookup R) : Option LinkEvent := (find l.repo l.code).map (eventOf l.now)

theorem code_of_event {l : Lookup R} {event : LinkEvent} (h : event? l = some event) :
    event.link.code = l.code := by
  obtain ⟨stats, hfind, rfl⟩ := Option.map_eq_some_iff.mp h
  exact LawfulLinkRepository.code_of_find hfind

/-- The events of lookups name some of the codes, in their order. -/
theorem codes_events (ls : List (Lookup R)) :
    ((ls.filterMap event?).map (·.link.code)).Sublist (ls.map (·.code)) := by
  induction ls with
  | nil => exact List.Sublist.refl _
  | cons l ls ih =>
      cases h : event? l with
      | none =>
          rw [List.filterMap_cons_none h]
          exact ih.cons _
      | some event =>
          rw [List.filterMap_cons_some h, List.map_cons, List.map_cons, code_of_event h]
          exact ih.cons_cons _

/-! ## what a lookup does -/

variable {s : Stream R capacity} {now : SystemTime} {code : String} {codes : List String}

theorem look_app : (s.look now code codes).app = s.app := by
  rw [look, AppState.exec_stats]

theorem look_pipe : (s.look now code codes).pipe =
    match event? ⟨now, code, s.app.repo⟩ with
    | some event => s.pipe.make event
    | none => s.pipe := by
  rw [look, AppState.exec_stats, event?]
  cases find s.app.repo code <;> rfl

omit [LawfulLinkRepository R] in
theorem step_look_free {now : SystemTime} (hcodes : s.codes = code :: codes) (hheld : s.pipe.held = none)
    (hstopped : s.pipe.stopped = false) : step s (.look now) = s.look now code codes := by
  simp [step, hcodes, hheld, hstopped]

omit [LawfulLinkRepository R] in
/-- A lookup happens where the task is free, and otherwise the task goes on waiting. -/
theorem step_look_cases (s : Stream R capacity) (now : SystemTime) :
    (∃ code codes, s.codes = code :: codes ∧ s.pipe.held = none ∧ s.pipe.stopped = false ∧
      step s (.look now) = s.look now code codes) ∨ step s (.look now) = s := by
  cases hcodes : s.codes with
  | nil => exact .inr (by simp [step, hcodes])
  | cons code codes =>
      cases hheld : s.pipe.held with
      | some event => exact .inr (by simp [step, hcodes, hheld])
      | none =>
          cases hstopped : s.pipe.stopped with
          | true => exact .inr (by simp [step, hcodes, hheld, hstopped])
          | false => exact .inl ⟨code, codes, rfl, rfl, rfl, step_look_free hcodes hheld hstopped⟩

/-! ## what holds on the way -/

/-- The codes are looked up in order, the events are those of the lookups, and nothing is
lost between the task and a client that stays. -/
structure Sound (s : Stream R capacity) : Prop where
  codes : s.looked.map (·.code) ++ s.codes = streamCodes
  made : s.pipe.made = s.looked.filterMap event?
  flows : s.pipe.Flows

theorem sound_start (app : AppState R) (size : Int) : Sound (start app size) :=
  ⟨rfl, rfl, Pipe.flows_new⟩

theorem Sound.look (h : Sound s) (hcodes : s.codes = code :: codes) (hheld : s.pipe.held = none)
    (hstopped : s.pipe.stopped = false) : Sound (s.look now code codes) := by
  have hnew : (s.look now code codes).looked = s.looked ++ [⟨now, code, s.app.repo⟩] := rfl
  have hinOrder : (s.look now code codes).looked.map (·.code) ++ codes = streamCodes := by
    rw [hnew, List.map_append, List.append_assoc, ← h.codes, hcodes]
    rfl
  cases hevent : event? ⟨now, code, s.app.repo⟩ with
  | none =>
      have hpipe : (s.look now code codes).pipe = s.pipe := by rw [look_pipe, hevent]
      refine ⟨hinOrder, ?_, hpipe ▸ h.flows⟩
      rw [hpipe, hnew, h.made]
      simp [hevent]
  | some event =>
      have hpipe : (s.look now code codes).pipe = s.pipe.make event := by rw [look_pipe, hevent]
      refine ⟨hinOrder, ?_, hpipe ▸ h.flows.make event⟩
      rw [hpipe, hnew, Pipe.made_make hheld hstopped, h.made]
      simp [hevent]

theorem Sound.step (h : Sound s) (m : StreamMove) : Sound (s.step m) := by
  cases m with
  | look now =>
      obtain ⟨code, codes, hcodes, hheld, hstopped, hlook⟩ | hwaits := step_look_cases s now
      · rw [hlook]
        exact h.look hcodes hheld hstopped
      · rw [hwaits]
        exact h
  | push => exact ⟨h.codes, (Pipe.made_push s.pipe).trans h.made, h.flows.push⟩
  | pull => exact ⟨h.codes, (Pipe.made_pull s.pipe).trans h.made, h.flows.pull⟩
  | hangUp => exact ⟨h.codes, h.made, h.flows.hangUp⟩
  | call c => exact ⟨h.codes, h.made, h.flows⟩
  | purge now => exact ⟨h.codes, h.made, h.flows⟩

/-! ## the end of a stream -/

/-- What is left to do for the two ends. -/
def left (s : Stream R capacity) : Nat := 3 * s.codes.length + s.pipe.work

/-- While the client is there, the task or the client can go on until all is done. -/
theorem exists_left_lt (hsound : Sound s) (hcapacity : 0 < capacity) (hopen : s.pipe.hungUp = false)
    (h : ¬ s.Finished) : ∃ m : StreamMove, m.Continues ∧ (s.step m).left < s.left ∧
      (s.step m).pipe.hungUp = false := by
  by_cases hwork : s.pipe.work = 0
  · cases hcodes : s.codes with
    | nil => exact absurd ⟨hcodes, hwork⟩ h
    | cons code codes =>
        have hheld : s.pipe.held = none := Pipe.held_of_work hwork
        have hstopped : s.pipe.stopped = false := by
          cases hstopped : s.pipe.stopped with
          | false => rfl
          | true => exact absurd (hsound.flows.stopped hstopped) (by simp [hopen])
        refine ⟨.look (.ofSecs 0), trivial, ?_⟩
        rw [step_look_free hcodes hheld hstopped, left, left, look_pipe, hcodes]
        have hless : (s.look (.ofSecs 0) code codes).codes = codes := rfl
        rw [hless, List.length_cons]
        cases event? ⟨.ofSecs 0, code, s.app.repo⟩ with
        | none => exact ⟨by simp only; omega, hopen⟩
        | some event =>
            have hmake := Pipe.work_make_le s.pipe event
            exact ⟨by simp only; omega, (Pipe.hungUp_make s.pipe event).trans hopen⟩
  · obtain hpush | hpull := Pipe.work_lt hcapacity hopen hwork
    · exact ⟨.push, trivial, Nat.add_lt_add_left hpush _, (Pipe.hungUp_push s.pipe).trans hopen⟩
    · exact ⟨.pull, trivial, Nat.add_lt_add_left hpull _, (Pipe.hungUp_pull s.pipe).trans hopen⟩

theorem exists_finished (hsound : Sound s) (hcapacity : 0 < capacity) (hopen : s.pipe.hungUp = false) :
    ∃ ms : List StreamMove, (∀ m ∈ ms, m.Continues) ∧ (Run.reach step s ms).Finished := by
  induction hleft : s.left using Nat.strong_induction_on generalizing s with
  | _ n ih =>
      by_cases hfinished : s.Finished
      · exact ⟨[], by simp, hfinished⟩
      · obtain ⟨m, hm, hlt, hstill⟩ := exists_left_lt hsound hcapacity hopen hfinished
        obtain ⟨ms, hms, hend⟩ := ih _ (hleft ▸ hlt) (hsound.step m) hstill rfl
        exact ⟨m :: ms, List.forall_mem_cons.mpr ⟨hm, hms⟩, hend⟩

/-! ## runs -/

section Runs

variable {app : AppState R} {size : Int} {moves : List StreamMove}

theorem sound_reach (app : AppState R) (size : Int) (moves : List StreamMove) :
    Sound (Run.reach step (start app size) moves) :=
  Run.invariant (fun _ m h => h.step m) (sound_start app size) moves

omit [LawfulLinkRepository R] in
/-- What was looked up before stays, and a new lookup sees the repository of its moment. -/
theorem looked_step (s : Stream R capacity) (m : StreamMove) : (s.step m).looked = s.looked ∨
    ∃ now code, m = .look now ∧ (s.step m).looked = s.looked ++ [⟨now, code, s.app.repo⟩] := by
  cases m with
  | look now =>
      obtain ⟨code, codes, _, _, _, hlook⟩ | hwaits := step_look_cases s now
      · exact .inr ⟨now, code, rfl, congrArg Stream.looked hlook⟩
      · exact .inl (congrArg Stream.looked hwaits)
  | push | pull | hangUp | call c | purge now => exact .inl rfl

omit [LawfulLinkRepository R] in
theorem lookup_reach (l : Lookup R) (h : l ∈ (Run.reach step (start app size) moves).looked) :
    ∃ before after, moves = before ++ .look l.now :: after ∧
      l.repo = (Run.reach step (start app size) before).app.repo := by
  induction moves using List.reverseRecOn with
  | nil => cases h
  | append_singleton moves m ih =>
      rw [Run.reach_append, Run.reach_cons, Run.reach_nil] at h
      have hmoves : l ∈ (Run.reach step (start app size) moves).looked → ∃ before after,
          moves ++ [m] = before ++ .look l.now :: after ∧
            l.repo = (Run.reach step (start app size) before).app.repo := by
        intro hold
        obtain ⟨before, after, rfl, hrepo⟩ := ih hold
        exact ⟨before, after ++ [m], by simp, hrepo⟩
      obtain hkept | ⟨now, code, rfl, hnew⟩ := looked_step (Run.reach step (start app size) moves) m
      · exact hmoves (hkept ▸ h)
      · rw [hnew] at h
        obtain hold | rfl := List.mem_append.mp h |>.imp_right List.mem_singleton.mp
        · exact hmoves hold
        · exact ⟨moves, [], rfl, rfl⟩

/-- Nothing but the two ends has been at work, and all at one instant. -/
structure Undisturbed (app : AppState R) (now : SystemTime) (s : Stream R capacity) : Prop where
  looked : ∀ l ∈ s.looked, l = ⟨now, l.code, app.repo⟩
  same : s.app = app
  hungUp : s.pipe.hungUp = false

theorem Undisturbed.step {now : SystemTime} (h : Undisturbed app now s) {m : StreamMove}
    (hm : m.Alone now) : Undisturbed app now (s.step m) := by
  cases m with
  | look now' =>
      obtain rfl : now' = now := hm
      obtain ⟨code, codes, _, _, _, hlook⟩ | hwaits := step_look_cases s now'
      · rw [hlook]
        refine ⟨fun l hl => ?_, look_app.trans h.same, ?_⟩
        · obtain hold | rfl := List.mem_append.mp hl |>.imp_right List.mem_singleton.mp
          · exact h.looked l hold
          · rw [h.same]
        · rw [look_pipe]
          cases event? ⟨now', code, s.app.repo⟩ with
          | none => exact h.hungUp
          | some event => exact (Pipe.hungUp_make s.pipe event).trans h.hungUp
      · rw [hwaits]
        exact h
  | push => exact ⟨h.looked, h.same, (Pipe.hungUp_push s.pipe).trans h.hungUp⟩
  | pull => exact ⟨h.looked, h.same, (Pipe.hungUp_pull s.pipe).trans h.hungUp⟩
  | hangUp | call c | purge now' => exact hm.elim

theorem undisturbed_reach (app : AppState R) (size : Int) {now : SystemTime} (h : ∀ m ∈ moves, StreamMove.Alone now m) :
    Undisturbed app now (Run.reach step (start app size) moves) := by
  have hstart : Undisturbed app now (start app size) := ⟨fun _ hl => (List.not_mem_nil hl).elim, rfl, rfl⟩
  have halong : Run.Along step (fun _ m => StreamMove.Alone now m) (start app size) moves :=
    (Run.along_iff_forall (D := StreamMove.Alone now) (fun _ _ => Iff.rfl)).mpr h
  exact Run.reach_of_step (fun _ _ hs hm => Undisturbed.step hs hm) hstart halong

theorem run_linkEvent (now : SystemTime) (code : String) (app : AppState R) :
    (linkEvent now code).run app = (.ok (event? ⟨now, code, app.repo⟩).toList, app) := by
  rw [linkEvent, Handler.run_ask_bind, AppState.exec_stats, event?]
  cases find app.repo code <;> rfl

/-- The method of the sequential model sends the events of the codes that are found. -/
theorem run_streamLinks (now : SystemTime) (app : AppState R) : ((streamLinks now).run app).1 =
    .ok (streamCodes.filterMap (fun code => event? ⟨now, code, app.repo⟩)) := by
  rw [streamLinks]
  simp only [Handler.run_bind, run_linkEvent, Handler.run_pure, streamCodes]
  cases hfirst : event? ⟨now, "stream-1", app.repo⟩ <;> cases hsecond : event? ⟨now, "stream-2", app.repo⟩ <;>
    simp [hfirst, hsecond]

/-- What the client of a stream can rely on, whatever happens on the way. -/
structure Delivers (app : AppState R) (size : Int) (moves : List StreamMove) (s : Stream R capacity) : Prop where
  /-- A lookup sees the repository as it is at that moment. -/
  lookedUp : ∀ l ∈ s.looked, ∃ before after, moves = before ++ .look l.now :: after ∧
    l.repo = (Run.reach step (start app size) before).app.repo
  /-- The codes are looked up in order, each once. -/
  inOrder : s.looked.map (·.code) ++ s.codes = streamCodes
  /-- The client receives the events of the first lookups that have found a link. -/
  received : s.pipe.received <+: s.looked.filterMap event?
  /-- It receives at most one event for a code. -/
  once : (s.pipe.received.map (·.link.code)).Nodup
  /-- To a client that stays nothing is lost. -/
  lossless : s.pipe.hungUp = false → s.Finished → s.pipe.received = s.looked.filterMap event?
  /-- The two ends never block each other while the client stays. -/
  completes : s.pipe.hungUp = false →
    ∃ more : List StreamMove, (∀ m ∈ more, m.Continues) ∧ (Run.reach step s more).Finished
  /-- With no one else about, the client receives what the sequential method sends. -/
  alone : ∀ now, (∀ m ∈ moves, m.Alone now) → s.Finished →
    ((streamLinks now).run app).1 = .ok s.pipe.received

/-- **Streams**: whatever the two ends of a stream and the other requests do, and in
whatever order, the stream delivers. -/
theorem delivers_reach (app : AppState R) (size : Int) (moves : List StreamMove) :
    Delivers app size moves (Run.reach step (start app size) moves) := by
  have hsound := sound_reach app size moves
  set s := Run.reach step (start app size) moves with hs
  have hreceived : s.pipe.received <+: s.looked.filterMap event? := hsound.made ▸ hsound.flows.received
  have hlossless : s.pipe.hungUp = false → s.Finished → s.pipe.received = s.looked.filterMap event? := by
    intro hopen hfinished
    rw [← hsound.made, hsound.flows.received_of_work hopen hfinished.2]
  refine ⟨fun l hl => lookup_reach l hl, hsound.codes, hreceived, ?_, hlossless,
    exists_finished hsound (batchSize_pos size), fun now halone hfinished => ?_⟩
  · have hcodes : (s.pipe.received.map (·.link.code)).Sublist streamCodes := by
      calc (s.pipe.received.map (·.link.code)).Sublist ((s.looked.filterMap event?).map (·.link.code)) :=
            hreceived.sublist.map _
        _ |>.Sublist (s.looked.map (·.code)) := codes_events s.looked
        _ |>.Sublist streamCodes := hsound.codes ▸ List.sublist_append_left _ _
    exact hcodes.nodup (by decide)
  · have hall := undisturbed_reach app size halone
    have hcodes : s.looked.map (·.code) = streamCodes := by
      rw [← hsound.codes, hfinished.1, List.append_nil]
    rw [run_streamLinks, hlossless hall.hungUp hfinished, ← hcodes, List.filterMap_map]
    refine congrArg Except.ok (List.filterMap_congr (fun l hl => ?_))
    rw [Function.comp_apply, ← hall.looked l hl]

end Runs

end Stream

end Grpc

end Shorty
