import Shorty.Lib.Ring
import Shorty.Lib.Run
import Shorty.Stats

/-!
# Shorty.Stats.Window

What the sliding window of a link shows.  Its buffer is a ring of sixty counters
(`Shorty.Lib.Ring`); as long as the clock does not step back it holds the hits of
the sixty seconds up to the last one, and the cached sum is their number.  Two
things are laid open by that: a reading does not drop the seconds that have left
the window since the last hit, and a clock that steps back makes the window drop
hits that are still in it.
-/

namespace Shorty

namespace SlidingWindowStats

/-- A new window after some hits. -/
def recordAll (times : List SystemTime) : SlidingWindowStats := Run.reach recordHit new times

/-- The seconds in the window of sixty that ends with `nowSec`. -/
def hitsWithin (secs : List Nat) (nowSec : Nat) : Nat :=
  secs.countP (fun sec => decide (sec ≤ nowSec ∧ nowSec < sec + 60))

variable {s : SlidingWindowStats}

/-! ## one hit -/

@[simp] theorem lastUpdateSec_recordHit (s : SlidingWindowStats) (now : SystemTime) :
    (s.recordHit now).lastUpdateSec = now.secsSinceEpoch := rfl

theorem buffer_foldl_evict (secs : List Nat) (s : SlidingWindowStats) :
    (secs.foldl evict s).buffer = Ring.clear s.buffer secs := by
  induction secs generalizing s with
  | nil => rfl
  | cons sec secs ih => exact ih (s.evict sec)

theorem buffer_advance (s : SlidingWindowStats) (nowSec : Nat) :
    (s.advance nowSec).buffer =
      if s.lastUpdateSec + 60 < nowSec then Vector.replicate 60 0
      else if s.lastUpdateSec < nowSec then
        Ring.clear s.buffer (List.range' (s.lastUpdateSec + 1) (nowSec - s.lastUpdateSec))
      else s.buffer := by
  unfold advance
  split
  · rfl
  · split
    · exact buffer_foldl_evict _ s
    · rfl

/-- The cells of the seconds that have passed are emptied. -/
theorem buffer_advance_of_passed {nowSec sec : Nat} (hlo : s.lastUpdateSec < sec) (hhi : sec ≤ nowSec) :
    (s.advance nowSec).buffer[cell sec] = 0 := by
  rw [buffer_advance]
  split
  · simp
  · rw [if_pos (by omega)]
    have hmem : ∃ j ∈ List.range' (s.lastUpdateSec + 1) (nowSec - s.lastUpdateSec),
        Ring.slot 60 j = Ring.slot 60 sec := ⟨sec, List.mem_range'_1.mpr (by omega), rfl⟩
    exact (Ring.getElem_clear s.buffer _ sec).trans (if_pos hmem)

/-- A cell is emptied or stays as it was. -/
theorem buffer_advance_cases (s : SlidingWindowStats) (nowSec : Nat) (i : Fin 60) :
    (s.advance nowSec).buffer[i] = 0 ∨ (s.advance nowSec).buffer[i] = s.buffer[i] := by
  rw [buffer_advance]
  split
  · simp
  · split
    · obtain ⟨sec, _, _, rfl⟩ := Ring.exists_slot_eq 0 i
      rw [Ring.getElem_clear]
      split
      · exact Or.inl rfl
      · exact Or.inr rfl
    · exact Or.inr rfl

/-- A hit adds one to its own cell. -/
theorem buffer_recordHit (s : SlidingWindowStats) (now : SystemTime) (i : Fin 60) :
    (s.recordHit now).buffer[i] = (s.advance now.secsSinceEpoch).buffer[i] +
      if cell now.secsSinceEpoch = i then 1 else 0 := by
  show ((s.advance now.secsSinceEpoch).buffer.set (cell now.secsSinceEpoch)
    ((s.advance now.secsSinceEpoch).buffer[cell now.secsSinceEpoch] + 1))[i] = _
  by_cases h : cell now.secsSinceEpoch = i
  · subst h
    simp
  · have hne : (cell now.secsSinceEpoch : Nat) ≠ i := fun heq => h (Fin.ext heq)
    simp [h, hne]

/-- The cached sum is what the cells add up to, and no more than all hits. -/
structure SumsUp (s : SlidingWindowStats) : Prop where
  cachedSum_eq : s.cachedSum = Ring.total s.buffer
  cachedSum_le : s.cachedSum ≤ s.totalHits

theorem sumsUp_new : SumsUp new where
  cachedSum_eq := by simp [new, Ring.total]
  cachedSum_le := Nat.le_refl 0

theorem SumsUp.evict (h : SumsUp s) (sec : Nat) : SumsUp (s.evict sec) := by
  have hset := Ring.total_set s.buffer (cell sec) 0
  have hsum := h.cachedSum_eq
  have hle := h.cachedSum_le
  constructor
  · show s.cachedSum - s.buffer[cell sec] = Ring.total (s.buffer.set (cell sec) 0)
    omega
  · show s.cachedSum - s.buffer[cell sec] ≤ s.totalHits
    omega

theorem SumsUp.foldl_evict (h : SumsUp s) (secs : List Nat) :
    SumsUp (secs.foldl SlidingWindowStats.evict s) := by
  induction secs generalizing s with
  | nil => exact h
  | cons sec secs ih => exact ih (h.evict sec)

theorem SumsUp.advance (h : SumsUp s) (nowSec : Nat) : SumsUp (s.advance nowSec) := by
  unfold SlidingWindowStats.advance
  split
  · constructor
    · simp [Ring.total]
    · simp
  · split
    · exact h.foldl_evict _
    · exact h

theorem SumsUp.recordHit (h : SumsUp s) (now : SystemTime) : SumsUp (s.recordHit now) := by
  have hadvance := h.advance now.secsSinceEpoch
  have hset := Ring.total_set (s.advance now.secsSinceEpoch).buffer (cell now.secsSinceEpoch)
    ((s.advance now.secsSinceEpoch).buffer[cell now.secsSinceEpoch] + 1)
  have hsum := hadvance.cachedSum_eq
  have hle := hadvance.cachedSum_le
  constructor
  · simp only [SlidingWindowStats.recordHit]
    omega
  · simp only [SlidingWindowStats.recordHit]
    omega

theorem recordAll_append (times : List SystemTime) (now : SystemTime) :
    recordAll (times ++ [now]) = (recordAll times).recordHit now := by
  unfold recordAll Run.reach
  rw [List.foldl_append]
  rfl

/-- The sum stays right whatever the clock does. -/
theorem sumsUp_recordAll (times : List SystemTime) : SumsUp (recordAll times) :=
  Run.invariant (fun _ now h => h.recordHit now) sumsUp_new times

theorem totalHits_recordAll (times : List SystemTime) :
    (recordAll times).totalHits = times.length := by
  induction times using List.reverseRecOn with
  | nil => rfl
  | append_singleton times now ih =>
      rw [recordAll_append, totalHits_recordHit, ih, List.length_append, List.length_singleton]

/-! ## a clock that does not step back -/

/-- A window that holds the hits of the sixty seconds up to `last`. -/
structure Represents (s : SlidingWindowStats) (secs : List Nat) (last : Nat) : Prop where
  buffer : Ring.Holds s.buffer (last + 1 - 60) (fun sec => secs.count sec)
  lastUpdateSec : s.lastUpdateSec = last
  le_last : ∀ sec ∈ secs, sec ≤ last

theorem count_of_lt {secs : List Nat} {last sec : Nat} (h : ∀ sec ∈ secs, sec ≤ last)
    (hlt : last < sec) : secs.count sec = 0 := by
  rw [List.count_eq_zero]
  intro hmem
  have := h sec hmem
  omega

theorem represents_new : Represents new [] 0 where
  buffer := Ring.holds_replicate (by simp)
  lastUpdateSec := rfl
  le_last := by simp

theorem Represents.advance {secs : List Nat} {last nowSec : Nat} (h : Represents s secs last)
    (hle : last ≤ nowSec) :
    Ring.Holds (s.advance nowSec).buffer (nowSec + 1 - 60) (fun sec => secs.count sec) := by
  have hnone : ∀ sec, last < sec → secs.count sec = 0 := fun sec => count_of_lt h.le_last
  rw [buffer_advance, h.lastUpdateSec]
  split
  · apply Ring.holds_replicate
    intro sec hlo _
    exact hnone sec (by omega)
  · split
    · exact h.buffer.advance hnone hle
    · have heq : nowSec = last := by omega
      rw [heq]
      exact h.buffer

/-- A hit that is not earlier than the last one joins the window. -/
theorem Represents.recordHit {secs : List Nat} {last : Nat} (h : Represents s secs last)
    {now : SystemTime} (hle : last ≤ now.secsSinceEpoch) :
    Represents (s.recordHit now) (secs ++ [now.secsSinceEpoch]) now.secsSinceEpoch := by
  have hmoved := h.advance hle
  constructor
  · have hcell : (s.advance now.secsSinceEpoch).buffer[cell now.secsSinceEpoch] =
        secs.count now.secsSinceEpoch := hmoved now.secsSinceEpoch (by omega) (by omega)
    have hset := hmoved.set (j := now.secsSinceEpoch) (by omega) (by omega)
      ((s.advance now.secsSinceEpoch).buffer[cell now.secsSinceEpoch] + 1)
    have hcount : Function.update (fun sec => secs.count sec) now.secsSinceEpoch
        ((s.advance now.secsSinceEpoch).buffer[cell now.secsSinceEpoch] + 1) =
          fun sec => (secs ++ [now.secsSinceEpoch]).count sec := by
      funext sec
      by_cases heq : sec = now.secsSinceEpoch
      · subst heq
        simp [hcell]
      · have hne : ¬ now.secsSinceEpoch = sec := fun h => heq h.symm
        simp [heq, hne]
    rw [hcount] at hset
    exact hset
  · rfl
  · intro sec hsec
    simp only [List.mem_append, List.mem_singleton] at hsec
    cases hsec with
    | inl hold =>
        have := h.le_last sec hold
        omega
    | inr hnew => omega

/-- The second of the last hit, and zero before the first. -/
def lastSec (times : List SystemTime) : Nat := (times.getLast?.map SystemTime.secsSinceEpoch).getD 0

@[simp] theorem lastSec_append (times : List SystemTime) (now : SystemTime) :
    lastSec (times ++ [now]) = now.secsSinceEpoch := by
  simp [lastSec]

theorem secsSinceEpoch_mono {t u : SystemTime} (h : t ≤ u) : t.secsSinceEpoch ≤ u.secsSinceEpoch := by
  have hns : t.ns ≤ u.ns := h
  unfold SystemTime.secsSinceEpoch
  omega

theorem represents_recordAll {times : List SystemTime}
    (h : (times.map SystemTime.secsSinceEpoch).Pairwise (· ≤ ·)) :
    Represents (recordAll times) (times.map SystemTime.secsSinceEpoch) (lastSec times) := by
  induction times using List.reverseRecOn with
  | nil => exact represents_new
  | append_singleton times now ih =>
      rw [List.map_append, List.pairwise_append] at h
      have hrep := ih h.1
      have hle : lastSec times ≤ now.secsSinceEpoch := by
        cases hlast : times.getLast? with
        | none => simp [lastSec, hlast]
        | some last =>
            have hmem : last.secsSinceEpoch ∈ times.map SystemTime.secsSinceEpoch :=
              List.mem_map_of_mem (List.mem_of_getLast? hlast)
            have := h.2.2 last.secsSinceEpoch hmem now.secsSinceEpoch (by simp)
            simpa [lastSec, hlast] using this
      have hstep := hrep.recordHit hle
      rw [List.map_append, lastSec_append, recordAll_append]
      exact hstep

/-- What the window shows of the hits up to a second. -/
structure Mirrors (s : SlidingWindowStats) (secs : List Nat) (last : Nat) : Prop where
  hitsAt_eq : ∀ sec, sec ≤ last → last < sec + 60 → s.hitsAt sec = secs.count sec
  /-- The cells that no second of the window lives in. -/
  spare_eq : ∀ i : Fin 60, (∀ sec, sec ≤ last → last < sec + 60 → cell sec ≠ i) → s.buffer[i] = 0
  cachedSum_eq : s.cachedSum = hitsWithin secs last
  totalHits_eq : s.totalHits = secs.length

theorem Represents.cachedSum_eq {secs : List Nat} {last : Nat} (h : Represents s secs last)
    (hsum : SumsUp s) : s.cachedSum = hitsWithin secs last := by
  rw [hsum.cachedSum_eq, h.buffer.total, Ring.sum_count]
  unfold hitsWithin
  apply List.countP_congr
  intro sec hsec
  have := h.le_last sec hsec
  simp only [decide_eq_true_eq]
  omega

/-- **Ring buffer**: after hits at times that do not decrease, the window mirrors the
hits of the sixty seconds up to the last one. -/
theorem mirrors_recordAll (times : List SystemTime) (hne : times ≠ [])
    (hsorted : times.Pairwise (· ≤ ·)) :
    Mirrors (recordAll times) (times.map SystemTime.secsSinceEpoch) (times.getLast hne).secsSinceEpoch := by
  have hsecs : (times.map SystemTime.secsSinceEpoch).Pairwise (· ≤ ·) :=
    List.pairwise_map.mpr (hsorted.imp secsSinceEpoch_mono)
  have hrep := represents_recordAll hsecs
  have hlast : lastSec times = (times.getLast hne).secsSinceEpoch := by
    simp [lastSec, List.getLast?_eq_some_getLast hne]
  rw [hlast] at hrep
  constructor
  · intro sec hle hlt
    exact hrep.buffer sec (by omega) (by omega)
  · intro i hspare
    obtain ⟨sec, hlo, hhi, rfl⟩ := Ring.exists_slot_eq ((times.getLast hne).secsSinceEpoch + 1 - 60) i
    have hbeyond : (times.getLast hne).secsSinceEpoch < sec := by
      by_contra hle
      exact hspare sec (by omega) (by omega) rfl
    rw [hrep.buffer sec hlo hhi]
    exact count_of_lt hrep.le_last hbeyond
  · exact hrep.cachedSum_eq (sumsUp_recordAll times)
  · rw [totalHits_recordAll, List.length_map]

/-- Three hits, the last one a whole round after the first. -/
theorem mirrors_recordAll_round :
    Mirrors (recordAll [.ofSecs 100, .ofSecs 101, .ofSecs 160]) [100, 101, 160] 160 :=
  mirrors_recordAll [.ofSecs 100, .ofSecs 101, .ofSecs 160] (by decide) (by decide)

/-! ## reading -/

/-- No hit of the window has left it since the last hit, unless all have. -/
def NoneLeft (times : List SystemTime) (now : SystemTime) : Prop :=
  now.secsSinceEpoch < lastSec times + 60 →
    ∀ t ∈ times, lastSec times < t.secsSinceEpoch + 60 → now.secsSinceEpoch < t.secsSinceEpoch + 60

theorem countP_eq_countP_iff {α : Type} {p q : α → Bool} {l : List α} (h : ∀ a ∈ l, p a → q a) :
    l.countP p = l.countP q ↔ ∀ a ∈ l, q a → p a := by
  induction l with
  | nil => simp
  | cons a l ih =>
      have htail := ih (fun b hb => h b (List.mem_cons_of_mem a hb))
      have hle : l.countP p ≤ l.countP q :=
        List.countP_mono_left (fun b hb => h b (List.mem_cons_of_mem a hb))
      have hhead := h a List.mem_cons_self
      simp only [List.countP_cons, List.forall_mem_cons, ← htail]
      cases hp : p a with
      | true => simp [hhead hp]
      | false =>
          cases q a with
          | true =>
              simp
              omega
          | false => simp

/-- Within a minute of the last hit a reading is the sum as that hit left it. -/
theorem Represents.getLast60s_of_recent {secs : List Nat} {last : Nat} (h : Represents s secs last)
    (hsum : SumsUp s) {now : SystemTime} (hrecent : now.secsSinceEpoch < last + 60) :
    s.getLast60s now = hitsWithin secs last := by
  rw [← h.cachedSum_eq hsum]
  simp only [getLast60s, h.lastUpdateSec]
  split
  · rw [if_neg (by omega)]
  · rfl

/-- A minute after the last hit nothing is left, and a reading gives nothing. -/
theorem Represents.getLast60s_of_passed {secs : List Nat} {last : Nat} (h : Represents s secs last)
    {now : SystemTime} (hpassed : last + 60 ≤ now.secsSinceEpoch) :
    s.getLast60s now = hitsWithin secs now.secsSinceEpoch := by
  have hread : s.getLast60s now = 0 := by
    simp only [getLast60s, h.lastUpdateSec]
    rw [if_pos (by omega), if_pos (by omega)]
  have hnone : hitsWithin secs now.secsSinceEpoch = 0 := by
    rw [hitsWithin, List.countP_eq_zero]
    intro sec hsec
    have := h.le_last sec hsec
    simp only [decide_eq_true_eq]
    omega
  rw [hread, hnone]

/-- **Reading the window**: after hits at times that do not decrease, a reading gives
the hits of the last sixty seconds exactly when none of them has left the window
since the last hit. -/
theorem getLast60s_recordAll_iff (times : List SystemTime) (now : SystemTime)
    (hsorted : times.Pairwise (· ≤ ·)) (hnow : ∀ t ∈ times, t ≤ now) :
    (recordAll times).getLast60s now =
        hitsWithin (times.map SystemTime.secsSinceEpoch) now.secsSinceEpoch ↔
      NoneLeft times now := by
  have hsecs : (times.map SystemTime.secsSinceEpoch).Pairwise (· ≤ ·) :=
    List.pairwise_map.mpr (hsorted.imp secsSinceEpoch_mono)
  have hrep := represents_recordAll hsecs
  have hle : ∀ t ∈ times, t.secsSinceEpoch ≤ now.secsSinceEpoch := fun t ht =>
    secsSinceEpoch_mono (hnow t ht)
  have hbelow : ∀ t ∈ times, t.secsSinceEpoch ≤ lastSec times := by
    simpa using hrep.le_last
  by_cases hrecent : now.secsSinceEpoch < lastSec times + 60
  · -- the reading has the hits of the window that ends with the last one
    have hlast : lastSec times ≤ now.secsSinceEpoch := by
      cases h : times.getLast? with
      | none => simp [lastSec, h]
      | some last => simpa [lastSec, h] using hle last (List.mem_of_getLast? h)
    rw [hrep.getLast60s_of_recent (sumsUp_recordAll times) hrecent, eq_comm, hitsWithin, hitsWithin,
      List.countP_map, List.countP_map, countP_eq_countP_iff]
    · unfold NoneLeft
      simp only [Function.comp_apply, decide_eq_true_eq]
      constructor
      · intro h _ t ht hin
        exact (h t ht ⟨hbelow t ht, hin⟩).2
      · intro h t ht hin
        exact ⟨hle t ht, h hrecent t ht hin.2⟩
    · intro t ht hin
      simp only [Function.comp_apply, decide_eq_true_eq] at hin ⊢
      have := hbelow t ht
      omega
  · rw [hrep.getLast60s_of_passed (by omega)]
    simp [NoneLeft, hrecent]

/-- Two hits at once and one half a minute later, where an older one has left the window. -/
theorem getLast60s_recordAll_minute :
    ((recordAll [.ofSecs 40, .ofSecs 100, .ofSecs 100, .ofSecs 130]).getLast60s (.ofSecs 155) =
        hitsWithin [40, 100, 100, 130] 155 ↔
      NoneLeft [.ofSecs 40, .ofSecs 100, .ofSecs 100, .ofSecs 130] (.ofSecs 155)) ∧
    (recordAll [.ofSecs 40, .ofSecs 100, .ofSecs 100, .ofSecs 130]).getLast60s (.ofSecs 155) = 3 :=
  ⟨getLast60s_recordAll_iff [.ofSecs 40, .ofSecs 100, .ofSecs 100, .ofSecs 130] (.ofSecs 155)
    (by decide) (by decide), by decide +kernel⟩

/-- A hit that left the window after the last one is still shown. -/
theorem not_getLast60s_recordAll :
    ¬ ∀ (times : List SystemTime) (now : SystemTime), times.Pairwise (· ≤ ·) → (∀ t ∈ times, t ≤ now) →
      (recordAll times).getLast60s now =
        hitsWithin (times.map SystemTime.secsSinceEpoch) now.secsSinceEpoch := by
  intro h
  have hread := h [.ofSecs 100, .ofSecs 150] (.ofSecs 165) (by decide) (by decide)
  exact absurd hread (by decide)

/-! ## a clock that steps back -/

/-- A hit of a second was dropped, or is about to be: the clock is before the second. -/
def Doomed (sec : Nat) (s : SlidingWindowStats) : Prop :=
  s.cachedSum < s.totalHits ∨ s.lastUpdateSec < sec ∧ 0 < s.hitsAt sec

/-- Moving the window drops the hits of a cell it empties. -/
theorem cachedSum_advance_add_le (hsum : SumsUp s) (nowSec : Nat) {i : Fin 60}
    (hi : (s.advance nowSec).buffer[i] = 0) : (s.advance nowSec).cachedSum + s.buffer[i] ≤ s.cachedSum := by
  have hle : ∀ j : Fin 60, (s.advance nowSec).buffer[j] ≤ s.buffer[j] := by
    intro j
    cases buffer_advance_cases s nowSec j with
    | inl hzero => omega
    | inr hkept => omega
  rw [(hsum.advance nowSec).cachedSum_eq, hsum.cachedSum_eq]
  exact Ring.total_add_le hle hi

theorem cachedSum_advance_le (hsum : SumsUp s) (nowSec : Nat) :
    (s.advance nowSec).cachedSum ≤ s.cachedSum := by
  rw [(hsum.advance nowSec).cachedSum_eq, hsum.cachedSum_eq]
  apply Finset.sum_le_sum
  intro j _
  cases buffer_advance_cases s nowSec j with
  | inl hzero => omega
  | inr hkept => omega

/-- What is doomed stays doomed, and once the clock is back at the second it is lost. -/
theorem Doomed.recordHit {sec : Nat} (hsum : SumsUp s) (h : Doomed sec s) (now : SystemTime) :
    Doomed sec (s.recordHit now) := by
  have htotal := totalHits_advance s now.secsSinceEpoch
  have hmono := cachedSum_advance_le hsum now.secsSinceEpoch
  cases h with
  | inl hlost =>
      left
      simp only [SlidingWindowStats.recordHit]
      omega
  | inr hcoming =>
      obtain ⟨hlast, hcell⟩ := hcoming
      unfold hitsAt at hcell
      have hle := hsum.cachedSum_le
      by_cases hzero : (s.advance now.secsSinceEpoch).buffer[cell sec] = 0
      · left
        have hdrop := cachedSum_advance_add_le hsum now.secsSinceEpoch hzero
        simp only [SlidingWindowStats.recordHit]
        omega
      · right
        have hback : now.secsSinceEpoch < sec := by
          by_contra hge
          exact hzero (buffer_advance_of_passed hlast (by omega))
        refine ⟨hback, ?_⟩
        have hbump := buffer_recordHit s now (cell sec)
        unfold hitsAt
        omega

/-- A hit recorded while the clock is behind the last one leaves that one doomed. -/
theorem doomed_of_stepBack {times : List SystemTime} {now : SystemTime}
    (hrep : Represents (recordAll times) (times.map SystemTime.secsSinceEpoch) (lastSec times))
    (hback : now.secsSinceEpoch < lastSec times) :
    ∃ t ∈ times, Doomed t.secsSinceEpoch ((recordAll times).recordHit now) := by
  cases hlast : times.getLast? with
  | none => simp [lastSec, hlast] at hback
  | some last =>
      have hmem : last ∈ times := List.mem_of_getLast? hlast
      have hsec : lastSec times = last.secsSinceEpoch := by simp [lastSec, hlast]
      rw [hsec] at hrep hback
      have hcell : (recordAll times).buffer[cell last.secsSinceEpoch] =
          (times.map SystemTime.secsSinceEpoch).count last.secsSinceEpoch :=
        hrep.buffer last.secsSinceEpoch (by omega) (by omega)
      have hcount : 0 < (times.map SystemTime.secsSinceEpoch).count last.secsSinceEpoch :=
        List.count_pos_iff.mpr (List.mem_map_of_mem hmem)
      have hkept : (recordAll times).advance now.secsSinceEpoch = recordAll times := by
        unfold advance
        rw [hrep.lastUpdateSec, if_neg (by omega), if_neg (by omega)]
      have hbump := buffer_recordHit (recordAll times) now (cell last.secsSinceEpoch)
      rw [hkept] at hbump
      exact ⟨last, hmem, Or.inr ⟨hback, by unfold hitsAt; omega⟩⟩

/-- A hit that is followed by an earlier second is lost by the time the clock is back
at its own. -/
theorem doomed_recordAll {times : List SystemTime}
    (h : ¬ (times.map SystemTime.secsSinceEpoch).Pairwise (· ≤ ·)) :
    ∃ t ∈ times, Doomed t.secsSinceEpoch (recordAll times) := by
  induction times using List.reverseRecOn with
  | nil => simp at h
  | append_singleton times now ih =>
      rw [recordAll_append]
      by_cases hsorted : (times.map SystemTime.secsSinceEpoch).Pairwise (· ≤ ·)
      · have hrep := represents_recordAll hsorted
        have hback : now.secsSinceEpoch < lastSec times := by
          by_contra hge
          apply h
          rw [List.map_append, List.pairwise_append]
          refine ⟨hsorted, List.pairwise_singleton _ _, ?_⟩
          intro sec hsec sec' hsec'
          have hle := hrep.le_last sec hsec
          simp only [List.map_cons, List.map_nil, List.mem_singleton] at hsec'
          omega
        obtain ⟨t, ht, hdoomed⟩ := doomed_of_stepBack hrep hback
        exact ⟨t, by simp [ht], hdoomed⟩
      · obtain ⟨t, ht, hdoomed⟩ := ih hsorted
        exact ⟨t, by simp [ht], hdoomed.recordHit (sumsUp_recordAll times) now⟩

/-- Hits in order, all in the minute up to one more, are all counted. -/
theorem cachedSum_recordHit_of_within {times : List SystemTime} {latest : SystemTime}
    (hsorted : (times.map SystemTime.secsSinceEpoch).Pairwise (· ≤ ·))
    (hwithin : ∀ t ∈ times, t.secsSinceEpoch ≤ latest.secsSinceEpoch ∧
      latest.secsSinceEpoch ≤ t.secsSinceEpoch + 59) :
    ((recordAll times).recordHit latest).cachedSum = times.length + 1 := by
  have hextended : ((times ++ [latest]).map SystemTime.secsSinceEpoch).Pairwise (· ≤ ·) := by
    rw [List.map_append, List.pairwise_append]
    refine ⟨hsorted, List.pairwise_singleton _ _, ?_⟩
    simpa using fun t ht => (hwithin t ht).1
  have hrep := represents_recordAll hextended
  have hsum := hrep.cachedSum_eq (sumsUp_recordAll (times ++ [latest]))
  rw [recordAll_append, lastSec_append] at hsum
  rw [hsum, hitsWithin, List.countP_eq_length.mpr]
  · simp
  · intro sec hsec
    simp only [List.mem_map, List.mem_append, List.mem_singleton] at hsec
    obtain ⟨t, ht, rfl⟩ := hsec
    cases ht with
    | inl hold =>
        have := hwithin t hold
        simp only [decide_eq_true_eq]
        omega
    | inr hnew => simp [hnew]

/-- **Order of the hits**: of hits within a minute, made in any order, and one more at
their latest second, the window counts all exactly when the clock has not stepped
back to an earlier second. -/
theorem cachedSum_reordered_iff (calls order : List SystemTime) (latest : SystemTime)
    (horder : order.Perm calls)
    (hwithin : ∀ t ∈ calls, t.secsSinceEpoch ≤ latest.secsSinceEpoch ∧
      latest.secsSinceEpoch ≤ t.secsSinceEpoch + 59) :
    ((recordAll order).recordHit latest).cachedSum = calls.length + 1 ↔
      (order.map SystemTime.secsSinceEpoch).Pairwise (· ≤ ·) := by
  have htotal : ((recordAll order).recordHit latest).totalHits = calls.length + 1 := by
    rw [totalHits_recordHit, totalHits_recordAll, horder.length_eq]
  constructor
  · intro hall
    by_contra hsorted
    obtain ⟨t, ht, hdoomed⟩ := doomed_recordAll hsorted
    have hlost := hdoomed.recordHit (sumsUp_recordAll order) latest
    have hle := (hwithin t (horder.mem_iff.mp ht)).1
    cases hlost with
    | inl hlt => omega
    | inr hcoming =>
        have hlast : ((recordAll order).recordHit latest).lastUpdateSec = latest.secsSinceEpoch := rfl
        omega
  · intro hsorted
    rw [cachedSum_recordHit_of_within hsorted (fun t ht => hwithin t (horder.mem_iff.mp ht)),
      horder.length_eq]

/-- Two hits in the order they happened. -/
theorem cachedSum_reordered_inOrder :
    ((recordAll [.ofSecs 50, .ofSecs 100]).recordHit (.ofSecs 100)).cachedSum = 2 + 1 ↔
      [50, 100].Pairwise (· ≤ ·) :=
  cachedSum_reordered_iff [.ofSecs 100, .ofSecs 50] [.ofSecs 50, .ofSecs 100] (.ofSecs 100)
    (List.Perm.swap _ _ _) (by decide)

/-- Of two hits the earlier one is recorded last, and the later one is forgotten. -/
theorem not_cachedSum_reordered :
    ¬ ∀ (calls order : List SystemTime) (latest : SystemTime), order.Perm calls → latest ∈ calls →
      (∀ t ∈ calls, t.secsSinceEpoch ≤ latest.secsSinceEpoch ∧
        latest.secsSinceEpoch ≤ t.secsSinceEpoch + 59) →
      ((recordAll order).recordHit latest).cachedSum = calls.length + 1 := by
  intro h
  have hsum := h [.ofSecs 50, .ofSecs 100] [.ofSecs 100, .ofSecs 50] (.ofSecs 100)
    (List.Perm.swap _ _ _) (by simp) (by decide)
  exact absurd hsum (by decide)

end SlidingWindowStats

end Shorty
