import Mathlib.Algebra.Order.Field.Basic
import Mathlib.Tactic.Linarith
import Mathlib.Tactic.Ring
import Shorty.Lib.Run

/-!
# Shorty.Lib.TokenBucket

Token buckets over an ordered field.  A bucket fills at a rate up to a capacity,
and a call takes a token where there is a whole one.

Everything follows from two facts about one call.  What it spends and what is left
is what was available (`spent_add_level`), and what is available is bounded by the
capacity and by what was left plus what has flowed in (`available_le_cap`,
`available_le_level_add`).  From these, `spent_outputs_le` bounds what the calls of a
run spend from its first to its last, and `Accounted.after` keeps a bucket's account
of every stretch of its history, also when it is drained in between.
-/

namespace TokenBucket

/-- What is left in a bucket, and since when it has been filling. -/
structure Bucket (K : Type) where
  level : K
  since : K

/-- The tokens the calls of a list get. -/
def spent {K : Type} [Field K] (calls : List Bool) : K := (calls.count true : K)

variable {K : Type}

/-- The time of a call, if it got a token. -/
def entry (admitted : Bool) (now : K) : List K := if admitted then [now] else []

theorem mem_entry {admitted : Bool} {now t : K} (h : t ∈ entry admitted now) : t = now := by
  unfold entry at h
  split at h
  · simpa using h
  · simp at h

variable [Field K]

@[simp] theorem spent_nil : spent ([] : List Bool) = (0 : K) := by simp [spent]

theorem spent_cons (call : Bool) (calls : List Bool) :
    (spent (call :: calls) : K) = spent [call] + spent calls := by
  simp only [spent, List.count_cons, List.count_nil, Nat.zero_add, Nat.cast_add]
  ring

variable [LinearOrder K]

/-- How many times of a history lie within two bounds. -/
def within (history : List K) (lo hi : K) : K :=
  (history.countP (fun t => decide (lo ≤ t ∧ t ≤ hi)) : K)

theorem within_append (history later : List K) (lo hi : K) :
    within (history ++ later) lo hi = within history lo hi + within later lo hi := by
  simp [within]

theorem within_eq_zero {history : List K} {lo hi : K} (h : ∀ t ∈ history, lo ≤ t → hi < t) :
    within history lo hi = 0 := by
  unfold within
  rw [List.countP_eq_zero.mpr, Nat.cast_zero]
  intro t ht
  simp only [decide_eq_true_eq, not_and, not_le]
  exact h t ht

/-- Past the last of its times a history does not grow. -/
theorem within_eq_of_le {history : List K} {lo last hi : K} (h : ∀ t ∈ history, t ≤ last)
    (hle : last ≤ hi) : within history lo hi = within history lo last := by
  unfold within
  congr 1
  apply List.countP_congr
  intro t ht
  have hlast := h t ht
  have hhi := hlast.trans hle
  simp [hlast, hhi]

theorem within_entry (admitted : Bool) {lo hi now : K} (hlo : lo ≤ now) (hhi : now ≤ hi) :
    within (entry admitted now) lo hi = spent [admitted] := by
  cases admitted with
  | true => simp [within, entry, spent, hlo, hhi]
  | false => simp [within, entry, spent]

variable (rate cap : K)

/-- What is in a bucket at a time; none has flowed in before the bucket's own time. -/
def available (b : Bucket K) (now : K) : K := min (b.level + max 0 (now - b.since) * rate) cap

/-- A call: whether it gets a token, and the bucket after it. -/
def take (b : Bucket K) (now : K) : Bool × Bucket K :=
  if 1 ≤ available rate cap b now then (true, ⟨available rate cap b now - 1, now⟩)
  else (false, ⟨available rate cap b now, now⟩)

/-- The bucket after a call. -/
def after (b : Bucket K) (now : K) : Bucket K := (take rate cap b now).2

/-- Whether a call gets a token. -/
def admitted (b : Bucket K) (now : K) : Bool := (take rate cap b now).1

@[simp] theorem since_after (b : Bucket K) (now : K) : (after rate cap b now).since = now := by
  unfold after take
  split <;> rfl

theorem available_le_cap (b : Bucket K) (now : K) : available rate cap b now ≤ cap := min_le_right _ _

/-- What a call spends and what it leaves is what was available. -/
theorem spent_add_level (b : Bucket K) (now : K) :
    spent [admitted rate cap b now] + (after rate cap b now).level = available rate cap b now := by
  unfold admitted after take
  split
  · simp [spent]
  · simp [spent]

/-- After some calls a bucket has been filling since the last of them. -/
theorem since_reach (b : Bucket K) {times : List K} {now : K} (h : times.getLast? = some now) :
    (Run.reach (after rate cap) b times).since = now := by
  obtain ⟨front, rfl⟩ := List.getLast?_eq_some_iff.mp h
  simp [Run.reach, List.foldl_append]

variable [IsStrictOrderedRing K] {b : Bucket K} {now : K}

theorem available_le_level_add (h : b.since ≤ now) :
    available rate cap b now ≤ b.level + (now - b.since) * rate := by
  have hpos : 0 ≤ now - b.since := by linarith
  unfold available
  rw [max_eq_right hpos]
  exact min_le_left _ _

variable {rate cap}

theorem available_nonneg (hrate : 0 ≤ rate) (hcap : 0 ≤ cap) (h : 0 ≤ b.level) :
    0 ≤ available rate cap b now := by
  have hflow : 0 ≤ max 0 (now - b.since) * rate := mul_nonneg (le_max_left _ _) hrate
  exact le_min (by linarith) hcap

/-- A bucket that has been filling for long enough is full. -/
theorem available_eq_cap (h : 0 ≤ b.level) (hfull : cap ≤ (now - b.since) * rate) (hrate : 0 ≤ rate) :
    available rate cap b now = cap := by
  have hflow : (now - b.since) * rate ≤ max 0 (now - b.since) * rate :=
    mul_le_mul_of_nonneg_right (le_max_right _ _) hrate
  exact min_eq_right (by linarith)

/-- A call that gets no token leaves the bucket as good as it was: refilling in two steps
is refilling in one. -/
theorem available_after_of_not_admitted (hrate : 0 ≤ rate) (hnow : b.since ≤ now)
    (hdenied : admitted rate cap b now = false) {later : K} (hlater : now ≤ later) :
    available rate cap (after rate cap b now) later = available rate cap b later := by
  have hafter : after rate cap b now = ⟨available rate cap b now, now⟩ := by
    unfold admitted take at hdenied
    unfold after take
    split at hdenied
    · cases hdenied
    · rename_i htoken
      rw [if_neg htoken]
  have hcap : cap ≤ cap + (later - now) * rate := by
    have hflow : 0 ≤ (later - now) * rate := mul_nonneg (by linarith) hrate
    linarith
  have hsplit : (now - b.since) * rate + (later - now) * rate = (later - b.since) * rate := by ring
  rw [hafter]
  simp only [available, max_eq_right (show (0 : K) ≤ later - now by linarith),
    max_eq_right (show (0 : K) ≤ now - b.since by linarith),
    max_eq_right (show (0 : K) ≤ later - b.since by linarith)]
  rw [← min_add_add_right, add_assoc, hsplit, min_assoc, min_eq_right hcap]

/-- A call never leaves less than nothing. -/
theorem level_after_nonneg (hrate : 0 ≤ rate) (hcap : 0 ≤ cap) (h : 0 ≤ b.level) :
    0 ≤ (after rate cap b now).level := by
  have hpos : 0 ≤ available rate cap b now := available_nonneg hrate hcap h
  unfold after take
  split
  · rename_i htoken
    show 0 ≤ available rate cap b now - 1
    linarith
  · exact hpos

/-! ## runs of calls -/

variable (rate cap) in
/-- What a run spends and what it leaves is no more than what there was and what has
flowed in. -/
theorem spent_add_level_le {times : List K} (hsorted : times.Pairwise (· ≤ ·))
    (h : ∀ t ∈ times, b.since ≤ t) :
    spent (Run.outputs (after rate cap) (admitted rate cap) b times) +
        (Run.reach (after rate cap) b times).level ≤
      b.level + ((Run.reach (after rate cap) b times).since - b.since) * rate := by
  induction times generalizing b with
  | nil => simp [Run.outputs]
  | cons now times ih =>
      have hnow : b.since ≤ now := h now (by simp)
      have hnext : ∀ t ∈ times, (after rate cap b now).since ≤ t := by
        simpa using (List.pairwise_cons.mp hsorted).1
      have hrest := ih (b := after rate cap b now) (List.pairwise_cons.mp hsorted).2 hnext
      have hcall := spent_add_level rate cap b now
      have hflow := available_le_level_add rate cap hnow
      rw [since_after] at hrest
      rw [Run.outputs, spent_cons, Run.reach_cons]
      linarith

theorem level_reach_nonneg (hrate : 0 ≤ rate) (hcap : 0 ≤ cap) (h : 0 ≤ b.level) (times : List K) :
    0 ≤ (Run.reach (after rate cap) b times).level :=
  Run.invariant (P := fun b : Bucket K => 0 ≤ b.level) (fun _ _ h => level_after_nonneg hrate hcap h) h times

/-- **Admission**: the calls of a run spend no more than the capacity and what flows
in from the first call to the last. -/
theorem spent_outputs_le (hrate : 0 ≤ rate) (hcap : 0 ≤ cap) (h : 0 ≤ b.level) {first last : K}
    {times : List K} (hsorted : times.Pairwise (· ≤ ·)) (hfirst : times.head? = some first)
    (hlast : times.getLast? = some last) :
    spent (Run.outputs (after rate cap) (admitted rate cap) b times) ≤ cap + (last - first) * rate := by
  cases times with
  | nil => simp at hfirst
  | cons now times =>
      obtain rfl : now = first := by simpa using hfirst
      have hnext : ∀ t ∈ times, (after rate cap b now).since ≤ t := by
        simpa using (List.pairwise_cons.mp hsorted).1
      have hrest := spent_add_level_le rate cap (b := after rate cap b now)
        (List.pairwise_cons.mp hsorted).2 hnext
      have hcall := spent_add_level rate cap b now
      have hle := available_le_cap rate cap b now
      have hleft := level_reach_nonneg hrate hcap h (now :: times)
      have hend := since_reach rate cap b hlast
      rw [Run.reach_cons] at hleft hend
      rw [since_after, hend] at hrest
      rw [Run.outputs, spent_cons]
      linarith

/-! ## histories -/

variable (rate cap) in
/-- A bucket accounts for the tokens its history got: any stretch of time got no more
than the capacity and what flows in meanwhile, and so it stays when what is left is
spent too. -/
structure Accounted (history : List K) (b : Bucket K) : Prop where
  le_since : ∀ t ∈ history, t ≤ b.since
  within_le : ∀ lo hi, lo ≤ hi → within history lo hi ≤ cap + (hi - lo) * rate
  within_add_level_le : ∀ lo, lo ≤ b.since →
    within history lo b.since + b.level ≤ cap + (b.since - lo) * rate

theorem accounted_nil (hrate : 0 ≤ rate) (hcap : 0 ≤ cap) (hlevel : b.level ≤ cap) :
    Accounted rate cap [] b := by
  have hnone : ∀ lo hi : K, within [] lo hi = 0 := fun lo hi => within_eq_zero (by simp)
  have hflow : ∀ lo hi : K, lo ≤ hi → 0 ≤ (hi - lo) * rate := fun lo hi h =>
    mul_nonneg (by linarith) hrate
  constructor
  · simp
  · intro lo hi hle
    have := hflow lo hi hle
    rw [hnone]
    linarith
  · intro lo hle
    have := hflow lo b.since hle
    rw [hnone]
    linarith

/-- A bucket may lose what it has. -/
theorem Accounted.drain {history : List K} (h : Accounted rate cap history b) (hlevel : 0 ≤ b.level) :
    Accounted rate cap history ⟨0, b.since⟩ := by
  constructor
  · exact h.le_since
  · exact h.within_le
  · intro lo hle
    have := h.within_add_level_le lo hle
    show within history lo b.since + 0 ≤ cap + (b.since - lo) * rate
    linarith

/-- What a stretch up to a call got, and what the call leaves, was there or has flowed
in. -/
theorem Accounted.within_call_le {history : List K} (h : Accounted rate cap history b) (hrate : 0 ≤ rate)
    (hnow : b.since ≤ now) {lo : K} (hlo : lo ≤ now) :
    within (history ++ entry (admitted rate cap b now) now) lo now + (after rate cap b now).level ≤
      cap + (now - lo) * rate := by
  have hcall := spent_add_level rate cap b now
  have hflow := available_le_level_add rate cap hnow
  have hle := available_le_cap rate cap b now
  rw [within_append, within_entry _ hlo le_rfl]
  by_cases hearlier : lo ≤ b.since
  · have hold := h.within_add_level_le lo hearlier
    rw [within_eq_of_le h.le_since hnow]
    linarith
  · have hnone : within history lo now = 0 := within_eq_zero (fun t ht hge =>
      absurd (hge.trans (h.le_since t ht)) hearlier)
    have hpos : 0 ≤ (now - lo) * rate := mul_nonneg (by linarith) hrate
    linarith

/-- **Credit**: a bucket goes on accounting for its history when it is called at a time
that is not earlier than its own. -/
theorem Accounted.after {history : List K} (h : Accounted rate cap history b) (hrate : 0 ≤ rate)
    (hcap : 0 ≤ cap) (hlevel : 0 ≤ b.level) (hnow : b.since ≤ now) :
    Accounted rate cap (history ++ entry (admitted rate cap b now) now) (after rate cap b now) := by
  have hleft : 0 ≤ (TokenBucket.after rate cap b now).level := level_after_nonneg hrate hcap hlevel
  have hpast : ∀ t ∈ history ++ entry (admitted rate cap b now) now, t ≤ now := by
    intro t ht
    cases List.mem_append.mp ht with
    | inl hold => exact (h.le_since t hold).trans hnow
    | inr hnew => exact (mem_entry hnew).le
  constructor
  · rw [since_after]
    exact hpast
  · intro lo hi hlohi
    by_cases hhi : now ≤ hi
    · rw [within_eq_of_le hpast hhi]
      by_cases hlo : lo ≤ now
      · have hpaid := h.within_call_le hrate hnow hlo
        have hmore : (now - lo) * rate ≤ (hi - lo) * rate :=
          mul_le_mul_of_nonneg_right (by linarith) hrate
        linarith
      · have hpos : 0 ≤ (hi - lo) * rate := mul_nonneg (by linarith) hrate
        rw [within_eq_zero (fun t ht hge => absurd (hge.trans (hpast t ht)) hlo)]
        linarith
    · have hlater : within (entry (admitted rate cap b now) now) lo hi = 0 :=
        within_eq_zero (fun t ht _ => by rw [mem_entry ht]; exact not_le.mp hhi)
      rw [within_append, hlater, add_zero]
      exact h.within_le lo hi hlohi
  · intro lo hlo
    rw [since_after] at hlo ⊢
    exact h.within_call_le hrate hnow hlo

end TokenBucket
