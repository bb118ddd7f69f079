import Mathlib.Algebra.BigOperators.Fin
import Mathlib.Algebra.Order.BigOperators.Group.Finset
import Mathlib.Order.Interval.Finset.Nat

/-!
# Shorty.Lib.Ring

Rings of counters: `n` cells that stand for `n` consecutive keys of a sequence
that has no end, a key `k` in the cell `k % n`.

`Holds v lo f` says what a ring stands for: the counts `f` of the keys from `lo`
on, as far as it reaches.  The rules say how the ring changes when one count
changes (`Holds.set`) and when its newest key moves up and the cells of the keys
in between are cleared (`Holds.advance`), and that adding up the cells adds up
the counts (`Holds.total`).
-/

namespace Ring

variable {n : Nat} [NeZero n]

/-- The cell of a key. -/
def slot (n : Nat) [NeZero n] (k : Nat) : Fin n := ⟨k % n, Nat.mod_lt k (NeZero.pos n)⟩

/-- Empty the cells of some keys. -/
def clear (v : Vector Nat n) (ks : List Nat) : Vector Nat n := ks.foldl (fun v k => v.set (slot n k) 0) v

/-- All cells together. -/
def total (v : Vector Nat n) : Nat := ∑ i : Fin n, v[i]

/-- The counts `f` of the keys from `lo` on, as far as the ring reaches. -/
def Holds (v : Vector Nat n) (lo : Nat) (f : Nat → Nat) : Prop :=
  ∀ k, lo ≤ k → k < lo + n → v[slot n k] = f k

/-! ## keys and cells -/

/-- A later key of the same cell is at least one round later. -/
theorem le_of_slot_eq {j k : Nat} (h : slot n j = slot n k) (hlt : j < k) : j + n ≤ k := by
  have hmod : j % n = k % n := congrArg Fin.val h
  have hdvd : n ∣ k - j := Nat.dvd_of_mod_eq_zero (Nat.sub_mod_eq_zero_of_mod_eq hmod.symm)
  have hle : n ≤ k - j := Nat.le_of_dvd (by omega) hdvd
  omega

/-- The keys of one round have cells of their own. -/
theorem slot_inj {lo j k : Nat} (h : slot n j = slot n k) (hj : lo ≤ j) (hj' : j < lo + n)
    (hk : lo ≤ k) (hk' : k < lo + n) : j = k := by
  have hjk : ¬ j < k := fun hlt => by have := le_of_slot_eq h hlt; omega
  have hkj : ¬ k < j := fun hlt => by have := le_of_slot_eq h.symm hlt; omega
  omega

/-- A round has a key for every cell. -/
theorem exists_slot_eq (lo : Nat) (i : Fin n) : ∃ k, lo ≤ k ∧ k < lo + n ∧ slot n k = i := by
  have hmem : (i : Nat) ∈ (Finset.Ico lo (lo + n)).image (· % n) := by
    rw [Nat.image_Ico_mod]
    exact Finset.mem_range.mpr i.isLt
  obtain ⟨k, hk, hmod⟩ := Finset.mem_image.mp hmem
  have hrange := Finset.mem_Ico.mp hk
  exact ⟨k, hrange.1, hrange.2, Fin.ext hmod⟩

/-! ## cells -/

theorem getElem_set_slot (v : Vector Nat n) (j k x : Nat) :
    (v.set (slot n j) x)[slot n k] = if slot n j = slot n k then x else v[slot n k] := by
  simp [Vector.getElem_set, Fin.ext_iff]

/-- The cell of a cleared key is empty, and every other as it was. -/
theorem getElem_clear (v : Vector Nat n) (ks : List Nat) (k : Nat) :
    (clear v ks)[slot n k] = if ∃ j ∈ ks, slot n j = slot n k then 0 else v[slot n k] := by
  induction ks generalizing v with
  | nil => simp [clear]
  | cons j ks ih =>
      have hcons : clear v (j :: ks) = clear (v.set (slot n j) 0) ks := rfl
      rw [hcons, ih, getElem_set_slot]
      by_cases hj : slot n j = slot n k <;> simp [hj]

omit [NeZero n] in
theorem total_set (v : Vector Nat n) (i : Fin n) (x : Nat) : total (v.set i x) + v[i] = total v + x := by
  have hset : ∀ j : Fin n, (v.set i x)[j] = Function.update (fun j : Fin n => v[j]) i x j := by
    intro j
    by_cases h : j = i
    · subst h
      simp
    · have hne : (i : Nat) ≠ j := fun heq => h (Fin.ext heq.symm)
      simp [h, hne]
  have hsum : total (v.set i x) = x + ∑ j ∈ Finset.univ.erase i, v[j] := by
    rw [total, Finset.sum_congr rfl (fun j _ => hset j), ← Finset.sdiff_singleton_eq_erase]
    exact Finset.sum_update_of_mem (Finset.mem_univ i) _ _
  have hsplit : v[i] + ∑ j ∈ Finset.univ.erase i, v[j] = total v :=
    Finset.add_sum_erase Finset.univ (fun j => v[j]) (Finset.mem_univ i)
  omega

omit [NeZero n] in
theorem le_total (v : Vector Nat n) (i : Fin n) : v[i] ≤ total v := by
  have hset := total_set v i 0
  omega

omit [NeZero n] in
/-- Cells that only went down, one of them to nothing. -/
theorem total_add_le {v v' : Vector Nat n} {i : Fin n} (hle : ∀ j : Fin n, v'[j] ≤ v[j])
    (hi : v'[i] = 0) : total v' + v[i] ≤ total v := by
  have hset := total_set v' i v[i]
  have hmono : total (v'.set i v[i]) ≤ total v := by
    apply Finset.sum_le_sum
    intro j _
    by_cases h : j = i
    · subst h
      simp
    · have hne : (i : Nat) ≠ j := fun heq => h (Fin.ext heq.symm)
      simpa [hne] using hle j
  omega

/-- Adding up the cells, key by key of one round. -/
theorem total_eq_sum (v : Vector Nat n) (lo : Nat) :
    total v = ∑ k ∈ Finset.Ico lo (lo + n), v[slot n k] := by
  symm
  refine Finset.sum_nbij (slot n) ?_ ?_ ?_ ?_
  · simp
  · intro j hj k hk h
    have hj' := Finset.mem_Ico.mp hj
    have hk' := Finset.mem_Ico.mp hk
    exact slot_inj h hj'.1 hj'.2 hk'.1 hk'.2
  · intro i _
    obtain ⟨k, hlo, hhi, hk⟩ := exists_slot_eq lo i
    exact ⟨k, Finset.mem_coe.mpr (Finset.mem_Ico.mpr ⟨hlo, hhi⟩), hk⟩
  · simp

/-! ## what a ring stands for -/

section Holds

variable {v : Vector Nat n} {lo : Nat} {f : Nat → Nat}

theorem holds_replicate (h : ∀ k, lo ≤ k → k < lo + n → f k = 0) :
    Holds (Vector.replicate n 0) lo f := by
  intro k hlo hhi
  simp [h k hlo hhi]

theorem Holds.set (h : Holds v lo f) {j : Nat} (hlo : lo ≤ j) (hhi : j < lo + n) (x : Nat) :
    Holds (v.set (slot n j) x) lo (Function.update f j x) := by
  intro k hk hk'
  rw [getElem_set_slot]
  by_cases hjk : j = k
  · simp [hjk]
  · have hne : slot n j ≠ slot n k := fun heq => hjk (slot_inj heq hlo hhi hk hk')
    have hkj : k ≠ j := fun heq => hjk heq.symm
    simp [hne, hkj, h k hk hk']

/-- The newest key moves up from `hi` to `hi'`: the cells of the keys in between are
cleared. -/
theorem Holds.advance {hi hi' : Nat} (h : Holds v (hi + 1 - n) f) (hf : ∀ k, hi < k → f k = 0)
    (hle : hi ≤ hi') : Holds (clear v (List.range' (hi + 1) (hi' - hi))) (hi' + 1 - n) f := by
  intro k hk hk'
  rw [getElem_clear]
  split
  · rename_i hcleared
    obtain ⟨j, hj, heq⟩ := hcleared
    have hrange := List.mem_range'_1.mp hj
    have hkj : ¬ k < j := fun hlt => by have := le_of_slot_eq heq.symm hlt; omega
    exact (hf k (by omega)).symm
  · rename_i hkept
    have hout : ¬ (hi < k ∧ k ≤ hi') := fun hin =>
      hkept ⟨k, List.mem_range'_1.mpr (by omega), rfl⟩
    exact h k (by omega) (by omega)

theorem Holds.total (h : Holds v lo f) : total v = ∑ k ∈ Finset.Ico lo (lo + n), f k := by
  rw [total_eq_sum v lo]
  refine Finset.sum_congr rfl (fun k hk => ?_)
  have hrange := Finset.mem_Ico.mp hk
  exact h k hrange.1 hrange.2

end Holds

/-- Counting the keys of an interval one by one counts the members in it. -/
theorem sum_count (l : List Nat) (lo hi : Nat) :
    ∑ k ∈ Finset.Ico lo hi, l.count k = l.countP (fun k => decide (lo ≤ k ∧ k < hi)) := by
  induction l with
  | nil => simp
  | cons a l ih =>
      have hcons : ∀ k, (a :: l).count k = l.count k + if a = k then 1 else 0 := by
        intro k
        simp [List.count_cons]
      rw [Finset.sum_congr rfl (fun k _ => hcons k), Finset.sum_add_distrib, ih, List.countP_cons,
        Finset.sum_ite_eq]
      simp

end Ring
