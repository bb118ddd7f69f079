import Shorty.Lib.Paging
import Shorty.Stats

/-!
# Shorty.Stats.Top

The list of the most followed links.  The storage is a hash map, so `getTop` sorts
whatever order the map is iterated in: which links with the same total come first, and
which of them are cut off, is up to that order, and the totals are not.
-/

namespace Shorty

namespace StatsStorage

open SlidingWindowStats (getTotal)

variable {s order : StatsStorage} {limit : Nat}

/-- Storages with the same windows, in whatever order each map is iterated. -/
def SameWindows (s s' : StatsStorage) : Prop := ∀ code, s.get code = s'.get code

/-- A list of the `limit` codes with the highest totals. -/
structure IsTop (s : StatsStorage) (limit : Nat) (top : List (String × Nat)) : Prop where
  length_eq : top.length = min limit s.inner.size
  nodup : (top.map Prod.fst).Nodup
  total_eq : ∀ code total, (code, total) ∈ top → (s.get code).map getTotal = some total
  ordered : top.Pairwise (fun a b => b.2 ≤ a.2)
  omitted_le : ∀ code total, (s.get code).map getTotal = some total → code ∉ top.map Prod.fst →
    ∀ entry ∈ top, total ≤ entry.2

/-! ## the entries -/

/-- The codes with their totals, as the map is iterated. -/
def entries (s : StatsStorage) : List (String × Nat) := s.inner.items.map (fun p => (p.1, p.2.getTotal))

theorem getTop_eq (s : StatsStorage) (limit : Nat) :
    s.getTop limit = (Paging.descending Prod.snd s.entries).take limit := rfl

theorem mem_entries {code : String} {total : Nat} :
    (code, total) ∈ s.entries ↔ (s.get code).map getTotal = some total := by
  rw [Option.map_eq_some_iff, entries, List.mem_map]
  constructor
  · rintro ⟨⟨code', w⟩, hmem, heq⟩
    obtain ⟨rfl, rfl⟩ := Prod.mk.inj heq
    exact ⟨w, Table.get?_eq_some_iff.mpr hmem, rfl⟩
  · rintro ⟨w, hget, rfl⟩
    exact ⟨(code, w), Table.get?_eq_some_iff.mp hget, rfl⟩

/-- No code comes twice. -/
theorem nodup_entries (s : StatsStorage) : (s.entries.map Prod.fst).Nodup := by
  have hkeys : s.entries.map Prod.fst = s.inner.items.map Prod.fst := by simp [entries]
  rw [hkeys]
  exact s.inner.nodup

theorem length_entries (s : StatsStorage) : s.entries.length = s.inner.size := by
  simp [entries, Keyed.size]

theorem SameWindows.entries_perm (h : SameWindows s order) : s.entries.Perm order.entries :=
  (Table.perm_of_get?_eq h).map _

/-! ## the top -/

/-- What `getTop` returns are the highest entries of the map as it is iterated. -/
theorem isTop_getTop (s : StatsStorage) (limit : Nat) : IsTop s limit (s.getTop limit) := by
  have hsub : (s.getTop limit).Sublist (Paging.descending Prod.snd s.entries) := List.take_sublist _ _
  constructor
  · rw [getTop_eq, List.length_take, Paging.length_descending, length_entries]
  · have hperm : (Paging.descending Prod.snd s.entries).Perm s.entries := Paging.descending_perm _
    exact ((hperm.map Prod.fst).nodup_iff.mpr (nodup_entries s)).sublist (hsub.map Prod.fst)
  · intro code total hmem
    exact mem_entries.mp (Paging.mem_descending.mp (hsub.subset hmem))
  · exact (Paging.pairwise_ge_descending s.entries).sublist hsub
  · intro code total htotal hout entry hentry
    have hnot : (code, total) ∉ s.getTop limit := fun hmem => hout (List.mem_map_of_mem hmem)
    exact Paging.le_of_not_mem_take (mem_entries.mpr htotal) hnot hentry

/-- A top is one of the contents, however they are iterated. -/
theorem IsTop.congr {top : List (String × Nat)} (htop : IsTop order limit top)
    (h : SameWindows s order) : IsTop s limit top := by
  have hsize : s.inner.size = order.inner.size := by
    rw [← length_entries, ← length_entries]
    exact h.entries_perm.length_eq
  constructor
  · rw [hsize]
    exact htop.length_eq
  · exact htop.nodup
  · intro code total hmem
    rw [h code]
    exact htop.total_eq code total hmem
  · exact htop.ordered
  · intro code total htotal
    rw [h code] at htotal
    exact htop.omitted_le code total htotal

/-- The totals of a top are the front of all totals, in an order that does not depend
on the map's. -/
theorem map_snd_getTop (h : SameWindows s order) (limit : Nat) :
    (order.getTop limit).map Prod.snd =
      ((Paging.descending Prod.snd s.entries).map Prod.snd).take limit := by
  rw [getTop_eq, List.map_take, Paging.map_descending_eq_of_perm h.entries_perm]

/-- **Top links**: however the map is iterated, `getTop` returns the `limit` codes with
the highest totals, the same totals for every order, and more of the same sequence for a
larger limit. -/
theorem getTop_correct (s order : StatsStorage) (h : SameWindows s order) (limit : Nat) :
    IsTop s limit (order.getTop limit) ∧
      (order.getTop limit).map Prod.snd = (s.getTop limit).map Prod.snd ∧
      ∀ larger, limit ≤ larger →
        (order.getTop limit).map Prod.snd <+: (s.getTop larger).map Prod.snd := by
  refine ⟨(isTop_getTop order limit).congr h, ?_, ?_⟩
  · rw [map_snd_getTop h, map_snd_getTop (fun _ => rfl)]
  · intro larger hle
    rw [map_snd_getTop h, map_snd_getTop (fun _ => rfl)]
    exact List.take_prefix_take_left hle

/-- A storage with one hit for each of some codes; the last code is iterated first. -/
def hitOnce (codes : List String) : StatsStorage :=
  codes.foldl (fun s code => (s.getOrCreate code).write code (·.recordHit .UNIX_EPOCH)) new

/-- Two codes with a hit each: either may be the top one. -/
theorem getTop_correct_tie :
    IsTop (hitOnce ["summer", "winter"]) 1 ((hitOnce ["winter", "summer"]).getTop 1) ∧
      ((hitOnce ["winter", "summer"]).getTop 1).map Prod.snd =
        ((hitOnce ["summer", "winter"]).getTop 1).map Prod.snd ∧
      ∀ larger, 1 ≤ larger → ((hitOnce ["winter", "summer"]).getTop 1).map Prod.snd <+:
        ((hitOnce ["summer", "winter"]).getTop larger).map Prod.snd := by
  apply getTop_correct
  intro code
  by_cases hsummer : code = "summer"
  · simp [hitOnce, get_write, get_getOrCreate, hsummer]
  · by_cases hwinter : code = "winter" <;> simp [hitOnce, get_write, get_getOrCreate, hsummer, hwinter]

end StatsStorage

end Shorty
