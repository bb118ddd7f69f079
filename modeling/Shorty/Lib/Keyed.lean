import Mathlib.Data.List.Nodup
import Mathlib.Logic.Function.Basic

/-!
# Shorty.Lib.Keyed

Finite collections whose items carry a key, no two items the same one.  This
is what a hash map with an iteration order and a table with a `UNIQUE` column
have in common: `items` lists the content in the order an iteration visits it,
and `find?` is the lookup by key.

`Table` is the special case of key/value pairs.  Every operation comes with the
lemma that says what it does to a lookup, so that later proofs never open the
list.
-/

/-- Items with pairwise distinct keys, in iteration order. -/
structure Keyed {κ α : Type} (key : α → κ) where
  items : List α
  nodup : (items.map key).Nodup

namespace Keyed

variable {κ α : Type} {key : α → κ}

/-- The collection without items. -/
def empty : Keyed key := ⟨[], by simp⟩

/-- The number of items. -/
def size (m : Keyed key) : Nat := m.items.length

/-- Keep the items a test accepts. -/
def filter (p : α → Bool) (m : Keyed key) : Keyed key where
  items := m.items.filter p
  nodup := m.nodup.sublist (List.filter_sublist.map key)

/-- Items with the same key are the same item. -/
theorem eq_of_key_eq (m : Keyed key) {a b : α} (ha : a ∈ m.items) (hb : b ∈ m.items)
    (h : key a = key b) : a = b :=
  List.inj_on_of_nodup_map m.nodup ha hb h

theorem mem_filter {p : α → Bool} {m : Keyed key} {a : α} :
    a ∈ (m.filter p).items ↔ a ∈ m.items ∧ p a = true := List.mem_filter

variable [DecidableEq κ]

/-- The item under a key. -/
def find? (m : Keyed key) (k : κ) : Option α := m.items.find? (fun a => key a = k)

/-- Store an item under its key, in place of an earlier one. -/
def put (a : α) (m : Keyed key) : Keyed key where
  items := a :: m.items.filter (fun b => key b ≠ key a)
  nodup := by
    rw [List.map_cons, List.nodup_cons]
    refine ⟨?_, m.nodup.sublist (List.filter_sublist.map key)⟩
    intro h
    obtain ⟨b, hb, hk⟩ := List.mem_map.mp h
    simp [hk] at hb

/-- Drop the item under a key. -/
def erase (k : κ) (m : Keyed key) : Keyed key := m.filter (fun a => key a ≠ k)

/-- Change the item under a key without changing the key. -/
def modify (k : κ) (f : α → α) (hf : ∀ a, key (f a) = key a) (m : Keyed key) : Keyed key where
  items := m.items.map (fun a => if key a = k then f a else a)
  nodup := by
    have hkeys : (m.items.map (fun a => if key a = k then f a else a)).map key =
        m.items.map key := by
      rw [List.map_map]
      apply List.map_congr_left
      intro a _
      by_cases h : key a = k <;> simp [h, hf]
    rw [hkeys]
    exact m.nodup

/-! ## members -/

theorem mem_put {a b : α} {m : Keyed key} (h : b ∈ (m.put a).items) : b = a ∨ b ∈ m.items := by
  rcases List.mem_cons.mp h with h | h
  · exact Or.inl h
  · exact Or.inr (List.mem_of_mem_filter h)

theorem mem_erase {k : κ} {m : Keyed key} {a : α} :
    a ∈ (m.erase k).items ↔ a ∈ m.items ∧ key a ≠ k := by
  simp [erase, mem_filter]

theorem mem_modify {k : κ} {f : α → α} {hf : ∀ a, key (f a) = key a} {m : Keyed key} {b : α}
    (h : b ∈ (m.modify k f hf).items) : b ∈ m.items ∨ ∃ a ∈ m.items, key a = k ∧ b = f a := by
  obtain ⟨a, ha, rfl⟩ := List.mem_map.mp h
  by_cases hk : key a = k
  · exact Or.inr ⟨a, ha, hk, if_pos hk⟩
  · rw [if_neg hk]
    exact Or.inl ha

/-! ## lookups -/

theorem find?_eq_some_iff {m : Keyed key} {k : κ} {a : α} :
    m.find? k = some a ↔ a ∈ m.items ∧ key a = k := by
  constructor
  · intro h
    exact ⟨List.mem_of_find?_eq_some h, by simpa using List.find?_some h⟩
  · rintro ⟨hmem, hkey⟩
    cases hf : m.find? k with
    | none => simpa [hkey] using List.find?_eq_none.mp hf a hmem
    | some b =>
        have hb : key b = k := by simpa using List.find?_some hf
        rw [m.eq_of_key_eq (List.mem_of_find?_eq_some hf) hmem (hb.trans hkey.symm)]

theorem key_of_find? {m : Keyed key} {k : κ} {a : α} (h : m.find? k = some a) : key a = k :=
  (find?_eq_some_iff.mp h).2

theorem mem_of_find? {m : Keyed key} {k : κ} {a : α} (h : m.find? k = some a) : a ∈ m.items :=
  (find?_eq_some_iff.mp h).1

theorem find?_of_mem {m : Keyed key} {a : α} (h : a ∈ m.items) : m.find? (key a) = some a :=
  find?_eq_some_iff.mpr ⟨h, rfl⟩

/-- Collections with the same lookups have the same items, in some order. -/
theorem perm_of_find?_eq {m m' : Keyed key} (h : ∀ k, m.find? k = m'.find? k) : m.items.Perm m'.items := by
  rw [List.perm_ext_iff_of_nodup (m.nodup.of_map key) (m'.nodup.of_map key)]
  intro a
  have hiff : ∀ n : Keyed key, a ∈ n.items ↔ n.find? (key a) = some a := fun n =>
    ⟨find?_of_mem, mem_of_find?⟩
  rw [hiff, hiff, h]

@[simp] theorem find?_empty (k : κ) : (empty : Keyed key).find? k = none := rfl

/-- A filtered lookup is the lookup, tested. -/
theorem find?_filter (p : α → Bool) (m : Keyed key) (k : κ) :
    (m.filter p).find? k = (m.find? k).filter p := by
  ext a
  simp [find?_eq_some_iff, filter, Option.filter_eq_some_iff, and_right_comm]

theorem find?_put (a : α) (m : Keyed key) (k : κ) :
    (m.put a).find? k = if k = key a then some a else m.find? k := by
  by_cases h : k = key a
  · subst h
    simp [find?_eq_some_iff, put]
  · ext b
    simp only [find?_eq_some_iff, put, List.mem_cons, List.mem_filter, decide_not,
      Bool.not_eq_eq_eq_not, Bool.not_true, decide_eq_false_iff_not, if_neg h]
    constructor
    · rintro ⟨rfl | ⟨hb, _⟩, hk⟩
      · exact absurd hk.symm h
      · exact ⟨hb, hk⟩
    · rintro ⟨hb, hk⟩
      exact ⟨Or.inr ⟨hb, fun e => h (hk.symm.trans e)⟩, hk⟩

theorem find?_erase (k' : κ) (m : Keyed key) (k : κ) :
    (m.erase k').find? k = if k = k' then none else m.find? k := by
  rw [erase, find?_filter]
  cases hf : m.find? k with
  | none => simp
  | some a =>
      have hk := key_of_find? hf
      by_cases h : k = k' <;> simp [Option.filter, hk, h]

theorem find?_modify (k' : κ) (f : α → α) (hf : ∀ a, key (f a) = key a) (m : Keyed key) (k : κ) :
    (m.modify k' f hf).find? k = if k = k' then (m.find? k).map f else m.find? k := by
  ext b
  rw [find?_eq_some_iff]
  simp only [modify, List.mem_map]
  constructor
  · rintro ⟨⟨a, ha, rfl⟩, hk⟩
    by_cases h : key a = k'
    · rw [if_pos h, hf] at hk
      rw [if_pos h, if_pos (hk.symm.trans h), ← hk, find?_of_mem ha]
      rfl
    · rw [if_neg h] at hk ⊢
      rw [if_neg (fun e => h (hk.trans e)), ← hk, find?_of_mem ha]
  · intro h
    by_cases hk : k = k'
    · rw [if_pos hk] at h
      obtain ⟨a, ha, rfl⟩ := Option.map_eq_some_iff.mp h
      have hka := key_of_find? ha
      refine ⟨⟨a, mem_of_find? ha, if_pos (hka.trans hk)⟩, ?_⟩
      rw [hf, hka]
    · rw [if_neg hk] at h
      have hkb := key_of_find? h
      exact ⟨⟨b, mem_of_find? h, if_neg (fun e => hk (hkb.symm.trans e))⟩, hkb⟩

end Keyed

/-! ## tables of key/value pairs -/

/-- A finite map: pairs keyed by their first component. -/
abbrev Table (κ ν : Type) := Keyed (Prod.fst : κ × ν → κ)

namespace Table

variable {κ ν : Type} [DecidableEq κ]

/-- The value under a key. -/
def get? (m : Table κ ν) (k : κ) : Option ν := (m.find? k).map Prod.snd

/-- Store a value under a key. -/
def set (k : κ) (v : ν) (m : Table κ ν) : Table κ ν := m.put (k, v)

/-- Change the value under a key. -/
def alter (k : κ) (f : ν → ν) (m : Table κ ν) : Table κ ν :=
  m.modify k (fun p => (p.1, f p.2)) (fun _ => rfl)

theorem get?_eq_some_iff {m : Table κ ν} {k : κ} {v : ν} :
    m.get? k = some v ↔ (k, v) ∈ m.items := by
  rw [get?, Option.map_eq_some_iff]
  constructor
  · rintro ⟨⟨k', v'⟩, h, rfl⟩
    obtain ⟨hm, rfl⟩ := Keyed.find?_eq_some_iff.mp h
    exact hm
  · intro h
    exact ⟨(k, v), Keyed.find?_eq_some_iff.mpr ⟨h, rfl⟩, rfl⟩

/-- Tables with the same lookups have the same pairs, in some order. -/
theorem perm_of_get?_eq {m m' : Table κ ν} (h : ∀ k, m.get? k = m'.get? k) : m.items.Perm m'.items := by
  apply Keyed.perm_of_find?_eq
  intro k
  ext p
  rw [Keyed.find?_eq_some_iff, Keyed.find?_eq_some_iff]
  constructor
  · rintro ⟨hmem, rfl⟩
    exact ⟨get?_eq_some_iff.mp ((h p.1).symm.trans (get?_eq_some_iff.mpr hmem)), rfl⟩
  · rintro ⟨hmem, rfl⟩
    exact ⟨get?_eq_some_iff.mp ((h p.1).trans (get?_eq_some_iff.mpr hmem)), rfl⟩

@[simp] theorem get?_empty (k : κ) : get? (Keyed.empty : Table κ ν) k = none := rfl

theorem get?_set (k' : κ) (v : ν) (m : Table κ ν) (k : κ) :
    (m.set k' v).get? k = if k = k' then some v else m.get? k := by
  rw [get?, set, Keyed.find?_put]
  by_cases h : k = k' <;> simp [h, get?]

theorem get?_erase (k' : κ) (m : Table κ ν) (k : κ) :
    Table.get? (m.erase k') k = if k = k' then none else m.get? k := by
  rw [get?, Keyed.find?_erase]
  by_cases h : k = k' <;> simp [h, get?]

theorem get?_alter (k' : κ) (f : ν → ν) (m : Table κ ν) (k : κ) :
    (m.alter k' f).get? k = if k = k' then (m.get? k).map f else m.get? k := by
  rw [get?, alter, Keyed.find?_modify]
  by_cases h : k = k'
  · simp only [h, if_true, get?, Option.map_map]
    rfl
  · simp [h, get?]

end Table
