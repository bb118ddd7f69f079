import Mathlib.Data.List.Basic
import Mathlib.Data.String.Basic

/-!
# Shorty.Lib.Token

Two texts in one, joined by a separator, and read back by splitting at it.  The
join is undone exactly when neither text contains the separator; otherwise the
split finds too many parts and fails.  And a text behind a fixed prefix, read back
by stripping it.
-/

namespace Token

/-- Two texts around a separator. -/
def join (sep : Char) (a b : String) : String := a ++ String.singleton sep ++ b

/-- The two parts of a text, if the separator occurs once in it. -/
def split (sep : Char) (s : String) : Option (String × String) :=
  match s.toList.splitOn sep with
  | [a, b] => some (String.ofList a, String.ofList b)
  | _ => none

/-- A list splits into one part more than it has separators. -/
theorem length_splitOn {α : Type} [BEq α] [LawfulBEq α] (a : α) (l : List α) :
    (l.splitOn a).length = l.count a + 1 := by
  induction l with
  | nil => rfl
  | cons x l ih =>
      rw [List.splitOn_cons_eq_if_modifyHead, List.count_cons]
      split
      · rw [List.length_cons, ih]
      · rw [List.length_modifyHead, ih]

variable {sep : Char} {a b : String}

theorem splitOn_join : (join sep a b).toList.splitOn sep =
    a.toList.splitOn sep ++ b.toList.splitOn sep := by
  rw [join, String.toList_append, String.toList_append, String.toList_singleton,
    List.append_assoc, List.singleton_append, List.splitOn_append_cons_self]

/-- A join of texts without the separator is undone. -/
theorem split_join (ha : sep ∉ a.toList) (hb : sep ∉ b.toList) :
    split sep (join sep a b) = some (a, b) := by
  rw [split, splitOn_join, List.splitOn_eq_singleton ha, List.splitOn_eq_singleton hb]
  simp

/-- A join with a further separator does not split. -/
theorem split_join_of_mem (h : sep ∈ a.toList ∨ sep ∈ b.toList) :
    split sep (join sep a b) = none := by
  have hlen : 3 ≤ ((join sep a b).toList.splitOn sep).length := by
    rw [splitOn_join, List.length_append, length_splitOn, length_splitOn]
    rcases h with h | h
    · have := List.count_pos_iff.mpr h
      omega
    · have := List.count_pos_iff.mpr h
      omega
  rw [split]
  split
  · rename_i heq
    rw [heq] at hlen
    simp at hlen
  · rfl

/-- **Round trip**: a join is undone exactly when neither text contains the
separator. -/
theorem split_join_iff :
    split sep (join sep a b) = some (a, b) ↔ sep ∉ a.toList ∧ sep ∉ b.toList := by
  constructor
  · intro h
    rw [← not_or]
    intro hmem
    rw [split_join_of_mem hmem] at h
    cases h
  · rintro ⟨ha, hb⟩
    exact split_join ha hb

/-! ## prefixes -/

/-- What follows a prefix. -/
def stripPrefix (pre s : String) : Option String :=
  (List.isPrefixOf? pre.toList s.toList).map String.ofList

theorem isPrefixOf?_eq_some_iff {α : Type} [BEq α] [LawfulBEq α] {l₁ l₂ t : List α} :
    List.isPrefixOf? l₁ l₂ = some t ↔ l₂ = l₁ ++ t := by
  induction l₁ generalizing l₂ with
  | nil => simp [List.isPrefixOf?, eq_comm]
  | cons x l₁ ih =>
      cases l₂ with
      | nil => simp [List.isPrefixOf?]
      | cons y l₂ =>
          rw [List.isPrefixOf?, List.cons_append, List.cons.injEq]
          split
          · rename_i hxy
            rw [ih, eq_of_beq hxy]
            exact ⟨fun h => ⟨rfl, h⟩, fun h => h.2⟩
          · rename_i hxy
            constructor
            · intro h
              cases h
            · rintro ⟨rfl, _⟩
              exact absurd (beq_self_eq_true y) hxy

theorem stripPrefix_eq_some_iff {pre s t : String} :
    stripPrefix pre s = some t ↔ s = pre ++ t := by
  rw [stripPrefix, Option.map_eq_some_iff]
  constructor
  · rintro ⟨l, hl, rfl⟩
    rw [isPrefixOf?_eq_some_iff] at hl
    rw [← String.toList_inj, hl, String.toList_append, String.toList_ofList]
  · rintro rfl
    refine ⟨t.toList, ?_, String.ofList_toList⟩
    rw [isPrefixOf?_eq_some_iff, String.toList_append]

end Token
