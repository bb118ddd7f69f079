import Mathlib.Data.List.Basic
import Mathlib.Data.String.Basic

/-!
# Shorty.Lib.Routing

Tables of path patterns, and the search for the entry a path takes.  At every
segment a literal wins over a parameter and a parameter over a catch-all,
whatever the order of the table; a choice that leads nowhere is taken back.
A parameter or a catch-all takes no empty text at the end of a path; before
another segment a parameter may be empty.
-/

namespace Routing

/-- A segment of a pattern: a text, a parameter, or all that is left. -/
inductive Segment where
  | lit (text : String)
  | param
  | rest
deriving DecidableEq

/-- Entries under their patterns. -/
abbrev Table (α : Type) := List (List Segment × α)

namespace Table

variable {α : Type}

/-- What a table leads to after a segment of its patterns. -/
def after (seg : Segment) (t : Table α) : Table α :=
  t.filterMap fun r => match r.1 with
    | s :: pattern => if s = seg then some (pattern, r.2) else none
    | [] => none

/-- The entry whose pattern ends here. -/
def here (t : Table α) : Option α := (t.find? (fun r => r.1.isEmpty)).map Prod.snd

/-- The entry a path takes, with the texts of its parameters. -/
def lookup : List String → Table α → Option (α × List String)
  | [], t => t.here.map (fun a => (a, []))
  | text :: path, t =>
      (lookup path (t.after (.lit text))).or
        ((if text = "" ∧ path = [] then none
          else (lookup path (t.after .param)).map (fun r => (r.1, text :: r.2))).or
        (if text = "" ∧ path = [] then none
          else (t.after .rest).here.map (fun a => (a, ["/".intercalate (text :: path)]))))

/-- The entries of patterns below a common one. -/
def nest (pre : List Segment) (t : Table α) : Table α := t.map (fun r => (pre ++ r.1, r.2))

/-- The texts that are patterns of one segment. -/
def literals (t : Table α) : List String :=
  t.filterMap fun r => match r.1 with
    | [.lit text] => some text
    | _ => none

variable {t : Table α} {text : String} {a : α}

/-! ## entries -/

theorem mem_of_mem_after {seg : Segment} {pattern : List Segment} (h : (pattern, a) ∈ t.after seg) :
    (seg :: pattern, a) ∈ t := by
  obtain ⟨r, hr, hafter⟩ := List.mem_filterMap.mp h
  split at hafter
  · rename_i s rest heq
    split at hafter
    · rename_i hs
      simp only [Option.some.injEq, Prod.mk.injEq] at hafter
      obtain ⟨rfl, rfl⟩ := hafter
      rw [← hs, ← heq]
      exact hr
    · cases hafter
  · cases hafter

theorem mem_of_here (h : t.here = some a) : ([], a) ∈ t := by
  obtain ⟨r, hr, rfl⟩ := Option.map_eq_some_iff.mp h
  have hnil : r.1 = [] := by simpa using List.find?_some hr
  have hmem : r ∈ t := List.mem_of_find?_eq_some hr
  rw [← hnil]
  exact hmem

/-- A path fits a pattern, with the texts of its parameters. -/
inductive Matches : List Segment → List String → List String → Prop where
  | nil : Matches [] [] []
  | lit {text : String} {pattern : List Segment} {path captures : List String}
      (h : Matches pattern path captures) : Matches (.lit text :: pattern) (text :: path) captures
  | param {text : String} {pattern : List Segment} {path captures : List String}
      (hne : ¬ (text = "" ∧ path = [])) (h : Matches pattern path captures) :
      Matches (.param :: pattern) (text :: path) (text :: captures)
  | rest {text : String} {path : List String} (hne : ¬ (text = "" ∧ path = [])) :
      Matches [.rest] (text :: path) ["/".intercalate (text :: path)]

theorem matches_nil_iff {path captures : List String} :
    Matches [] path captures ↔ path = [] ∧ captures = [] := by
  constructor
  · rintro ⟨⟩
    exact ⟨rfl, rfl⟩
  · rintro ⟨rfl, rfl⟩
    exact .nil

theorem matches_lit_iff {pattern : List Segment} {path captures : List String} :
    Matches (.lit text :: pattern) path captures ↔
      ∃ path', path = text :: path' ∧ Matches pattern path' captures := by
  constructor
  · rintro (_ | h)
    exact ⟨_, rfl, h⟩
  · rintro ⟨path', rfl, h⟩
    exact .lit h

theorem matches_param_iff {pattern : List Segment} {path captures : List String} :
    Matches (.param :: pattern) path captures ↔
      ∃ text path' captures', path = text :: path' ∧ captures = text :: captures' ∧
        ¬ (text = "" ∧ path' = []) ∧ Matches pattern path' captures' := by
  constructor
  · intro h
    cases h with
    | param hne h => exact ⟨_, _, _, rfl, rfl, hne, h⟩
  · rintro ⟨text, path', captures', rfl, rfl, hne, h⟩
    exact .param hne h

/-- A path takes an entry whose pattern it fits. -/
theorem matches_of_lookup {path captures : List String} (h : t.lookup path = some (a, captures)) :
    ∃ pattern, (pattern, a) ∈ t ∧ Matches pattern path captures := by
  induction path generalizing t captures with
  | nil =>
      rw [lookup, Option.map_eq_some_iff] at h
      obtain ⟨a', ha', heq⟩ := h
      simp only [Prod.mk.injEq] at heq
      obtain ⟨rfl, rfl⟩ := heq
      exact ⟨[], mem_of_here ha', .nil⟩
  | cons text path ih =>
      rw [lookup, Option.or_eq_some_iff, Option.or_eq_some_iff] at h
      rcases h with hlit | ⟨_, hparam | ⟨_, hrest⟩⟩
      · obtain ⟨pattern, hmem, hfits⟩ := ih hlit
        exact ⟨_, mem_of_mem_after hmem, .lit hfits⟩
      · split at hparam
        · cases hparam
        · rename_i hne
          obtain ⟨r, hr, heq⟩ := Option.map_eq_some_iff.mp hparam
          simp only [Prod.mk.injEq] at heq
          obtain ⟨rfl, rfl⟩ := heq
          obtain ⟨pattern, hmem, hfits⟩ := ih hr
          exact ⟨_, mem_of_mem_after hmem, .param hne hfits⟩
      · split at hrest
        · cases hrest
        · rename_i hne
          obtain ⟨a', ha', heq⟩ := Option.map_eq_some_iff.mp hrest
          simp only [Prod.mk.injEq] at heq
          obtain ⟨rfl, rfl⟩ := heq
          exact ⟨_, mem_of_mem_after (mem_of_here ha'), .rest hne⟩

/-- A path takes an entry of the table. -/
theorem mem_of_lookup {path captures : List String} (h : t.lookup path = some (a, captures)) :
    ∃ pattern, (pattern, a) ∈ t := by
  obtain ⟨pattern, hmem, _⟩ := matches_of_lookup h
  exact ⟨pattern, hmem⟩

/-! ## paths of one segment -/

theorem here_eq_none_iff : t.here = none ↔ ∀ r ∈ t, r.1 ≠ [] := by
  simp [here, List.find?_eq_none]

/-- A text leads somewhere exactly when it is a pattern. -/
theorem here_after_lit_eq_none_iff : (t.after (.lit text)).here = none ↔ text ∉ t.literals := by
  rw [here_eq_none_iff, after, literals]
  constructor
  · intro h hmem
    obtain ⟨r, hr, hlit⟩ := List.mem_filterMap.mp hmem
    split at hlit
    · rename_i heq
      cases hlit
      have hafter : ([], r.2) ∈ t.after (.lit text) :=
        List.mem_filterMap.mpr ⟨r, hr, by simp [heq]⟩
      exact h _ hafter rfl
    · cases hlit
  · intro h r hmem hnil
    obtain ⟨r', hr', hafter⟩ := List.mem_filterMap.mp hmem
    split at hafter
    · rename_i s pattern heq
      split at hafter
      · rename_i hs
        cases hafter
        refine h (List.mem_filterMap.mpr ⟨r', hr', ?_⟩)
        simp only at hnil
        rw [heq, hs, hnil]
      · cases hafter
    · cases hafter

/-- A text that is no pattern takes the parameter. -/
theorem lookup_param (ha : (t.after .param).here = some a) (hne : text ≠ "")
    (h : text ∉ t.literals) : t.lookup [text] = some (a, [text]) := by
  rw [lookup, lookup, here_after_lit_eq_none_iff.mpr h, if_neg (fun hc => hne hc.1), lookup, ha]
  rfl

/-- A text that is a pattern does not. -/
theorem lookup_lit (ha : (t.after (.lit text)).here = some a) :
    t.lookup [text] = some (a, []) := by
  rw [lookup, lookup, ha]
  rfl

/-- The empty text takes nothing but a pattern. -/
theorem lookup_empty (h : "" ∉ t.literals) : t.lookup [""] = none := by
  rw [lookup, lookup, here_after_lit_eq_none_iff.mpr h]
  rfl

end Table

end Routing
