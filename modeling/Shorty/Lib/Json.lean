import Mathlib.Data.List.Basic
import Mathlib.Tactic.Common

/-!
# Shorty.Lib.Json

Pairs of texts in compact JSON.  A quote, a backslash and the control characters are
escaped, those without a letter of their own by the number of their byte; every other
character stands for itself.  Reading undoes printing.
-/

namespace Json

/-! ## characters -/

/-- The characters that are escaped by a letter. -/
def letters : List (Char × Char) :=
  [('"', '"'), ('\\', '\\'), (Char.ofNat 8, 'b'), (Char.ofNat 12, 'f'), ('\n', 'n'), ('\r', 'r'),
    ('\t', 't')]

/-- The character a letter stands for. -/
def unescape (letter : Char) : Option Char := (letters.map Prod.swap).lookup letter

def hexDigit (n : Nat) : Char := "0123456789abcdef".toList.getD n '0'

def hexValue (c : Char) : Option Nat := "0123456789abcdef".toList.idxOf? c

theorem hexValue_hexDigit {n : Nat} (h : n < 16) : hexValue (hexDigit n) = some n := by
  have hall : ∀ n : Fin 16, hexValue (hexDigit n) = some n.val := by decide
  exact hall ⟨n, h⟩

/-- A character within a string. -/
def escape (c : Char) : List Char :=
  match letters.lookup c with
  | some letter => ['\\', letter]
  | none =>
      if c.toNat < 0x20 then ['\\', 'u', '0', '0', hexDigit (c.toNat / 16), hexDigit (c.toNat % 16)]
      else [c]

/-- A text that is printed as it is. -/
def Plain (chars : List Char) : Prop := ∀ c ∈ chars, 0x20 ≤ c.toNat ∧ c ≠ '"' ∧ c ≠ '\\'

theorem flatMap_escape_of_plain {chars : List Char} (h : Plain chars) : chars.flatMap escape = chars := by
  have hself : ∀ c ∈ chars, escape c = [c] := by
    intro c hc
    obtain ⟨hvisible, hquote, hslash⟩ := h c hc
    have hcontrol : ∀ d ∈ [Char.ofNat 8, Char.ofNat 12, '\n', '\r', '\t'], c ≠ d := by
      rintro d hd rfl
      have hsmall : ∀ d ∈ [Char.ofNat 8, Char.ofNat 12, '\n', '\r', '\t'], d.toNat < 0x20 := by simp
      exact absurd (hsmall c hd) (Nat.not_lt.mpr hvisible)
    have hnone : letters.lookup c = none := by
      rw [List.lookup_eq_none_iff]
      simp only [letters, List.forall_mem_cons] at hcontrol ⊢
      simp [hquote, hslash, hcontrol]
    rw [escape, hnone]
    exact if_neg (Nat.not_lt.mpr hvisible)
  rw [List.flatMap_congr hself, List.flatMap_singleton']

/-! ## strings -/

/-- A string past its opening quote: its characters, and what comes after the closing
one.  Of the escapes by number those of a byte are read. -/
def readChars : List Char → Option (List Char × List Char)
  | '"' :: rest => some ([], rest)
  | '\\' :: 'u' :: '0' :: '0' :: a :: b :: rest => do
      let high ← hexValue a
      let low ← hexValue b
      let (chars, rest) ← readChars rest
      return (Char.ofNat (high * 16 + low) :: chars, rest)
  | '\\' :: letter :: rest => do
      let c ← unescape letter
      let (chars, rest) ← readChars rest
      return (c :: chars, rest)
  | c :: rest => do
      let (chars, rest) ← if c.toNat < 0x20 then none else readChars rest
      return (c :: chars, rest)
  | [] => none

theorem readChars_escape (c : Char) (chars : List Char) :
    readChars (escape c ++ chars) = (readChars chars).map (fun read => (c :: read.1, read.2)) := by
  unfold escape
  cases hletter : letters.lookup c with
  | some letter =>
      obtain ⟨before, after, hletters, _⟩ := List.lookup_eq_some_iff.mp hletter
      have hmem : (c, letter) ∈ letters := by simp [hletters]
      have hread : ∀ p ∈ letters, p.2 ≠ 'u' ∧ unescape p.2 = some p.1 := by decide
      obtain ⟨hu, hc⟩ := hread _ hmem
      simp only [List.cons_append, List.nil_append]
      rw [readChars, hc]
      · cases readChars chars <;> rfl
      · rintro a b rest heq
        exact absurd heq hu
  | none =>
      dsimp only
      split
      · rename_i hcontrol
        have hnum : c.toNat / 16 * 16 + c.toNat % 16 = c.toNat := by omega
        simp only [List.cons_append, List.nil_append]
        rw [readChars, hexValue_hexDigit (by omega), hexValue_hexDigit (by omega)]
        simp only [Option.bind_eq_bind, Option.bind_some, hnum, Char.ofNat_toNat]
        cases readChars chars <;> rfl
      · rename_i hvisible
        have hquote : c ≠ '"' := by
          rintro rfl
          cases hletter
        have hslash : c ≠ '\\' := by
          rintro rfl
          cases hletter
        rw [List.singleton_append, readChars]
        · rw [if_neg hvisible]
          cases readChars chars <;> rfl
        · exact fun heq => hquote heq
        · exact fun _ _ _ heq => absurd heq hslash
        · exact fun _ _ heq => absurd heq hslash

theorem readChars_print (chars rest : List Char) :
    readChars (chars.flatMap escape ++ '"' :: rest) = some (chars, rest) := by
  induction chars with
  | nil => rfl
  | cons c chars ih => rw [List.flatMap_cons, List.append_assoc, readChars_escape, ih, Option.map_some]

/-! ## pairs -/

/-- A string with its quotes. -/
def print (text : String) : List Char := '"' :: (text.toList.flatMap escape ++ ['"'])

def printPair (pair : String × String) : String :=
  String.ofList ('[' :: (print pair.1 ++ ',' :: (print pair.2 ++ [']'])))

def readPair (text : String) : Option (String × String) :=
  match text.toList with
  | '[' :: '"' :: rest => do
      let (left, rest) ← readChars rest
      match rest with
      | ',' :: '"' :: rest =>
          let (right, rest) ← readChars rest
          if rest = [']'] then some (String.ofList left, String.ofList right) else none
      | _ => none
  | _ => none

theorem readPair_printPair (pair : String × String) : readPair (printPair pair) = some pair := by
  have htext : (printPair pair).toList = '[' :: '"' :: (pair.1.toList.flatMap escape ++
      '"' :: ',' :: '"' :: (pair.2.toList.flatMap escape ++ '"' :: [']'])) := by
    simp [printPair, print]
  rw [readPair, htext]
  simp [readChars_print]

/-- Plain texts are printed between the quotes as they are. -/
theorem printPair_of_plain {left right : String} (hleft : Plain left.toList) (hright : Plain right.toList) :
    printPair (left, right) = "[\"" ++ left ++ "\",\"" ++ right ++ "\"]" := by
  apply String.toList_injective
  simp [printPair, print, flatMap_escape_of_plain hleft, flatMap_escape_of_plain hright]

-- a quote and a line break
example : printPair ("a\"b", "\n") = "[\"a\\\"b\",\"\\n\"]" := by decide

end Json
