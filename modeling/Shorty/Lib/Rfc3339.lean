import Mathlib.Algebra.Ring.Int.Defs
import Mathlib.Algebra.Ring.Nat
import Mathlib.Data.List.Basic
import Mathlib.Data.Int.Order.Basic
import Mathlib.Tactic.Common
import Mathlib.Tactic.SplitIfs

/-!
# Shorty.Lib.Rfc3339

Points of time as RFC 3339 texts, in UTC and for the years of four digits.  A time is a
number of nanoseconds since 1970, and its fraction of a second is printed with as many
digits as it needs: none, three, six or nine.  Reading undoes printing.

The calendar counts days from the first of March of the year 0, so that a leap day is
the last day of its year.
-/

namespace Rfc3339

/-! ## the calendar -/

/-- The days before a year. -/
def daysBefore (year : Int) : Int := year * 365 + year / 4 - year / 100 + year / 400

theorem daysBefore_eq (era : Int) {century quad single : Nat} (hcentury : century ≤ 3) (hquad : quad ≤ 24)
    (hsingle : single ≤ 3) :
    daysBefore (era * 400 + century * 100 + quad * 4 + single) =
      era * 146097 + century * 36524 + quad * 1461 + single * 365 := by
  have hquads : (era * 400 + century * 100 + quad * 4 + single) / 4 = era * 100 + century * 25 + quad := by
    omega
  have hcenturies : (era * 400 + century * 100 + quad * 4 + single) / 100 = era * 4 + century := by omega
  have heras : (era * 400 + century * 100 + quad * 4 + single) / 400 = era := by omega
  rw [daysBefore, hquads, hcenturies, heras]
  omega

/-- The year of a day, and which day of the year it is. -/
def yearOf (days : Int) : Int × Nat :=
  let day := (days % 146097).toNat
  -- the last century of four and the last year of four are a day longer
  let century := min (day / 36524) 3
  let day := day - century * 36524
  let quad := day / 1461
  let day := day - quad * 1461
  let single := min (day / 365) 3
  (days / 146097 * 400 + century * 100 + quad * 4 + single, day - single * 365)

theorem daysBefore_yearOf (days : Int) : daysBefore (yearOf days).1 + (yearOf days).2 = days := by
  unfold yearOf
  dsimp only
  rw [daysBefore_eq]
  · omega
  · omega
  · omega
  · omega

theorem snd_yearOf_lt (days : Int) : (yearOf days).2 < 366 := by
  unfold yearOf
  dsimp only
  omega

structure Date where
  year : Int
  month : Nat
  day : Nat
deriving DecidableEq

namespace Date

/-- The date of a day, counted from the first of January 1970. -/
def ofDays (days : Int) : Date :=
  let (year, day) := yearOf (days + 719468)
  -- from March on, months of 31 and 30 days take turns, and every sixth turn is skipped
  let month := (5 * day + 2) / 153
  { year := if month < 10 then year else year + 1
    month := if month < 10 then month + 3 else month - 9
    day := day - (153 * month + 2) / 5 + 1 }

/-- The day of a date. -/
def toDays (date : Date) : Int :=
  let year := if date.month < 3 then date.year - 1 else date.year
  let month := if date.month < 3 then date.month + 9 else date.month - 3
  daysBefore year + ((153 * month + 2) / 5 + date.day : Nat) - 719469

theorem toDays_ofDays (days : Int) : (ofDays days).toDays = days := by
  have hdays := daysBefore_yearOf (days + 719468)
  have hday := snd_yearOf_lt (days + 719468)
  unfold toDays ofDays
  generalize yearOf (days + 719468) = year at hdays hday ⊢
  obtain ⟨year, day⟩ := year
  dsimp only at hdays hday ⊢
  by_cases hmonth : (5 * day + 2) / 153 < 10
  · have hlater : ¬ (5 * day + 2) / 153 + 3 < 3 := by omega
    simp only [if_pos hmonth, if_neg hlater]
    omega
  · have hearly : (5 * day + 2) / 153 - 9 < 3 := by omega
    simp only [if_neg hmonth, if_pos hearly, add_sub_cancel_right]
    omega

theorem month_ofDays_lt (days : Int) : (ofDays days).month < 10 ^ 2 := by
  have hday := snd_yearOf_lt (days + 719468)
  unfold ofDays
  dsimp only
  split <;> omega

theorem day_ofDays_lt (days : Int) : (ofDays days).day < 10 ^ 2 := by
  have hday := snd_yearOf_lt (days + 719468)
  unfold ofDays
  dsimp only
  omega

example : ofDays 19782 = ⟨2024, 2, 29⟩ := by decide

end Date

/-! ## numbers of a fixed width -/

def digit (n : Nat) : Char := "0123456789".toList.getD n '0'

def value (c : Char) : Option Nat := "0123456789".toList.idxOf? c

theorem value_digit {n : Nat} (h : n < 10) : value (digit n) = some n := by
  have hall : ∀ n : Fin 10, value (digit n) = some n.val := by decide
  exact hall ⟨n, h⟩

/-- The last digits of a number. -/
def digits : Nat → Nat → List Char
  | 0, _ => []
  | width + 1, n => digits width (n / 10) ++ [digit (n % 10)]

def number (chars : List Char) : Option Nat :=
  chars.foldlM (fun n c => (value c).map (n * 10 + ·)) 0

theorem length_digits (width n : Nat) : (digits width n).length = width := by
  induction width generalizing n with
  | zero => rfl
  | succ width ih => simp [digits, ih]

theorem number_digits {width n : Nat} (h : n < 10 ^ width) : number (digits width n) = some n := by
  induction width generalizing n with
  | zero =>
      obtain rfl : n = 0 := by omega
      rfl
  | succ width ih =>
      have hinit := ih (n := n / 10) (by omega)
      unfold number at hinit ⊢
      rw [digits, List.foldlM_append, hinit]
      simp only [List.foldlM_cons, List.foldlM_nil, value_digit (Nat.mod_lt n (by decide : 10 > 0))]
      simp
      omega

/-- The digits of a fraction. -/
theorem isDigit_of_mem_digits {width n : Nat} {c : Char} (h : c ∈ digits width n) : c.isDigit = true := by
  induction width generalizing n with
  | zero => cases h
  | succ width ih =>
      rw [digits, List.mem_append, List.mem_singleton] at h
      rcases h with h | rfl
      · exact ih h
      · have hall : ∀ n : Fin 10, (digit n).isDigit = true := by decide
        exact hall ⟨n % 10, Nat.mod_lt n (by decide)⟩

/-! ## reading -/

/-- A number of some digits, and what comes after it. -/
def readNumber (width : Nat) (chars : List Char) : Option (Nat × List Char) :=
  (number (chars.take width)).map (fun n => (n, chars.drop width))

theorem readNumber_digits {width n : Nat} (h : n < 10 ^ width) (rest : List Char) :
    readNumber width (digits width n ++ rest) = some (n, rest) := by
  rw [readNumber, List.take_left' (length_digits width n), List.drop_left' (length_digits width n),
    number_digits h]
  rfl

/-- What comes after a character. -/
def readChar (c : Char) : List Char → Option (List Char)
  | d :: rest => if d = c then some rest else none
  | [] => none

theorem readChar_cons (c : Char) (rest : List Char) : readChar c (c :: rest) = some rest := if_pos rfl

/-- The fraction of a second, in nanoseconds. -/
def fraction (nanos : Nat) : List Char :=
  if nanos = 0 then []
  else if nanos % 10 ^ 6 = 0 then '.' :: digits 3 (nanos / 10 ^ 6)
  else if nanos % 10 ^ 3 = 0 then '.' :: digits 6 (nanos / 10 ^ 3)
  else '.' :: digits 9 nanos

def readFraction : List Char → Option (Nat × List Char)
  | '.' :: rest =>
      let digits := rest.takeWhile Char.isDigit
      if digits.length ≤ 9 then
        (number digits).map (fun n => (n * 10 ^ (9 - digits.length), rest.dropWhile Char.isDigit))
      else none
  | rest => some (0, rest)

/-- What comes after the seconds. -/
def utc : List Char := "+00:00".toList

theorem readFraction_digits {width n : Nat} (hwidth : width ≤ 9) (h : n < 10 ^ width) :
    readFraction ('.' :: digits width n ++ utc) = some (n * 10 ^ (9 - width), utc) := by
  have htake : (digits width n ++ utc).takeWhile Char.isDigit = digits width n := by
    have hnone : utc.takeWhile Char.isDigit = [] := by decide
    rw [List.takeWhile_append_of_pos (fun c hc => isDigit_of_mem_digits hc), hnone, List.append_nil]
  have hdrop : (digits width n ++ utc).dropWhile Char.isDigit = utc := by
    rw [List.dropWhile_append_of_pos (fun c hc => isDigit_of_mem_digits hc)]
    rfl
  rw [List.cons_append, readFraction, htake, hdrop, number_digits h, length_digits, if_pos hwidth]
  rfl

theorem readFraction_fraction {nanos : Nat} (h : nanos < 10 ^ 9) :
    readFraction (fraction nanos ++ utc) = some (nanos, utc) := by
  unfold fraction
  split_ifs with hzero hmillis hmicros
  · rw [hzero]
    rfl
  · rw [readFraction_digits (by decide) (by omega)]
    simp only [Option.some.injEq, Prod.mk.injEq, and_true]
    omega
  · rw [readFraction_digits (by decide) (by omega)]
    simp only [Option.some.injEq, Prod.mk.injEq, and_true]
    omega
  · rw [readFraction_digits (by decide) (by omega)]
    simp

/-! ## points of time -/

/-- Two numbers of two digits and one of a given width, with a character in between. -/
def triple (sep : Char) (width a b c : Nat) : List Char :=
  digits width a ++ sep :: (digits 2 b ++ sep :: digits 2 c)

def readTriple (sep : Char) (width : Nat) (chars : List Char) : Option ((Nat × Nat × Nat) × List Char) := do
  let (a, rest) ← readNumber width chars
  let rest ← readChar sep rest
  let (b, rest) ← readNumber 2 rest
  let rest ← readChar sep rest
  let (c, rest) ← readNumber 2 rest
  return ((a, b, c), rest)

theorem readTriple_triple (sep : Char) {width a b c : Nat} (ha : a < 10 ^ width) (hb : b < 10 ^ 2)
    (hc : c < 10 ^ 2) (rest : List Char) :
    readTriple sep width (triple sep width a b c ++ rest) = some ((a, b, c), rest) := by
  simp only [triple, List.append_assoc, List.cons_append, readTriple, readNumber_digits ha,
    readNumber_digits hb, readNumber_digits hc, readChar_cons, Option.bind_eq_bind, Option.bind_some,
    Option.pure_def]

/-- The text of a time, if its year has four digits. -/
def text? (ns : Int) : Option String :=
  let date := Date.ofDays (ns / (86400 * 10 ^ 9))
  let nanos := (ns % (86400 * 10 ^ 9)).toNat
  let secs := nanos / 10 ^ 9
  if 0 ≤ date.year ∧ date.year < 10 ^ 4 then
    some (String.ofList (triple '-' 4 date.year.toNat date.month date.day ++
      'T' :: (triple ':' 2 (secs / 3600) (secs / 60 % 60) (secs % 60) ++
        (fraction (nanos % 10 ^ 9) ++ utc))))
  else none

/-- The time of a text. -/
def parse (text : String) : Option Int := do
  let ((year, month, day), rest) ← readTriple '-' 4 text.toList
  let rest ← readChar 'T' rest
  let ((hour, minute, second), rest) ← readTriple ':' 2 rest
  let (nanos, rest) ← readFraction rest
  let date : Date := ⟨year, month, day⟩
  if Date.ofDays date.toDays = date ∧ hour < 24 ∧ minute < 60 ∧ second < 60 ∧ rest = utc then
    some (date.toDays * (86400 * 10 ^ 9) + ((hour * 3600 + minute * 60 + second) * 10 ^ 9 + nanos : Nat))
  else none

/-- **Round trip**: a text is read as the time it was printed for. -/
theorem parse_text {ns : Int} {text : String} (h : text? ns = some text) : parse text = some ns := by
  unfold text? at h
  dsimp only at h
  split at h
  · rename_i hyear
    have hmonth := Date.month_ofDays_lt (ns / (86400 * 10 ^ 9))
    have hday := Date.day_ofDays_lt (ns / (86400 * 10 ^ 9))
    have hround := Date.toDays_ofDays (ns / (86400 * 10 ^ 9))
    generalize hdays : Date.ofDays (ns / (86400 * 10 ^ 9)) = date at h hyear hmonth hday hround
    have hdate : (⟨date.year.toNat, date.month, date.day⟩ : Date) = date := by
      have hnonneg := Int.toNat_of_nonneg hyear.1
      rw [hnonneg]
    have hnanos : (ns % (86400 * 10 ^ 9)).toNat < 86400 * 10 ^ 9 := by omega
    have hns : ns = ns / (86400 * 10 ^ 9) * (86400 * 10 ^ 9) + (ns % (86400 * 10 ^ 9)).toNat := by omega
    generalize (ns % (86400 * 10 ^ 9)).toNat = nanos at h hnanos hns
    have hhour : nanos / 10 ^ 9 / 3600 < 10 ^ 2 := by omega
    have hminute : nanos / 10 ^ 9 / 60 % 60 < 10 ^ 2 := by omega
    have hsecond : nanos / 10 ^ 9 % 60 < 10 ^ 2 := by omega
    have hfraction : nanos % 10 ^ 9 < 10 ^ 9 := by omega
    rw [← Option.some.inj h, parse, String.toList_ofList, readTriple_triple '-' (by omega) hmonth hday]
    simp only [Option.bind_eq_bind, Option.bind_some, readChar_cons]
    rw [readTriple_triple ':' hhour hminute hsecond]
    simp only [Option.bind_some]
    rw [readFraction_fraction hfraction]
    simp only [Option.bind_some, hdate, hround]
    rw [if_pos ⟨hdays, by omega, by omega, by omega, trivial⟩, Option.some_inj]
    omega
  · cases h

example : text? 1709210096250000000 = some "2024-02-29T12:34:56.250+00:00" := by decide

end Rfc3339
