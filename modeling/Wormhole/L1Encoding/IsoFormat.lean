import Mathlib.Algebra.GroupWithZero.Nat
import Mathlib.Data.List.Basic

/-!
# `datetime.isoformat`

A Python `datetime` with a fixed UTC offset or none, its place on the time line,
and the text of `isoformat()`: `%04d-%02d-%02dT%02d:%02d:%02d`, the microseconds
if there are any, and the offset, with its seconds and microseconds if there are
any.

The text has one `T`, and ten characters before it. That makes it readable from
the end of a longer text, whatever stands in front of it (`isoformat_append_inj`).
-/
namespace Wormhole.L1

/-! ## Decimal digits of fixed width -/

/-- `'%0wd' % n`, for an `n` of at most `w` digits. -/
def digits : Nat → Nat → List Char
  | 0, _ => []
  | w + 1, n => digits w (n / 10) ++ [(n % 10).digitChar]

@[simp] theorem length_digits (w n : Nat) : (digits w n).length = w := by
  induction w generalizing n with
  | zero => rfl
  | succ w ih => simp [digits, ih]

theorem isDigit_of_mem_digits {w n : Nat} {c : Char} (h : c ∈ digits w n) : c.isDigit = true := by
  induction w generalizing n with
  | zero => cases h
  | succ w ih =>
    rcases List.mem_append.mp h with hl | hr
    · exact ih hl
    · rw [List.mem_singleton.mp hr, Nat.isDigit_digitChar]
      exact decide_eq_true (Nat.mod_lt n (by omega))

theorem notMem_digits {c : Char} (hc : c.isDigit = false) (w n : Nat) : c ∉ digits w n := by
  intro h
  rw [isDigit_of_mem_digits h] at hc
  cases hc

/-! ## Dates and times -/

def isLeap (year : Nat) : Bool := year % 4 = 0 && (year % 100 ≠ 0 || year % 400 = 0)

def daysInMonth (year month : Nat) : Nat :=
  if month = 2 then if isLeap year then 29 else 28
  else if month = 4 ∨ month = 6 ∨ month = 9 ∨ month = 11 then 30
  else 31

/-- A `utcoffset()`: a `timedelta` of less than a day, in microseconds. -/
structure UtcOffset where
  microseconds : Int
  lt_day : microseconds.natAbs < 86400000000
  deriving DecidableEq

/-- A `datetime`; without an offset it is naive. -/
structure DateTime where
  year : Nat
  month : Nat
  day : Nat
  hour : Nat
  minute : Nat
  second : Nat
  microsecond : Nat
  utcoffset : Option UtcOffset
  year_mem : 1 ≤ year ∧ year ≤ 9999
  month_mem : 1 ≤ month ∧ month ≤ 12
  day_mem : 1 ≤ day ∧ day ≤ daysInMonth year month
  time_mem : hour < 24 ∧ minute < 60 ∧ second < 60 ∧ microsecond < 1000000
  deriving DecidableEq

/-- Days before January 1st of the year. -/
def daysBeforeYear (year : Nat) : Nat :=
  (year - 1) * 365 + (year - 1) / 4 - (year - 1) / 100 + (year - 1) / 400

/-- Days before the first of the month. -/
def daysBeforeMonth (year month : Nat) : Nat :=
  ((List.range (month - 1)).map fun m => daysInMonth year (m + 1)).sum

/-- `date.toordinal()`: 1 is January 1st of the year 1. -/
def DateTime.toordinal (t : DateTime) : Nat :=
  daysBeforeYear t.year + daysBeforeMonth t.year t.month + t.day

/-- Microseconds of the clock's reading, since the start of the year 1. -/
def DateTime.clock (t : DateTime) : Int :=
  ((((t.toordinal - 1) * 24 + t.hour) * 60 + t.minute) * 60 + t.second) * 1000000 + t.microsecond

/-- The moment in UTC, in microseconds since the start of the year 1; a naive
`datetime` has none. -/
def DateTime.utc (t : DateTime) : Option Int :=
  t.utcoffset.map fun off => t.clock - off.microseconds

/-! ## `isoformat` -/

/-- `%02d:%02d`, and `:%02d` and `.%06d` when there are seconds and microseconds. -/
def UtcOffset.text (off : UtcOffset) : List Char :=
  let n := off.microseconds.natAbs
  let seconds := n / 1000000 % 60
  let microseconds := n % 1000000
  (if off.microseconds < 0 then '-' else '+') ::
    (digits 2 (n / 3600000000) ++ ':' :: digits 2 (n / 60000000 % 60) ++
    ((if seconds ≠ 0 ∨ microseconds ≠ 0 then ':' :: digits 2 seconds else []) ++
    (if microseconds ≠ 0 then '.' :: digits 6 microseconds else [])))

def DateTime.dateText (t : DateTime) : List Char :=
  digits 4 t.year ++ '-' :: digits 2 t.month ++ '-' :: digits 2 t.day

def DateTime.timeText (t : DateTime) : List Char :=
  digits 2 t.hour ++ ':' :: digits 2 t.minute ++ ':' :: digits 2 t.second ++
    (if t.microsecond ≠ 0 then '.' :: digits 6 t.microsecond else []) ++
    (match t.utcoffset with
      | some off => off.text
      | none => [])

/-- `datetime.isoformat()`. -/
def DateTime.isoformat (t : DateTime) : String :=
  String.ofList (t.dateText ++ 'T' :: t.timeText)

/-! ## The shape of the text -/

@[simp] theorem toList_isoformat (t : DateTime) :
    t.isoformat.toList = t.dateText ++ 'T' :: t.timeText :=
  String.toList_ofList

@[simp] theorem length_dateText (t : DateTime) : t.dateText.length = 10 := by
  simp [DateTime.dateText]

theorem notMem_offsetText (off : UtcOffset) : 'T' ∉ off.text := by
  have hd := notMem_digits (c := 'T') (by decide)
  unfold UtcOffset.text
  dsimp only
  split <;> split <;> split <;> simp [hd]

theorem notMem_timeText (t : DateTime) : 'T' ∉ t.timeText := by
  have hd := notMem_digits (c := 'T') (by decide)
  have hoff : 'T' ∉ (match t.utcoffset with
      | some off => off.text
      | none => []) := by
    split
    · exact notMem_offsetText _
    · exact List.not_mem_nil
  have hus : 'T' ∉ if t.microsecond ≠ 0 then '.' :: digits 6 t.microsecond else [] := by
    split <;> simp [hd]
  unfold DateTime.timeText
  simp only [List.mem_append, List.mem_cons, hd, hoff, hus]
  decide

/-- A text divides in one way at the last occurrence of a character. -/
theorem append_last_inj {a : Char} {xs ys us vs : List Char} (h : xs ++ a :: us = ys ++ a :: vs)
    (hu : a ∉ us) (hv : a ∉ vs) : xs = ys ∧ us = vs := by
  rcases List.append_eq_append_iff.mp h with ⟨c, rfl, hc⟩ | ⟨c, rfl, hc⟩
  · cases c with
    | nil => exact ⟨(List.append_nil xs).symm, by simpa using hc⟩
    | cons b c =>
      cases hc
      exact absurd (List.mem_append_right c List.mem_cons_self) hu
  · cases c with
    | nil => exact ⟨List.append_nil ys, by simpa using hc.symm⟩
    | cons b c =>
      cases hc
      exact absurd (List.mem_append_right c List.mem_cons_self) hv

/-- **Readable from the end.** The last `T` of the text is the one of the
`isoformat`, which starts ten characters before it. -/
theorem isoformat_append_inj {xs ys : List Char} {t u : DateTime}
    (h : xs ++ t.isoformat.toList = ys ++ u.isoformat.toList) :
    xs = ys ∧ t.isoformat = u.isoformat := by
  simp only [toList_isoformat, ← List.append_assoc] at h
  obtain ⟨hfront, htime⟩ := append_last_inj h (notMem_timeText t) (notMem_timeText u)
  have hlen : t.dateText.length = u.dateText.length := by simp
  obtain ⟨hxs, hdate⟩ := List.append_inj' hfront hlen
  refine ⟨hxs, ?_⟩
  rw [DateTime.isoformat, DateTime.isoformat, hdate, htime]

end Wormhole.L1
