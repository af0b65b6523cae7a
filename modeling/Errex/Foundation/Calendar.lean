import Errex.Foundation.Text

/-!
# The Gregorian calendar

Days are counted from 1970-01-01. A later day has a later date (`date_lt_date`), and a later text
`YYYY-MM-DD` as long as the year has four digits (`dateText_lt_dateText`), so texts of dates sort
by time.
-/

namespace Errex.Foundation.Calendar
open Text

def yearStart (year : Int) : Int :=
  365 * year + (year - 1) / 4 - (year - 1) / 100 + (year - 1) / 400 - 719527

def isLeap (year : Int) : Bool := year % 4 == 0 && (year % 100 != 0 || year % 400 == 0)

/-- The year of a day: 400 years have 146097 days, and the proportional guess is at most one off. -/
def yearOf (day : Int) : Int :=
  let guess := 400 * (day + 719528) / 146097
  if day < yearStart guess then guess - 1
  else if yearStart (guess + 1) ≤ day then guess + 1
  else guess

theorem yearStart_monotone : Monotone yearStart := by
  intro y z le
  unfold yearStart
  omega

theorem yearStart_succ (year : Int) :
    yearStart (year + 1) = yearStart year + if isLeap year then 366 else 365 := by
  have four : year / 4 = (year - 1) / 4 + if year % 4 = 0 then 1 else 0 := by split_ifs <;> omega
  have hundred : year / 100 = (year - 1) / 100 + if year % 100 = 0 then 1 else 0 := by
    split_ifs <;> omega
  have fourHundred : year / 400 = (year - 1) / 400 + if year % 400 = 0 then 1 else 0 := by
    split_ifs <;> omega
  have coarse : (year % 400 = 0 → year % 100 = 0) ∧ (year % 100 = 0 → year % 4 = 0) := by omega
  simp only [yearStart, isLeap, add_sub_cancel_right, four, hundred, fourHundred,
    Bool.and_eq_true, Bool.or_eq_true, beq_iff_eq, bne_iff_ne]
  split_ifs <;> omega

theorem yearStart_bounds (year : Int) :
    146097 * year - 396 ≤ 400 * (yearStart year + 719528) ∧
      400 * (yearStart year + 719528) ≤ 146097 * year + 699 := by
  unfold yearStart
  omega

theorem yearStart_yearOf_le (day : Int) : yearStart (yearOf day) ≤ day := by
  have := yearStart_bounds (400 * (day + 719528) / 146097 - 1)
  simp only [yearOf]
  split_ifs <;> omega

theorem lt_yearStart_yearOf (day : Int) : day < yearStart (yearOf day + 1) := by
  have := yearStart_bounds (400 * (day + 719528) / 146097 + 1 + 1)
  simp only [yearOf]
  split_ifs
  · rwa [sub_add_cancel]
  · omega
  · omega

theorem le_yearOf_iff {year day : Int} : year ≤ yearOf day ↔ yearStart year ≤ day := by
  constructor
  · intro le
    exact (yearStart_monotone le).trans (yearStart_yearOf_le day)
  · intro le
    by_contra earlier
    have : yearStart (yearOf day + 1) ≤ yearStart year := yearStart_monotone (by omega)
    have := lt_yearStart_yearOf day
    omega

theorem yearOf_mono {d e : Int} (le : d ≤ e) : yearOf d ≤ yearOf e :=
  le_yearOf_iff.mpr ((yearStart_yearOf_le d).trans le)

def monthLengths (leap : Bool) : List Nat :=
  [31, if leap then 29 else 28, 31, 30, 31, 30, 31, 31, 30, 31, 30, 31]

def monthDay : List Nat → Nat → Nat × Nat
  | [], ordinal => (0, ordinal)
  | length :: rest, ordinal =>
      if ordinal < length then (0, ordinal)
      else
        let later := monthDay rest (ordinal - length)
        (later.1 + 1, later.2)

theorem monthDay_lt_monthDay (lengths : List Nat) {a b : Nat} (lt : a < b) :
    (monthDay lengths a).1 < (monthDay lengths b).1 ∨
      (monthDay lengths a).1 = (monthDay lengths b).1 ∧ (monthDay lengths a).2 < (monthDay lengths b).2 := by
  induction lengths generalizing a b with
  | nil => exact .inr ⟨rfl, lt⟩
  | cons length rest ih =>
      simp only [monthDay]
      split_ifs
      · exact .inr ⟨rfl, lt⟩
      · exact .inl (Nat.succ_pos _)
      · omega
      · have := ih (a := a - length) (b := b - length) (by omega)
        omega

theorem monthDay_bounds {lengths : List Nat} {ordinal : Nat} (inside : ordinal < lengths.sum)
    (short : ∀ length ∈ lengths, length ≤ 31) :
    (monthDay lengths ordinal).1 < lengths.length ∧ (monthDay lengths ordinal).2 < 31 := by
  induction lengths generalizing ordinal with
  | nil => simp at inside
  | cons length rest ih =>
      simp only [List.sum_cons] at inside
      simp only [monthDay]
      split_ifs with first
      · have := short length (by simp)
        simp only [List.length_cons]
        omega
      · have inside : ordinal - length < rest.sum := by omega
        have := ih inside fun l h => short l (by simp [h])
        simp only [List.length_cons]
        omega

structure Date where
  year : Int
  month : Nat
  day : Nat
  deriving DecidableEq, Repr

def date (day : Int) : Date :=
  let year := yearOf day
  let position := monthDay (monthLengths (isLeap year)) (day - yearStart year).toNat
  ⟨year, position.1 + 1, position.2 + 1⟩

@[simp] theorem date_year (day : Int) : (date day).year = yearOf day := rfl

theorem date_lt_date {d e : Int} (lt : d < e) :
    (date d).year < (date e).year ∨ (date d).year = (date e).year ∧
      ((date d).month < (date e).month ∨
        (date d).month = (date e).month ∧ (date d).day < (date e).day) := by
  rcases (yearOf_mono lt.le).lt_or_eq with earlier | same
  · exact .inl earlier
  · have := yearStart_yearOf_le d
    have ordinal : (d - yearStart (yearOf d)).toNat < (e - yearStart (yearOf e)).toNat := by
      rw [← same]
      omega
    have := monthDay_lt_monthDay (monthLengths (isLeap (yearOf e))) ordinal
    refine .inr ⟨same, ?_⟩
    simp only [date, same] at this ⊢
    omega

theorem date_bounds (day : Int) : (date day).month ≤ 12 ∧ (date day).day ≤ 31 := by
  have := yearStart_yearOf_le day
  have := lt_yearStart_yearOf day
  rw [yearStart_succ] at this
  have inside : (day - yearStart (yearOf day)).toNat < (monthLengths (isLeap (yearOf day))).sum := by
    cases h : isLeap (yearOf day) <;> simp only [h, monthLengths] at this ⊢ <;> simp at this ⊢ <;> omega
  have short : ∀ length ∈ monthLengths (isLeap (yearOf day)), length ≤ 31 := by
    cases isLeap (yearOf day) <;> decide
  obtain ⟨month, dom⟩ := monthDay_bounds inside short
  have twelve : (monthLengths (isLeap (yearOf day))).length = 12 := rfl
  simp only [date]
  omega

def dateText (d : Date) : List Char :=
  digits 4 d.year.toNat ++ '-' :: digits 2 d.month ++ '-' :: digits 2 d.day

@[simp] theorem dateText_length (d : Date) : (dateText d).length = 10 := by simp [dateText]

theorem dateText_eq_cons (d : Date) : ∃ c rest, dateText d = c :: rest ∧ '0' ≤ c := by
  obtain ⟨c, rest, h⟩ := List.exists_cons_of_length_pos (l := digits 4 d.year.toNat) (by simp)
  simp only [dateText, h, List.cons_append]
  have mem : c ∈ digits 4 d.year.toNat := by simp [h]
  exact ⟨c, _, rfl, zero_le_of_mem_digits mem⟩

def FourDigitYear (day : Int) : Prop := 0 ≤ yearOf day ∧ yearOf day < 10000

instance (day : Int) : Decidable (FourDigitYear day) := inferInstanceAs (Decidable (_ ∧ _))

theorem dateText_lt_dateText {d e : Int} (hd : FourDigitYear d) (he : FourDigitYear e) (lt : d < e) :
    dateText (date d) < dateText (date e) := by
  have low := hd.1
  have high := he.2
  have := date_bounds e
  simp only [dateText, List.append_assoc, List.cons_append]
  rw [append_lt_append_iff (by simp)]
  rcases date_lt_date lt with year | ⟨year, later⟩
  · simp only [date_year] at year
    exact .inl (digits_lt_digits (by simp only [date_year]; omega) (by simp only [date_year]; omega))
  · refine .inr ⟨by rw [year], ?_⟩
    rw [List.cons_lt_cons_iff]
    refine .inr ⟨rfl, ?_⟩
    rw [append_lt_append_iff (by simp)]
    rcases later with month | ⟨month, dom⟩
    · exact .inl (digits_lt_digits month (by omega))
    · refine .inr ⟨by rw [month], ?_⟩
      rw [List.cons_lt_cons_iff]
      exact .inr ⟨rfl, digits_lt_digits dom (by omega)⟩

example : dateText (date 20571) = "2026-04-28".toList := by decide

end Errex.Foundation.Calendar
