import Errex.Model.Time

/-!
# Reading times back

What `parse_from_rfc3339` makes of the texts that the daemon writes. The fields of a date and a time of
day are read as written (`parseFromRfc3339_fields`), so that the fraction and the offset decide.
-/

namespace Errex.Proof.Rfc3339
open Foundation Calendar Text Model

def numeral (s : List Char) : Nat := s.foldl (fun n c => 10 * n + (c.toNat - 48)) 0

theorem digitChar_toNat : ∀ {n : Nat}, n < 10 → (Nat.digitChar n).toNat - 48 = n ∧ (Nat.digitChar n).isDigit = true := by
  intro n small
  interval_cases n <;> decide

theorem numeral_digits (width n : Nat) : numeral (digits width n) = n % 10 ^ width := by
  induction width generalizing n with
  | zero => rw [pow_zero, Nat.mod_one]; rfl
  | succ width ih =>
      have last := (digitChar_toNat (Nat.mod_lt n (by decide : 0 < 10))).1
      rw [numeral, digits, List.foldl_append, List.foldl_cons, List.foldl_nil, ← numeral, ih, last, pow_succ',
        Nat.mod_mul]
      omega

theorem isDigit_digits (width n : Nat) : (digits width n).all Char.isDigit = true := by
  induction width generalizing n with
  | zero => rfl
  | succ width ih =>
      have last := (digitChar_toNat (Nat.mod_lt n (by decide : 0 < 10))).2
      rw [digits, List.all_append, ih, List.all_cons, last]
      rfl

theorem scanNumber_digits {width n : Nat} (bound : n < 10 ^ width) (rest : List Char) :
    scanNumber width (digits width n ++ rest) = some (n, rest) := by
  have taken : (digits width n ++ rest).take width = digits width n := List.take_left' (digits_length width n)
  have dropped : (digits width n ++ rest).drop width = rest := List.drop_left' (digits_length width n)
  rw [scanNumber, taken, dropped]
  simp only [digits_length, isDigit_digits, and_self, if_true]
  rw [← numeral, numeral_digits, Nat.mod_eq_of_lt bound]

theorem sum_take_monthDay {lengths : List Nat} {ordinal : Nat} (inside : ordinal < lengths.sum) :
    (lengths.take (monthDay lengths ordinal).1).sum + (monthDay lengths ordinal).2 = ordinal ∧
      (monthDay lengths ordinal).2 < lengths.getD (monthDay lengths ordinal).1 0 := by
  induction lengths generalizing ordinal with
  | nil => simp at inside
  | cons length rest ih =>
      rw [List.sum_cons] at inside
      rw [monthDay]
      split_ifs with first
      · simpa using first
      · have inside : ordinal - length < rest.sum := by omega
        have later := ih inside
        simp only [List.take_succ_cons, List.sum_cons, List.getD_cons_succ]
        omega

theorem dayOf_date (day : Int) : dayOf (date day).year (date day).month (date day).day = some day := by
  have := yearStart_yearOf_le day
  have := lt_yearStart_yearOf day
  rw [yearStart_succ] at this
  have inside : (day - yearStart (yearOf day)).toNat < (monthLengths (isLeap (yearOf day))).sum := by
    cases h : isLeap (yearOf day) <;> simp only [h, monthLengths] at this ⊢ <;> simp at this ⊢ <;> omega
  have placed := sum_take_monthDay inside
  simp only [dayOf, date, Nat.add_sub_cancel]
  rw [if_pos ⟨by omega, by omega, by omega⟩]
  congr 1
  omega

def isSeparator (c : Char) : Bool := c == 'T' || c == 't' || c == ' '

def wallText (secondOfDay : Nat) (leap : Bool) : List Char :=
  digits 2 (secondOfDay / 3600) ++ ':' :: digits 2 (secondOfDay / 60 % 60) ++
    ':' :: digits 2 (secondOfDay % 60 + if leap then 1 else 0)

def scanTail (day : Int) (secondOfDay : Nat) (leap : Bool) (tail : List Char) : Option Reading := do
  let (nanosecond, s) ← match tail with
    | '.' :: rest => scanNanosecond rest
    | _ => some (0, tail)
  let (offset, s) ← scanOffset s
  if !s.isEmpty then none
  Reading.ofFields (day * secondsPerDay + secondOfDay - offset) nanosecond leap

theorem bind_of_some {α β : Type} {x : Option α} {a : α} (found : x = some a) (f : α → Option β) : (x >>= f) = f a := by
  rw [found]
  rfl

theorem parseFromRfc3339_fields {day : Int} (four : FourDigitYear day) {secondOfDay : Nat} (inside : secondOfDay < 86400)
    {leap : Bool} (last : leap = true → secondOfDay % 60 = 59) {separator : Char}
    (separates : isSeparator separator = true) (tail : List Char) :
    parseFromRfc3339 (.ofList (dateText (date day) ++ separator :: (wallText secondOfDay leap ++ tail))) =
      scanTail day secondOfDay leap tail := by
  have bounds := date_bounds day
  have year : (date day).year.toNat < 10 ^ 4 := by
    have := four.2
    rw [date_year]
    omega
  have calendar : dayOf ((date day).year.toNat : Int) (date day).month (date day).day = some day := by
    have := four.1
    rw [date_year, Int.toNat_of_nonneg four.1, ← date_year, dayOf_date]
  have month : (date day).month < 10 ^ 2 := by omega
  have dom : (date day).day < 10 ^ 2 := by omega
  have hour : secondOfDay / 3600 < 10 ^ 2 := by omega
  have minute : secondOfDay / 60 % 60 < 10 ^ 2 := by omega
  obtain ⟨shown, sixtieth, least⟩ : secondOfDay % 60 + (if leap then 1 else 0) ≤ 60 ∧
      (secondOfDay % 60 + (if leap then 1 else 0) == 60) = leap ∧
      min (secondOfDay % 60 + if leap then 1 else 0) 59 = secondOfDay % 60 := by
    cases leap with
    | false =>
        simp only [Bool.false_eq_true, if_false, add_zero, beq_eq_false_iff_ne]
        omega
    | true =>
        rw [last rfl]
        decide
  have second : secondOfDay % 60 + (if leap then 1 else 0) < 10 ^ 2 := by omega
  have whole : secondOfDay / 3600 * 3600 + secondOfDay / 60 % 60 * 60 + secondOfDay % 60 = secondOfDay := by omega
  have separates : (separator == 'T' || separator == 't' || separator == ' ') = true := separates
  have ranges : (¬ 23 < secondOfDay / 3600) ∧ (¬ 59 < secondOfDay / 60 % 60) ∧
      ¬ 60 < secondOfDay % 60 + if leap then 1 else 0 := by omega
  have layout : dateText (date day) ++ separator :: (wallText secondOfDay leap ++ tail) =
      digits 4 (date day).year.toNat ++ ('-' :: (digits 2 (date day).month ++ ('-' :: (digits 2 (date day).day ++
        (separator :: (digits 2 (secondOfDay / 3600) ++ (':' :: (digits 2 (secondOfDay / 60 % 60) ++
          (':' :: (digits 2 (secondOfDay % 60 + if leap then 1 else 0) ++ tail)))))))))) := by
    simp [dateText, wallText]
  have dash : ∀ s, scanChar (· == '-') ('-' :: s) = some s := fun s => rfl
  have colon : ∀ s, scanChar (· == ':') (':' :: s) = some s := fun s => rfl
  have between : ∀ s, scanChar (fun c => c == 'T' || c == 't' || c == ' ') (separator :: s) = some s := by
    intro s
    rw [scanChar, if_pos separates]
  rw [parseFromRfc3339, String.toList_ofList, layout]
  refine (bind_of_some (scanNumber_digits year _) _).trans ?_
  refine (bind_of_some (dash _) _).trans ?_
  refine (bind_of_some (scanNumber_digits month _) _).trans ?_
  refine (bind_of_some (dash _) _).trans ?_
  refine (bind_of_some (scanNumber_digits dom _) _).trans ?_
  refine (bind_of_some (between _) _).trans ?_
  refine (bind_of_some (scanNumber_digits hour _) _).trans ?_
  refine (bind_of_some (colon _) _).trans ?_
  refine (bind_of_some (scanNumber_digits minute _) _).trans ?_
  refine (bind_of_some (colon _) _).trans ?_
  refine (bind_of_some (scanNumber_digits second _) _).trans ?_
  rw [calendar]
  simp only [whole, ranges, sixtieth, least, or_false, Option.bind_eq_bind, Option.bind_some]
  rfl

theorem parseFromRfc3339_currentTimestamp (s : SqliteTime) : parseFromRfc3339 s.currentTimestamp = none := by
  have inside : (s.seconds % secondsPerDay).toNat < 86400 := by
    simp only [secondsPerDay]
    omega
  have last : false = true → (s.seconds % secondsPerDay).toNat % 60 = 59 := by simp
  have fields := parseFromRfc3339_fields s.fourDigitYear inside last (rfl : isSeparator ' ' = true) []
  rw [List.append_nil] at fields
  exact fields

inductive UtcZone : List Char → Prop
  | letter : UtcZone ['Z']
  | offset : UtcZone ['+', '0', '0', ':', '0', '0']

theorem scanOffset_utc {zone : List Char} (utc : UtcZone zone) : scanOffset zone = some (0, []) := by
  cases utc <;> decide

theorem takeWhile_digits {digits_ rest : List Char} (all : digits_.all Char.isDigit = true)
    (stops : rest.takeWhile Char.isDigit = []) : (digits_ ++ rest).takeWhile Char.isDigit = digits_ := by
  rw [List.takeWhile_append_of_pos (List.all_eq_true.mp all), stops, List.append_nil]

theorem scanNanosecond_digits {width n : Nat} (some_ : 0 < width) (small : width ≤ 9) (bound : n < 10 ^ width)
    {zone : List Char} (utc : UtcZone zone) :
    scanNanosecond (digits width n ++ zone) = some (n * 10 ^ (9 - width), zone) := by
  have all := isDigit_digits width n
  have leading : ((digits width n ++ zone).take 9).takeWhile Char.isDigit = digits width n := by
    rw [List.take_append, List.take_of_length_le (by rw [digits_length]; exact small)]
    refine takeWhile_digits all ?_
    cases utc <;> cases 9 - (digits width n).length <;> simp
  have behind : (digits width n ++ zone).dropWhile Char.isDigit = zone := by
    rw [List.dropWhile_append_of_pos (List.all_eq_true.mp all)]
    cases utc <;> rfl
  have nonempty : (digits width n).isEmpty = false := by
    rw [List.isEmpty_eq_false_iff, ← List.length_pos_iff, digits_length]
    exact some_
  simp only [scanNanosecond, leading, behind, nonempty, digits_length, Bool.false_eq_true, if_false]
  rw [scanNumber_digits bound]
  rfl

theorem fromTimestamp_eq {t : DateTime} {seconds : Int} {nanosecond : Nat}
    (same : seconds * nanosPerSecond + nanosecond = t.nanos) : DateTime.fromTimestamp seconds nanosecond = some t := by
  obtain ⟨nanos, least, most⟩ := t
  obtain rfl : seconds * nanosPerSecond + nanosecond = nanos := same
  rw [DateTime.fromTimestamp, dif_pos ⟨least, most⟩]

theorem ofFields_eq {t : Reading} {seconds : Int} {nanosecond : Nat}
    (same : seconds * nanosPerSecond + nanosecond = t.instant.nanos) : Reading.ofFields seconds nanosecond t.leap = some t := by
  obtain ⟨instant, leap, last⟩ := t
  refine (bind_of_some (fromTimestamp_eq same) _).trans ?_
  exact dif_pos last

theorem scanTail_fraction (t : Reading) {zone : List Char} (utc : UtcZone zone) :
    scanTail t.day (t.instant.second % secondsPerDay).toNat t.leap (fractionText t.instant.subsecond ++ zone) = some t := by
  have below : t.instant.subsecond < 1000000000 := by
    unfold DateTime.subsecond nanosPerSecond
    omega
  have nanos : (t.day * secondsPerDay + ((t.instant.second % secondsPerDay).toNat : Int) - 0) * nanosPerSecond +
      t.instant.subsecond = t.instant.nanos := by
    unfold Reading.day DateTime.day DateTime.second DateTime.subsecond nanosPerSecond secondsPerDay
    omega
  by_cases whole : t.instant.subsecond = 0
  · rw [whole] at nanos ⊢
    cases utc <;> exact ofFields_eq nanos
  · obtain ⟨width, exact_⟩ := fractionWidth_spec t.instant.subsecond
    have some_ : 0 < fractionWidth t.instant.subsecond := by
      unfold fractionWidth
      split_ifs <;> decide
    have scaled : t.instant.subsecond / 10 ^ (9 - fractionWidth t.instant.subsecond) <
        10 ^ fractionWidth t.instant.subsecond := by
      rw [Nat.div_lt_iff_lt_mul (by positivity), ← pow_add, Nat.add_sub_cancel' width]
      exact below
    have fraction := scanNanosecond_digits some_ width scaled utc
    rw [Nat.div_mul_cancel exact_] at fraction
    rw [fractionText_eq whole, List.cons_append]
    refine (bind_of_some fraction _).trans ?_
    refine (bind_of_some (scanOffset_utc utc) _).trans ?_
    exact ofFields_eq nanos

theorem parseFromRfc3339_of_sign {sign : Char} {rest : List Char} (small : sign < '0') :
    parseFromRfc3339 (.ofList (sign :: rest)) = none := by
  have digit : sign.isDigit = false := by
    rw [← Bool.not_eq_true]
    intro digit
    have bounds : 48 ≤ sign.toNat ∧ sign.toNat ≤ 57 := by simpa [Char.isDigit, UInt32.le_iff_toNat_le] using digit
    have below : sign.toNat < 48 := small
    omega
  have none_ : scanNumber 4 (sign :: rest) = none := by
    rw [scanNumber, List.take_succ_cons, List.all_cons, digit]
    simp
  rw [parseFromRfc3339, String.toList_ofList, none_]
  rfl

theorem parseFromRfc3339_zone (t : Reading) {zone : List Char} (utc : UtcZone zone) :
    parseFromRfc3339 (.ofList (yearText (date t.day).year ++ '-' :: digits 2 (date t.day).month ++
      '-' :: digits 2 (date t.day).day ++ 'T' :: (t.timeText ++ (fractionText t.instant.subsecond ++ zone)))) =
      if FourDigitYear t.day then some t else none := by
  split_ifs with four
  · have inside : (t.instant.second % secondsPerDay).toNat < 86400 := by
      unfold secondsPerDay
      omega
    have last (leaps : t.leap = true) : (t.instant.second % secondsPerDay).toNat % 60 = 59 := by
      have := t.last leaps
      unfold secondsPerDay
      omega
    have fields := parseFromRfc3339_fields four inside last (rfl : isSeparator 'T' = true)
      (fractionText t.instant.subsecond ++ zone)
    rw [scanTail_fraction t utc] at fields
    rw [← fields, Reading.timeText, wallText, dateText, date_year, yearText_eq_digits four.1 four.2]
  · have outside : ¬ (0 ≤ (date t.day).year ∧ (date t.day).year < 10000) := by rwa [date_year]
    obtain ⟨sign, rest, year, small⟩ := yearText_eq_cons outside
    rw [year]
    exact parseFromRfc3339_of_sign small

theorem parseFromRfc3339_toRfc3339 (t : DateTime) :
    parseFromRfc3339 t.toRfc3339 = if FourDigitYear t.day then some t.toReading else none := by
  have text : t.toRfc3339 = .ofList (yearText (date t.toReading.day).year ++ '-' :: digits 2 (date t.toReading.day).month ++
      '-' :: digits 2 (date t.toReading.day).day ++ 'T' :: (t.toReading.timeText ++
        (fractionText t.toReading.instant.subsecond ++ ['+', '0', '0', ':', '0', '0']))) := by
    simp only [DateTime.toRfc3339, DateTime.clockText, List.append_assoc]
    rfl
  rw [text]
  exact parseFromRfc3339_zone t.toReading .offset

end Errex.Proof.Rfc3339
