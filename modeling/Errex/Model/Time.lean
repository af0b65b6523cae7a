import Errex.Foundation.Calendar

/-!
# Instants and their texts

chrono's `DateTime<Utc>` and `Duration` as the daemon uses them, the RFC 3339 text it binds for an
instant, and the text SQLite writes for `CURRENT_TIMESTAMP`.
-/

namespace Errex.Model
open Foundation Calendar Text

def nanosPerSecond : Int := 1000000000

def secondsPerDay : Int := 86400

/-- The first nanosecond of the year -262143 and the last one of the year 262142. -/
def minNanos : Int := yearStart (-262143) * secondsPerDay * nanosPerSecond

def maxNanos : Int := yearStart 262143 * secondsPerDay * nanosPerSecond - 1

/-- chrono's `DateTime<Utc>`, in nanoseconds since 1970-01-01T00:00:00Z. -/
structure DateTime where
  nanos : Int
  min_le : minNanos ≤ nanos
  le_max : nanos ≤ maxNanos
  deriving DecidableEq

theorem minNanos_le_zero : minNanos ≤ 0 := by decide

theorem zero_le_maxNanos : 0 ≤ maxNanos := by decide

/-- What `Utc::now()` returns: `SystemTime` before the epoch is a panic of its own. -/
structure UtcNow where
  instant : DateTime
  epoch_le : 0 ≤ instant.nanos

namespace DateTime

def second (t : DateTime) : Int := t.nanos / nanosPerSecond

def subsecond (t : DateTime) : Nat := (t.nanos % nanosPerSecond).toNat

def day (t : DateTime) : Int := t.second / secondsPerDay

end DateTime

structure Duration where
  nanos : Int
  deriving DecidableEq, Repr

namespace Duration

/-- `Duration::try_seconds`: a duration is at most `i64::MAX` milliseconds either way. -/
def ofSeconds (seconds : Int) : Option Duration :=
  if -9223372036854775 ≤ seconds ∧ seconds ≤ 9223372036854775 then some ⟨seconds * nanosPerSecond⟩
  else none

/-- `Duration::days` and `hours`; `none` is the panic on overflow. -/
def days (n : Int) : Option Duration := ofSeconds (n * secondsPerDay)

def hours (n : Int) : Option Duration := ofSeconds (n * 3600)

def numSeconds (d : Duration) : Int := d.nanos.tdiv nanosPerSecond

end Duration

/-- `DateTime - Duration`; `none` is the panic when the result is not representable. -/
def DateTime.sub (t : DateTime) (d : Duration) : Option DateTime :=
  if h : minNanos ≤ t.nanos - d.nanos ∧ t.nanos - d.nanos ≤ maxNanos then
    some ⟨t.nanos - d.nanos, h.1, h.2⟩
  else none

def timeText (secondOfDay : Nat) : List Char :=
  digits 2 (secondOfDay / 3600) ++ ':' :: digits 2 (secondOfDay / 60 % 60) ++
    ':' :: digits 2 (secondOfDay % 60)

def yearText (year : Int) : List Char :=
  if 0 ≤ year ∧ year < 10000 then digits 4 year.toNat
  else
    let magnitude := Nat.toDigits 10 year.natAbs
    (if year < 0 then '-' else '+') :: (List.replicate (4 - magnitude.length) '0' ++ magnitude)

def fractionText (nanos : Nat) : List Char :=
  if nanos = 0 then []
  else if nanos % 1000000 = 0 then '.' :: digits 3 (nanos / 1000000)
  else if nanos % 1000 = 0 then '.' :: digits 6 (nanos / 1000)
  else '.' :: digits 9 nanos

def DateTime.clockText (t : DateTime) : List Char :=
  timeText (t.second % secondsPerDay).toNat ++ fractionText t.subsecond ++ "+00:00".toList

/-- `DateTime::to_rfc3339`, which is also what sqlx binds for a `DateTime<Utc>`. -/
def DateTime.toRfc3339 (t : DateTime) : String :=
  let d := date t.day
  .ofList (yearText d.year ++ '-' :: digits 2 d.month ++ '-' :: digits 2 d.day ++ 'T' :: t.clockText)

/-- A `DateTime<Utc>` that was read from a text: an instant, or with `leap` the leap second after it,
which chrono keeps as nanoseconds from 10^9 on of the last second of a minute. -/
structure Reading where
  instant : DateTime
  leap : Bool
  last : leap = true → instant.second % 60 = 59
  deriving DecidableEq

def DateTime.toReading (t : DateTime) : Reading := ⟨t, false, nofun⟩

namespace Reading

def nanos (t : Reading) : Int := t.instant.nanos + if t.leap then nanosPerSecond else 0

def day (t : Reading) : Int := t.instant.day

def timeText (t : Reading) : List Char :=
  let secondOfDay := (t.instant.second % secondsPerDay).toNat
  digits 2 (secondOfDay / 3600) ++ ':' :: digits 2 (secondOfDay / 60 % 60) ++
    ':' :: digits 2 (secondOfDay % 60 + if t.leap then 1 else 0)

end Reading

@[simp] theorem DateTime.nanos_toReading (t : DateTime) : t.toReading.nanos = t.nanos := Int.add_zero _

def scanNumber (width : Nat) (s : List Char) : Option (Nat × List Char) :=
  let taken := s.take width
  if taken.length = width ∧ taken.all Char.isDigit then
    some (taken.foldl (fun n c => 10 * n + (c.toNat - 48)) 0, s.drop width)
  else none

def scanChar (accepted : Char → Bool) : List Char → Option (List Char)
  | [] => none
  | c :: rest => if accepted c then some rest else none

def scanNanosecond (s : List Char) : Option (Nat × List Char) := do
  let leading := (s.take 9).takeWhile Char.isDigit
  if leading.isEmpty then none
  let (n, _) ← scanNumber leading.length s
  pure (n * 10 ^ (9 - leading.length), s.dropWhile Char.isDigit)

def scanOffset : List Char → Option (Int × List Char)
  | [] => none
  | c :: rest =>
      if c = 'Z' ∨ c = 'z' then some (0, rest)
      else if c = '+' ∨ c = '-' ∨ c = '\u2212' then do
        let (hours, rest) ← scanNumber 2 rest
        let rest ← scanChar (· == ':') rest
        let (minutes, rest) ← scanNumber 2 rest
        if 60 ≤ minutes then none
        let offset : Int := hours * 3600 + minutes * 60
        if 86340 < offset then none
        pure (if c = '+' then offset else -offset, rest)
      else none

def dayOf (year : Int) (month day : Nat) : Option Int :=
  let lengths := monthLengths (isLeap year)
  if 1 ≤ month ∧ 1 ≤ day ∧ day ≤ lengths.getD (month - 1) 0 then
    some (yearStart year + (lengths.take (month - 1)).sum + day - 1)
  else none

def DateTime.fromTimestamp (seconds : Int) (nanosecond : Nat) : Option DateTime :=
  let nanos := seconds * nanosPerSecond + nanosecond
  if h : minNanos ≤ nanos ∧ nanos ≤ maxNanos then some ⟨nanos, h.1, h.2⟩ else none

def Reading.ofFields (seconds : Int) (nanosecond : Nat) (leap : Bool) : Option Reading := do
  let instant ← DateTime.fromTimestamp seconds nanosecond
  if last : leap = true → instant.second % 60 = 59 then some ⟨instant, leap, last⟩ else none

/-- `DateTime::parse_from_rfc3339`, brought to UTC. The second 60 is a leap second at the end of any minute,
and an offset is of whole minutes, so that it is still the end of a minute in UTC. -/
def parseFromRfc3339 (text : String) : Option Reading := do
  let (year, s) ← scanNumber 4 text.toList
  let s ← scanChar (· == '-') s
  let (month, s) ← scanNumber 2 s
  let s ← scanChar (· == '-') s
  let (day, s) ← scanNumber 2 s
  let s ← scanChar (fun c => c == 'T' || c == 't' || c == ' ') s
  let (hour, s) ← scanNumber 2 s
  let s ← scanChar (· == ':') s
  let (minute, s) ← scanNumber 2 s
  let s ← scanChar (· == ':') s
  let (second, s) ← scanNumber 2 s
  let (nanosecond, s) ← match s with
    | '.' :: rest => scanNanosecond rest
    | _ => some (0, s)
  let (offset, s) ← scanOffset s
  if !s.isEmpty ∨ 23 < hour ∨ 59 < minute ∨ 60 < second then none
  let dayNumber ← dayOf year month day
  let seconds := dayNumber * secondsPerDay + (hour * 3600 + minute * 60 + min second 59 : Nat) - offset
  Reading.ofFields seconds nanosecond (second == 60)

example : (parseFromRfc3339 "2026-04-28T12:00:00.250+02:00").map (·.instant.toRfc3339) =
    some "2026-04-28T10:00:00.250+00:00" := by decide

/-- A second that SQLite's date functions write with a year of four digits. -/
structure SqliteTime where
  seconds : Int
  fourDigitYear : FourDigitYear (seconds / secondsPerDay)

namespace SqliteTime

def day (s : SqliteTime) : Int := s.seconds / secondsPerDay

def currentTimestamp (s : SqliteTime) : String :=
  .ofList (dateText (date s.day) ++ ' ' :: timeText (s.seconds % secondsPerDay).toNat)

end SqliteTime

/-- SQLite's `<` on TEXT values: `memcmp` of their UTF-8 bytes. -/
def textLt (a b : String) : Bool := decide (a.toList < b.toList)

example : textLt "2026-05-07 23:59:59" "2026-05-07T00:00:00+00:00" = true := by decide

theorem DateTime.sub_isSome {t : DateTime} {d : Duration} (nonneg : 0 ≤ d.nanos) :
    (t.sub d).isSome ↔ d.nanos ≤ t.nanos - minNanos := by
  have := t.le_max
  unfold DateTime.sub
  split_ifs <;> simp <;> omega

theorem minNanos_eq : minNanos = -8334601228800 * 1000000000 := by decide

theorem maxNanos_eq : maxNanos = 8210266876800 * 1000000000 - 1 := by decide

theorem UtcNow.sub_isSome (now : UtcNow) {d : Duration} (nonneg : 0 ≤ d.nanos)
    (small : d.nanos ≤ 8334601228800 * 1000000000) : (now.instant.sub d).isSome := by
  rw [DateTime.sub_isSome nonneg, minNanos_eq]
  have := now.epoch_le
  omega

theorem yearText_eq_digits {year : Int} (low : 0 ≤ year) (high : year < 10000) :
    yearText year = digits 4 year.toNat := if_pos ⟨low, high⟩

theorem yearText_eq_cons {year : Int} (outside : ¬ (0 ≤ year ∧ year < 10000)) :
    ∃ sign rest, yearText year = sign :: rest ∧ sign < '0' := by
  simp only [yearText, if_neg outside]
  split_ifs <;> exact ⟨_, _, rfl, by decide⟩

theorem toRfc3339_of_fourDigitYear {t : DateTime} (four : FourDigitYear t.day) :
    t.toRfc3339.toList = dateText (date t.day) ++ 'T' :: t.clockText := by
  simp only [DateTime.toRfc3339, String.toList_ofList, date_year, dateText,
    yearText_eq_digits four.1 four.2]

theorem toRfc3339_of_signedYear {t : DateTime} (signed : ¬ FourDigitYear t.day) :
    ∃ sign rest, t.toRfc3339.toList = sign :: rest ∧ sign < '0' := by
  obtain ⟨sign, rest, year, small⟩ := yearText_eq_cons signed
  simp only [DateTime.toRfc3339, String.toList_ofList, date_year, year, List.cons_append]
  exact ⟨sign, _, rfl, small⟩

/-- A text that SQLite wrote sorts before the RFC 3339 text of an instant exactly when its day is
not after the day of the instant: in texts of one day the separator decides. -/
theorem currentTimestamp_lt_toRfc3339 (s : SqliteTime) (t : DateTime) :
    textLt s.currentTimestamp t.toRfc3339 = true ↔ FourDigitYear t.day ∧ s.day ≤ t.day := by
  simp only [textLt, decide_eq_true_eq, SqliteTime.currentTimestamp, String.toList_ofList]
  by_cases four : FourDigitYear t.day
  · rw [toRfc3339_of_fourDigitYear four, append_lt_append_iff (by simp)]
    simp only [four, true_and]
    rcases lt_trichotomy s.day t.day with earlier | same | later
    · exact iff_of_true (.inl (dateText_lt_dateText s.fourDigitYear four earlier)) earlier.le
    · exact iff_of_true (.inr ⟨by rw [same], List.cons_lt_cons_iff.mpr (.inl (by decide))⟩) same.le
    · have greater := dateText_lt_dateText four s.fourDigitYear later
      refine iff_of_false ?_ (by omega)
      rintro (lt | ⟨eq, -⟩)
      · exact List.lt_asymm greater lt
      · exact List.lt_irrefl _ (eq ▸ greater)
  · obtain ⟨sign, rest, text, small⟩ := toRfc3339_of_signedYear four
    obtain ⟨c, cs, written, digit⟩ := dateText_eq_cons (date s.day)
    refine iff_of_false ?_ fun h => four h.1
    rw [text, written, List.cons_append, List.cons_lt_cons_iff]
    rintro (lt | ⟨rfl, -⟩)
    · exact Char.not_lt.mpr digit (Char.lt_trans lt small)
    · exact Char.not_lt.mpr digit small

def fractionWidth (nanos : Nat) : Nat :=
  if nanos % 1000000 = 0 then 3 else if nanos % 1000 = 0 then 6 else 9

theorem fractionText_eq {nanos : Nat} (some_ : nanos ≠ 0) :
    fractionText nanos = '.' :: digits (fractionWidth nanos) (nanos / 10 ^ (9 - fractionWidth nanos)) := by
  simp only [fractionText, if_neg some_, fractionWidth]
  split_ifs
  · rfl
  · rfl
  · rw [Nat.sub_self, pow_zero, Nat.div_one]

theorem fractionWidth_spec (nanos : Nat) :
    fractionWidth nanos ≤ 9 ∧ 10 ^ (9 - fractionWidth nanos) ∣ nanos := by
  unfold fractionWidth
  split_ifs <;> exact ⟨by decide, by omega⟩

theorem fractionText_lt {m n : Nat} (lt : m < n) (bound : n < 1000000000) (rest : List Char) :
    fractionText m ++ '+' :: rest < fractionText n ++ '+' :: rest := by
  rw [fractionText_eq (by omega : n ≠ 0)]
  rcases Nat.eq_zero_or_pos m with rfl | pos
  · exact List.cons_lt_cons_iff.mpr (.inl (by decide))
  · rw [fractionText_eq (by omega : m ≠ 0), List.cons_append, List.cons_append, List.cons_lt_cons_iff]
    obtain ⟨wm, em⟩ := fractionWidth_spec m
    obtain ⟨wn, en⟩ := fractionWidth_spec n
    exact .inr ⟨rfl, decimals_lt (by decide) rest rest wm wn em en lt bound⟩

theorem timeText_length (second : Nat) : (timeText second).length = 8 := by simp [timeText]

theorem timeText_lt {a b : Nat} (lt : a < b) (bound : b < 86400) : timeText a < timeText b := by
  simp only [timeText, List.append_assoc, List.cons_append]
  rw [append_lt_append_iff (by simp)]
  rcases Nat.lt_or_ge (a / 3600) (b / 3600) with hour | hour
  · exact .inl (digits_lt_digits hour (by omega))
  · refine .inr ⟨by rw [show a / 3600 = b / 3600 by omega], ?_⟩
    rw [List.cons_lt_cons_iff]
    refine .inr ⟨rfl, ?_⟩
    rw [append_lt_append_iff (by simp)]
    rcases Nat.lt_or_ge (a / 60 % 60) (b / 60 % 60) with minute | minute
    · exact .inl (digits_lt_digits minute (by omega))
    · refine .inr ⟨by rw [show a / 60 % 60 = b / 60 % 60 by omega], ?_⟩
      rw [List.cons_lt_cons_iff]
      exact .inr ⟨rfl, digits_lt_digits (by omega) (by omega)⟩

theorem toRfc3339_lt {t u : DateTime} (ht : FourDigitYear t.day) (hu : FourDigitYear u.day) (lt : t.nanos < u.nanos) :
    textLt t.toRfc3339 u.toRfc3339 = true := by
  rw [textLt, decide_eq_true_eq, toRfc3339_of_fourDigitYear ht, toRfc3339_of_fourDigitYear hu,
    append_lt_append_iff (by simp)]
  have seconds : t.second ≤ u.second := by unfold DateTime.second nanosPerSecond; omega
  rcases lt_or_eq_of_le (show t.day ≤ u.day by unfold DateTime.day secondsPerDay; omega) with day | day
  · exact .inl (dateText_lt_dateText ht hu day)
  · refine .inr ⟨by rw [day], ?_⟩
    rw [List.cons_lt_cons_iff]
    refine .inr ⟨rfl, ?_⟩
    unfold DateTime.day secondsPerDay at day
    simp only [DateTime.clockText, List.append_assoc]
    rw [append_lt_append_iff (by simp [timeText_length])]
    rcases lt_or_eq_of_le seconds with second | second
    · left
      refine timeText_lt ?_ ?_ <;> unfold secondsPerDay <;> omega
    · refine .inr ⟨by rw [second], fractionText_lt ?_ ?_ _⟩
      · unfold DateTime.subsecond
        unfold DateTime.second at second
        simp only [nanosPerSecond] at *
        omega
      · unfold DateTime.subsecond nanosPerSecond
        omega

theorem toRfc3339_lt_iff {t u : DateTime} (ht : FourDigitYear t.day) (hu : FourDigitYear u.day) :
    textLt t.toRfc3339 u.toRfc3339 = true ↔ t.nanos < u.nanos := by
  refine ⟨fun before => ?_, toRfc3339_lt ht hu⟩
  by_contra later
  have lt : t.toRfc3339.toList < u.toRfc3339.toList := by simpa [textLt] using before
  rcases lt_or_eq_of_le (Int.not_lt.mp later) with after | same
  · have gt : u.toRfc3339.toList < t.toRfc3339.toList := by simpa [textLt] using toRfc3339_lt hu ht after
    exact List.lt_asymm lt gt
  · obtain ⟨n, _, _⟩ := t
    obtain ⟨m, _, _⟩ := u
    obtain rfl : m = n := same
    exact List.lt_irrefl _ lt

end Errex.Model
