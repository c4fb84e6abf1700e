import OzoneRust.Lib.Calendar
import OzoneRust.Lib.Outcome
import OzoneRust.Lib.Text

/-!
# Dates in headers and documents

`http_date`, `iso8601_millis` and `parse_http_date` of the gateway. The arithmetic is on `i64`, with
divisions that round towards zero, and every operation is checked here: an operation that is out of
range panics.

The calendar is that of `OzoneRust.Lib.Calendar`. What the two functions render is the date and the
time of the instant, for every `u64` number of milliseconds, and what the first renders is read back
(`OzoneRust.dates_correct`). What is read from other text is another matter: a year can be too large
for the arithmetic, and a day that its month does not have is taken for one of the next
(`OzoneRust.parseHttpDate_faithful`).
-/

namespace OzoneRust

open Outcome Text Calendar

/-! ### The code -/

/-- The names of the days, from Sunday on. -/
def dayNames : List Text := ["Sun", "Mon", "Tue", "Wed", "Thu", "Fri", "Sat"].map String.toList

/-- The names of the months. -/
def monthNames : List Text :=
  ["Jan", "Feb", "Mar", "Apr", "May", "Jun", "Jul", "Aug", "Sep", "Oct", "Nov", "Dec"].map
    String.toList

/-- The date of a day, as in `http_date` and `iso8601_millis`: the year, the month and the day. -/
def civilFromDays (days : ℤ) : Outcome Empty (ℤ × ℤ × ℤ) := do
  let z ← i64 (days + 719468)
  let shifted ← (if z ≥ 0 then pure z else i64 (z - 146096))
  let era := shifted.tdiv 146097
  let before ← i64 (era * 146097)
  let doe ← i64 (z - before)
  let a ← i64 (doe - doe.tdiv 1460)
  let b ← i64 (a + doe.tdiv 36524)
  let c ← i64 (b - doe.tdiv 146096)
  let yoe := c.tdiv 365
  let centuries ← i64 (era * 400)
  let y ← i64 (yoe + centuries)
  let a ← i64 (365 * yoe)
  let b ← i64 (a + yoe.tdiv 4)
  let c ← i64 (b - yoe.tdiv 100)
  let doy ← i64 (doe - c)
  let a ← i64 (5 * doy)
  let b ← i64 (a + 2)
  let mp := b.tdiv 153
  let a ← i64 (153 * mp)
  let b ← i64 (a + 2)
  let c ← i64 (doy - b.tdiv 5)
  let d ← i64 (c + 1)
  let m ← (if mp < 10 then i64 (mp + 3) else i64 (mp - 9))
  let year ← (if m ≤ 2 then i64 (y + 1) else pure y)
  return (year, m, d)

/-- `as i64` of a `u64`. -/
def asI64 (n : ℕ) : ℤ := if n < 2 ^ 63 then n else n - 2 ^ 64

/-- An entry of a table, at an `i64` cast to `usize`. -/
def entry (table : List Text) (i : ℤ) : Outcome Empty Text :=
  if i < 0 then .panic else index table i.toNat

/-- The time of day of the two functions, formatted: hours, minutes and seconds. -/
def clockText (rem : ℤ) : Text :=
  zeroPadded 2 (rem.tdiv 3600) ++ ':' :: (zeroPadded 2 ((rem.tmod 3600).tdiv 60) ++
    ':' :: zeroPadded 2 (rem.tmod 60))

/-- `http_date`. -/
def httpDate (ms : UInt64) : Outcome Empty Text := do
  let secs := asI64 (ms.toNat / 1000)
  let days := secs / 86400
  let rem := secs % 86400
  let shifted ← i64 (days.tmod 7 + 4)
  let dow ← entry dayNames (shifted % 7)
  let (year, m, d) ← civilFromDays days
  let i ← i64 (m - 1)
  let mon ← entry monthNames i
  return dow ++ (", ".toList ++ (zeroPadded 2 d ++ ' ' :: (mon ++ ' ' :: (zeroPadded 4 year ++
    ' ' :: (clockText rem ++ " GMT".toList)))))

/-- `iso8601_millis`. -/
def iso8601Millis (ms : UInt64) : Outcome Empty Text := do
  let secs := asI64 (ms.toNat / 1000)
  let millis := ms.toNat % 1000
  let days := secs / 86400
  let rem := secs % 86400
  let (year, m, d) ← civilFromDays days
  return zeroPadded 4 year ++ '-' :: (zeroPadded 2 m ++ '-' :: (zeroPadded 2 d ++ 'T' ::
    (clockText rem ++ '.' :: (zeroPadded 3 millis ++ ['Z']))))

/-- `days_from_civil`. -/
def daysFromCivil (y m d : ℤ) : Outcome Empty ℤ := do
  let y ← (if m ≤ 2 then i64 (y - 1) else pure y)
  let shifted ← (if y ≥ 0 then pure y else i64 (y - 399))
  let era := shifted.tdiv 400
  let before ← i64 (era * 400)
  let yoe ← i64 (y - before)
  let mp ← (if m > 2 then i64 (m - 3) else i64 (m + 9))
  let a ← i64 (153 * mp)
  let b ← i64 (a + 2)
  let c ← i64 (b.tdiv 5 + d)
  let doy ← i64 (c - 1)
  let a ← i64 (yoe * 365)
  let b ← i64 (a + yoe.tdiv 4)
  let c ← i64 (b - yoe.tdiv 100)
  let doe ← i64 (c + doy)
  let a ← i64 (era * 146097)
  let b ← i64 (a + doe)
  i64 (b - 719468)

/-- `month_num`. -/
def monthNum (m : Text) : Option ℕ := (monthNames.findIdx? (· = m)).map (· + 1)

/-- **What is written in a date**: the fields that `parse_http_date` reads. -/
structure DateFields where
  /-- The day. -/
  day : ℤ
  /-- The month, from one. -/
  month : ℕ
  /-- The year. -/
  year : ℤ
  /-- The hour. -/
  hour : ℤ
  /-- The minute. -/
  minute : ℤ
  /-- The second. -/
  second : ℤ
  deriving DecidableEq, Repr

/-- The part of `parse_http_date` that reads the fields. -/
def readFields (s : Text) : Option DateFields := do
  let rest := ((splitOnce ',' s).map Prod.snd).getD s
  let tokens := splitWhitespace rest
  let day ← parseI64 (← tokens[0]?)
  let month ← monthNum (← tokens[1]?)
  let year ← parseI64 (← tokens[2]?)
  let parts := (← tokens[3]?).splitOn ':'
  let hour ← parseI64 (← parts[0]?)
  let minute ← parseI64 (← parts[1]?)
  let second ← parseI64 (← parts[2]?)
  return ⟨day, month, year, hour, minute, second⟩

/-- The fields are in the ranges that `parse_http_date` checks. -/
def DateFields.InRange (f : DateFields) : Prop :=
  (1 ≤ f.day ∧ f.day ≤ 31) ∧ (0 ≤ f.hour ∧ f.hour ≤ 23) ∧ (0 ≤ f.minute ∧ f.minute ≤ 59) ∧
    (0 ≤ f.second ∧ f.second ≤ 60)

instance instDecidableDateFieldsInRange (f : DateFields) : Decidable f.InRange :=
  inferInstanceAs (Decidable (_ ∧ _ ∧ _ ∧ _))

/-- The seconds of some fields. -/
def DateFields.seconds (f : DateFields) : Outcome Empty ℤ := do
  let days ← daysFromCivil f.year f.month f.day
  let a ← i64 (days * 86400)
  let b ← i64 (f.hour * 3600)
  let c ← i64 (a + b)
  let d ← i64 (f.minute * 60)
  let e ← i64 (c + d)
  i64 (e + f.second)

/-- `parse_http_date`. -/
def parseHttpDate (s : Text) : Outcome Empty (Option ℕ) :=
  match readFields s with
  | none => .ok none
  | some f =>
    if ¬f.InRange then .ok none
    else do
      let secs ← f.seconds
      return if 0 ≤ secs then some secs.toNat else none

/-! ### The date of a day -/

/-- **The code computes the calendar.** -/
theorem civilFromDays_eq {n : ℕ} (hn : n < 2 ^ 40) :
    civilFromDays n = .ok ((dateOf n).year, (dateOf n).month, (dateOf n).day) := by
  have hmod : (n + 719468) % 146097 < 146097 := Nat.mod_lt _ (by decide)
  obtain ⟨hyoe, hle, hlt⟩ := yearOfEra_spec hmod
  rw [dateOf_eq_ofMarch]
  generalize hera : (n + 719468) / 146097 = era at *
  generalize hdoe : (n + 719468) % 146097 = doe at *
  have hsplit := Nat.div_add_mod (n + 719468) 146097
  rw [hera, hdoe] at hsplit
  have hyears : marchStart (yearOfEra doe) =
      365 * yearOfEra doe + yearOfEra doe / 4 - yearOfEra doe / 100 := by
    unfold marchStart
    omega
  unfold civilFromDays
  rw [i64_bind (n := n + 719468) (by omega) (by omega), if_pos (by omega), pure_bind]
  dsimp only
  rw [tdiv_ofNat, hera, i64_bind (n := era * 146097) (by omega) (by omega),
    i64_bind (n := doe) (by omega) (by omega), tdiv_ofNat,
    i64_bind (n := doe - doe / 1460) (by omega) (by omega), tdiv_ofNat,
    i64_bind (n := doe - doe / 1460 + doe / 36524) (by omega) (by omega), tdiv_ofNat,
    i64_bind (n := doe - doe / 1460 + doe / 36524 - doe / 146096) (by omega) (by omega), tdiv_ofNat,
    ← yearOfEra]
  generalize yearOfEra doe = yoe at *
  generalize hdoy : doe - marchStart yoe = doy
  rw [i64_bind (n := era * 400) (by omega) (by omega),
    i64_bind (n := 400 * era + yoe) (by omega) (by omega),
    i64_bind (n := 365 * yoe) (by omega) (by omega), tdiv_ofNat,
    i64_bind (n := 365 * yoe + yoe / 4) (by omega) (by omega), tdiv_ofNat,
    i64_bind (n := marchStart yoe) (by omega) (by omega),
    i64_bind (n := doy) (by omega) (by omega),
    i64_bind (n := 5 * doy) (by omega) (by omega),
    i64_bind (n := 5 * doy + 2) (by omega) (by omega), tdiv_ofNat, ← marchMonth]
  have hmp : marchMonth doy = (5 * doy + 2) / 153 := rfl
  rw [i64_bind (n := 153 * marchMonth doy) (by omega) (by omega),
    i64_bind (n := 153 * marchMonth doy + 2) (by omega) (by omega), tdiv_ofNat,
    i64_bind (n := doy - (153 * marchMonth doy + 2) / 5) (by omega) (by omega),
    i64_bind (n := doy - (153 * marchMonth doy + 2) / 5 + 1) (by omega) (by omega)]
  have hmonth : (if (marchMonth doy : ℤ) < 10 then i64 ((marchMonth doy : ℤ) + 3)
      else i64 ((marchMonth doy : ℤ) - 9)) =
        (.ok (monthOf (marchMonth doy) : ℤ) : Outcome Empty ℤ) := by
    unfold monthOf
    by_cases h : marchMonth doy < 10
    · have hcast : (marchMonth doy : ℤ) + 3 = ((marchMonth doy + 3 : ℕ) : ℤ) := by omega
      rw [if_pos (by omega), if_pos h, hcast, i64_eq (by omega)]
    · have hcast : (marchMonth doy : ℤ) - 9 = ((marchMonth doy - 9 : ℕ) : ℤ) := by omega
      rw [if_neg (by omega), if_neg h, hcast, i64_eq (by omega)]
  have hyear : (if (monthOf (marchMonth doy) : ℤ) ≤ 2 then i64 (((400 * era + yoe : ℕ) : ℤ) + 1)
      else pure ((400 * era + yoe : ℕ) : ℤ)) =
      (.ok ((ofMarch (400 * era + yoe) doy).year : ℤ) : Outcome Empty ℤ) := by
    unfold ofMarch
    split_ifs
    · rw [i64_eq (by omega)]
      rfl
    · omega
    · omega
    · rfl
  rw [hmonth, ok_bind, hyear, ok_bind]
  rfl

/-! ### Rendering -/

/-- An instant, as a calendar and a clock say it. -/
structure Moment where
  /-- The date. -/
  date : Date
  /-- The day of the week. -/
  weekday : Weekday
  /-- The hour. -/
  hour : ℕ
  /-- The minute. -/
  minute : ℕ
  /-- The second. -/
  second : ℕ
  deriving DecidableEq, Repr

/-- **The instant some seconds after the epoch.** -/
def momentOf (secs : ℕ) : Moment where
  date := dateOf (secs / 86400)
  weekday := weekdayOf (secs / 86400)
  hour := secs % 86400 / 3600
  minute := secs % 3600 / 60
  second := secs % 60

/-- The name of a day. -/
def weekdayName : Weekday → Text
  | .sunday => "Sun".toList
  | .monday => "Mon".toList
  | .tuesday => "Tue".toList
  | .wednesday => "Wed".toList
  | .thursday => "Thu".toList
  | .friday => "Fri".toList
  | .saturday => "Sat".toList

/-- The name of a month. -/
def monthName (month : ℕ) : Text := monthNames.getD (month - 1) []

/-- The time of day, in two digits each. -/
def Moment.timeText (m : Moment) : Text :=
  (padded 2 m.hour).text ++ ':' :: ((padded 2 m.minute).text ++ ':' :: (padded 2 m.second).text)

/-- An instant in a header. -/
def Moment.fixdate (m : Moment) : Text :=
  weekdayName m.weekday ++ (", ".toList ++ ((padded 2 m.date.day).text ++ ' ' ::
    (monthName m.date.month ++ ' ' :: ((padded 4 m.date.year).text ++ ' ' ::
      (m.timeText ++ " GMT".toList)))))

/-- An instant in a document, with milliseconds. -/
def Moment.timestamp (m : Moment) (millis : ℕ) : Text :=
  (padded 4 m.date.year).text ++ '-' :: ((padded 2 m.date.month).text ++ '-' ::
    ((padded 2 m.date.day).text ++ 'T' :: (m.timeText ++ '.' :: ((padded 3 millis).text ++ ['Z']))))

theorem asI64_eq {n : ℕ} (h : n < 2 ^ 63) : asI64 n = n := if_pos h

theorem clockText_eq (secs : ℕ) : clockText ((secs : ℤ) % 86400) = (momentOf secs).timeText := by
  have hrem : (secs : ℤ) % 86400 = ((secs % 86400 : ℕ) : ℤ) := by omega
  have hmod : ∀ a b : ℕ, Int.tmod (a : ℤ) (@OfNat.ofNat ℤ b instOfNat) =
    ((a % @OfNat.ofNat ℕ b (instOfNatNat b) : ℕ) : ℤ) := fun _ _ => rfl
  rw [clockText, hrem, tdiv_ofNat, hmod, tdiv_ofNat, hmod, zeroPadded_natCast, zeroPadded_natCast,
    zeroPadded_natCast, Nat.mod_mod_of_dvd _ (by decide), Nat.mod_mod_of_dvd _ (by decide)]
  rfl

/-- The day of the week is an entry of the table. -/
theorem entry_dayNames (n : ℕ) : (i64 ((n : ℤ).tmod 7 + 4) >>= fun shifted =>
    entry dayNames (shifted % 7)) = .ok (weekdayName (weekdayOf n)) := by
  have hmod : (n : ℤ).tmod 7 = ((n % 7 : ℕ) : ℤ) := rfl
  rw [hmod, i64_bind (n := n % 7 + 4) (by omega) (by omega), ← weekdayOf_mod]
  have hall : ∀ r < 7, entry dayNames (((r + 4 : ℕ) : ℤ) % 7) =
      .ok (weekdayName (weekdayOf r)) := by decide +kernel
  exact hall _ (Nat.mod_lt _ (by decide))

theorem entry_monthNames {m : ℕ} (h₁ : 1 ≤ m) (h₂ : m ≤ 12) :
    (i64 ((m : ℤ) - 1) >>= entry monthNames) = .ok (monthName m) := by
  rw [i64_bind (n := m - 1) (by omega) (by omega), entry, if_neg (by omega), Int.toNat_natCast]
  refine index_getD ?_ []
  have hlen : monthNames.length = 12 := rfl
  omega

/-- **An instant in a header.** -/
theorem httpDate_eq (ms : UInt64) : httpDate ms = .ok (momentOf (ms.toNat / 1000)).fixdate := by
  have hms := ms.toNat_lt
  have hdays : ((ms.toNat / 1000 : ℕ) : ℤ) / 86400 = ((ms.toNat / 1000 / 86400 : ℕ) : ℤ) := rfl
  have hvalid := dateOf_valid (ms.toNat / 1000 / 86400)
  unfold httpDate
  dsimp only
  rw [asI64_eq (by omega), hdays, ← bind_assoc, entry_dayNames, ok_bind,
    civilFromDays_eq (by omega), ok_bind]
  dsimp only
  rw [← bind_assoc, entry_monthNames hvalid.month_pos hvalid.month_le, ok_bind,
    clockText_eq, zeroPadded_natCast, zeroPadded_natCast]
  rfl

/-- **An instant in a document.** -/
theorem iso8601Millis_eq (ms : UInt64) :
    iso8601Millis ms = .ok ((momentOf (ms.toNat / 1000)).timestamp (ms.toNat % 1000)) := by
  have hms := ms.toNat_lt
  have hdays : ((ms.toNat / 1000 : ℕ) : ℤ) / 86400 = ((ms.toNat / 1000 / 86400 : ℕ) : ℤ) := rfl
  unfold iso8601Millis
  dsimp only
  rw [asI64_eq (by omega), hdays, civilFromDays_eq (by omega), ok_bind, clockText_eq]
  dsimp only
  rw [zeroPadded_natCast, zeroPadded_natCast, zeroPadded_natCast, zeroPadded_natCast]
  rfl

/-! ### Reading -/

/-- **The instant some fields stand for**, in seconds from the epoch. -/
def DateFields.instant (f : DateFields) : ℤ :=
  dayNumber f.year f.month f.day.toNat * 86400 + f.hour * 3600 + f.minute * 60 + f.second

/-- The arithmetic of `parse_http_date` fits an `i64`. -/
def DateFields.Fits (f : DateFields) : Prop :=
  -2 ^ 63 ≤ dayNumber f.year f.month f.day.toNat * 86400 ∧ f.instant < 2 ^ 63

/-- The cycle of a year: the division of the code rounds towards zero, so that negative years are
shifted first. -/
theorem era_eq (y : ℤ) : (if y ≥ 0 then y else y - 399).tdiv 400 = y / 400 := by
  split_ifs with h
  · exact Int.tdiv_eq_ediv_of_nonneg h
  · have hneg : y - 399 = -(399 - y) := by omega
    rw [hneg, Int.neg_tdiv, Int.tdiv_eq_ediv_of_nonneg (by omega)]
    omega

/-- The days before a year, from its cycle and its number in the cycle. -/
theorem days_of_era (y : ℤ) : y / 400 * 146097 + ((y - y / 400 * 400) * 365 +
    (y - y / 400 * 400).tdiv 4 - (y - y / 400 * 400).tdiv 100) =
    365 * y + y / 4 - y / 100 + y / 400 := by
  rw [Int.tdiv_eq_ediv_of_nonneg (by omega), Int.tdiv_eq_ediv_of_nonneg (by omega)]
  omega

theorem exactly_ite {p : Prop} [Decidable p] {a b : ℤ} {x : Outcome Empty ℤ} (hx : Exactly b x) :
    Exactly (if p then a else b) (if p then pure a else x) := by
  split_ifs
  · exact .inl rfl
  · exact hx

/-- `days_from_civil` returns the number of the date, if it does not panic. -/
theorem exactly_daysFromCivil {y : ℤ} {m : ℕ} {d : ℤ} (hm : 1 ≤ m) (hd : 1 ≤ d) :
    Exactly (dayNumber y m d.toNat) (daysFromCivil y m d) := by
  generalize hY : (if m ≤ 2 then y - 1 else y) = Y
  have hdoy : (153 * (if (m : ℤ) > 2 then (m : ℤ) - 3 else m + 9) + 2).tdiv 5 + d - 1 =
      (dayOfMarch m d.toNat : ℤ) := by
    rw [Int.tdiv_eq_ediv_of_nonneg (by split_ifs <;> omega)]
    unfold dayOfMarch
    split_ifs <;> omega
  have hvalue : dayNumber y m d.toNat = Y / 400 * 146097 + ((Y - Y / 400 * 400) * 365 +
      (Y - Y / 400 * 400).tdiv 4 - (Y - Y / 400 * 400).tdiv 100 +
      ((153 * (if (m : ℤ) > 2 then (m : ℤ) - 3 else m + 9) + 2).tdiv 5 + d - 1)) - 719468 := by
    rw [hdoy, dayNumber, hY, ← days_of_era Y]
    ring
  rw [hvalue]
  unfold daysFromCivil
  refine Exactly.bind (a := Y) ?_ ?_
  · rw [← hY]
    by_cases h : m ≤ 2
    · rw [if_pos h, if_pos (by omega)]
      exact exactly_i64 _
    · rw [if_neg h, if_neg (by omega)]
      exact .inl rfl
  refine Exactly.bind (exactly_ite (exactly_i64 _)) ?_
  dsimp only
  rw [era_eq]
  refine Exactly.bind (exactly_i64 _) ?_
  refine Exactly.bind (exactly_i64 _) ?_
  refine Exactly.bind (a := if (m : ℤ) > 2 then (m : ℤ) - 3 else m + 9) ?_ ?_
  · split_ifs <;> exact exactly_i64 _
  refine Exactly.bind (exactly_i64 _) ?_
  refine Exactly.bind (exactly_i64 _) ?_
  refine Exactly.bind (exactly_i64 _) ?_
  refine Exactly.bind (exactly_i64 _) ?_
  refine Exactly.bind (exactly_i64 _) ?_
  refine Exactly.bind (exactly_i64 _) ?_
  refine Exactly.bind (exactly_i64 _) ?_
  refine Exactly.bind (exactly_i64 _) ?_
  refine Exactly.bind (exactly_i64 _) ?_
  exact Exactly.bind (exactly_i64 _) (exactly_i64 _)

theorem bind_ne_panic {α β : Type} {x : Outcome Empty α} {a : α} {f : α → Outcome Empty β}
    (hx : x = .ok a) (hf : f a ≠ .panic) : (x >>= f) ≠ .panic := by
  rwa [hx, ok_bind]

/-- **The number of a date is computed**, for years that are not too far away. -/
theorem daysFromCivil_eq {y : ℤ} {m : ℕ} {d : ℤ} (hy : -10 ^ 13 ≤ y ∧ y ≤ 10 ^ 13)
    (hm : 1 ≤ m ∧ m ≤ 12) (hd : 1 ≤ d ∧ d ≤ 31) :
    daysFromCivil y m d = .ok (dayNumber y m d.toNat) := by
  refine (exactly_daysFromCivil hm.1 hd.1).resolve_right ?_
  have hmarch : ∃ Y : ℤ, (if (m : ℤ) ≤ 2 then i64 (y - 1) else pure y) =
      (.ok Y : Outcome Empty ℤ) ∧ -10 ^ 13 - 1 ≤ Y ∧ Y ≤ 10 ^ 13 := by
    split_ifs
    · exact ⟨y - 1, i64_eq (by omega), by omega, by omega⟩
    · exact ⟨y, rfl, by omega, hy.2⟩
  have hmonth : ∃ mp : ℤ, (if (m : ℤ) > 2 then i64 ((m : ℤ) - 3) else i64 ((m : ℤ) + 9)) =
      (.ok mp : Outcome Empty ℤ) ∧ 0 ≤ mp ∧ mp ≤ 11 := by
    split_ifs
    · exact ⟨m - 3, i64_eq (by omega), by omega, by omega⟩
    · exact ⟨m + 9, i64_eq (by omega), by omega, by omega⟩
  obtain ⟨Y, hY, hYl, hYu⟩ := hmarch
  obtain ⟨mp, hmp, hmpl, hmpu⟩ := hmonth
  unfold daysFromCivil
  refine bind_ne_panic hY ?_
  refine bind_ne_panic (a := if Y ≥ 0 then Y else Y - 399) ?_ ?_
  · split_ifs
    · rfl
    · exact i64_eq (by omega)
  dsimp only
  rw [era_eq]
  refine bind_ne_panic (i64_eq (by omega)) (bind_ne_panic (i64_eq (by omega)) ?_)
  refine bind_ne_panic hmp (bind_ne_panic (i64_eq (by omega))
    (bind_ne_panic (i64_eq (by omega)) ?_))
  rw [Int.tdiv_eq_ediv_of_nonneg (a := 153 * mp + 2) (by omega),
    Int.tdiv_eq_ediv_of_nonneg (a := Y - Y / 400 * 400) (by omega),
    Int.tdiv_eq_ediv_of_nonneg (a := Y - Y / 400 * 400) (by omega)]
  refine bind_ne_panic (i64_eq (by omega)) (bind_ne_panic (i64_eq (by omega)) ?_)
  refine bind_ne_panic (i64_eq (by omega)) (bind_ne_panic (i64_eq (by omega)) ?_)
  refine bind_ne_panic (i64_eq (by omega)) (bind_ne_panic (i64_eq (by omega)) ?_)
  refine bind_ne_panic (i64_eq (by omega)) (bind_ne_panic (i64_eq (by omega)) ?_)
  rw [i64_eq (by omega)]
  exact nofun

theorem of_i64_eq_ok {x y : ℤ} (h : (i64 x : Outcome Empty ℤ) = .ok y) :
    y = x ∧ -2 ^ 63 ≤ x ∧ x < 2 ^ 63 := by
  unfold i64 at h
  split_ifs at h with hx
  cases h
  exact ⟨rfl, hx⟩

namespace DateFields

variable {f : DateFields}

/-- The seconds are those of the instant, if the arithmetic fits. -/
theorem seconds_of_fits (hf : f.InRange) (hm : 1 ≤ f.month ∧ f.month ≤ 12) (hfits : f.Fits) :
    f.seconds = .ok f.instant := by
  obtain ⟨hday, hhour, hminute, hsecond⟩ := hf
  obtain ⟨hlow, hhigh⟩ := hfits
  have hyear : -10 ^ 13 ≤ f.year ∧ f.year ≤ 10 ^ 13 := by
    have hle := dayOfMarch_le f.day.toNat hm.2
    unfold instant at hhigh
    unfold dayNumber at hlow hhigh
    dsimp only at hlow hhigh
    split_ifs at hlow hhigh <;> omega
  unfold instant at hhigh ⊢
  unfold seconds
  rw [daysFromCivil_eq hyear hm hday, ok_bind]
  generalize dayNumber f.year f.month f.day.toNat = days at *
  rw [i64_eq (by omega), ok_bind, i64_eq (by omega), ok_bind, i64_eq (by omega), ok_bind,
    i64_eq (by omega), ok_bind, i64_eq (by omega), ok_bind, i64_eq (by omega)]

/-- Otherwise an operation is out of range. -/
theorem seconds_of_not_fits (hf : f.InRange) (hm : 1 ≤ f.month) (hfits : ¬f.Fits) :
    f.seconds = .panic := by
  have hexact : Exactly f.instant f.seconds := by
    refine Exactly.bind (exactly_daysFromCivil hm hf.1.1) ?_
    refine Exactly.bind (exactly_i64 _) (Exactly.bind (exactly_i64 _) ?_)
    refine Exactly.bind (exactly_i64 _) (Exactly.bind (exactly_i64 _) ?_)
    exact Exactly.bind (exactly_i64 _) (exactly_i64 _)
  refine hexact.resolve_left fun hok => hfits ?_
  unfold seconds at hok
  obtain ⟨days, hdays, hok⟩ := bind_eq_ok.mp hok
  obtain ⟨a, ha, hok⟩ := bind_eq_ok.mp hok
  obtain ⟨b, -, hok⟩ := bind_eq_ok.mp hok
  obtain ⟨c, -, hok⟩ := bind_eq_ok.mp hok
  obtain ⟨d, -, hok⟩ := bind_eq_ok.mp hok
  obtain ⟨e, -, hok⟩ := bind_eq_ok.mp hok
  obtain ⟨-, hlow, -⟩ := of_i64_eq_ok ha
  obtain ⟨hinstant, -, hhigh⟩ := of_i64_eq_ok hok
  have hnumber : days = dayNumber f.year f.month f.day.toNat := by
    rcases exactly_daysFromCivil (y := f.year) hm hf.1.1 with heq | heq
    · exact Outcome.ok.inj (hdays.symm.trans heq)
    · cases hdays.symm.trans heq
  rw [hnumber] at hlow
  rw [← hinstant] at hhigh
  exact ⟨hlow, hhigh⟩

/-- **An instant is what is written**: the calendar and the clock say the same. -/
structure SaidBy (f : DateFields) (m : Moment) : Prop where
  day : (m.date.day : ℤ) = f.day
  month : m.date.month = f.month
  year : (m.date.year : ℤ) = f.year
  hour : (m.hour : ℤ) = f.hour
  minute : (m.minute : ℤ) = f.minute
  second : (m.second : ℤ) = f.second

/-- **The instant of a date is what is written exactly if the month has the day.** -/
theorem saidBy_iff (hf : f.InRange) (hm : 1 ≤ f.month ∧ f.month ≤ 12) (hsecond : f.second ≠ 60)
    (hpos : 0 ≤ f.instant) : f.SaidBy (momentOf f.instant.toNat) ↔
      f.day ≤ daysInMonth (isLeap f.year.toNat) f.month := by
  obtain ⟨hday, hhour, hminute, hsecond'⟩ := hf
  -- the instant is `rest` seconds into the day
  obtain ⟨n, hn⟩ : ∃ n : ℕ, dayNumber f.year f.month f.day.toNat = n := by
    unfold instant at hpos
    exact ⟨(dayNumber f.year f.month f.day.toNat).toNat, by omega⟩
  have hinstant : f.instant.toNat = n * 86400 +
      (f.hour.toNat * 3600 + f.minute.toNat * 60 + f.second.toNat) := by
    unfold instant
    rw [hn]
    omega
  have hdate : (momentOf f.instant.toNat).date = dateOf n := by
    rw [momentOf, hinstant]
    exact congrArg dateOf (by omega)
  have hclock : ((momentOf f.instant.toNat).hour : ℤ) = f.hour ∧
      ((momentOf f.instant.toNat).minute : ℤ) = f.minute ∧
      ((momentOf f.instant.toNat).second : ℤ) = f.second := by
    rw [momentOf, hinstant]
    dsimp only
    omega
  have hyear : 0 ≤ f.year := by
    have hle := dayOfMarch_le f.day.toNat hm.2
    unfold dayNumber at hn
    dsimp only at hn
    split_ifs at hn <;> omega
  constructor
  · intro h
    have hvalid := (dateOf_valid n).day_le
    rw [← hdate, h.month, show (momentOf f.instant.toNat).date.year = f.year.toNat by
      have := h.year; omega] at hvalid
    have := h.day
    omega
  · intro h
    have hsame : dateOf n = ⟨f.year.toNat, f.month, f.day.toNat⟩ := by
      refine dateOf_dayNumber ⟨hm.1, hm.2, by dsimp only; omega, by dsimp only; omega⟩ ?_
      dsimp only
      rw [Int.toNat_of_nonneg hyear, hn]
    rw [← hdate] at hsame
    refine ⟨?_, ?_, ?_, hclock.1, hclock.2.1, hclock.2.2⟩ <;> rw [hsame]
    · exact Int.toNat_of_nonneg (by omega)
    · exact Int.toNat_of_nonneg hyear

end DateFields

theorem monthNum_bounds {t : Text} {m : ℕ} (h : monthNum t = some m) : 1 ≤ m ∧ m ≤ 12 := by
  obtain ⟨i, hi, rfl⟩ := Option.map_eq_some_iff.mp h
  have hlt := (List.findIdx?_eq_some_iff_getElem.mp hi).1
  have hlen : monthNames.length = 12 := rfl
  omega

theorem readFields_month {s : Text} {f : DateFields} (h : readFields s = some f) :
    1 ≤ f.month ∧ f.month ≤ 12 := by
  simp only [readFields, Option.bind_eq_bind, Option.bind_eq_some_iff, Option.pure_def,
    Option.some.injEq] at h
  obtain ⟨_, -, _, -, _, -, m, hm, _, -, _, -, _, -, _, -, _, -, _, -, _, -, _, -, _, -, rfl⟩ := h
  exact monthNum_bounds hm

/-- **What is read from a date is what is written, exactly if it fits and exists.** For every
text: `parse_http_date` does not overflow and, unless the seconds are 60, the instant it returns is
the one written, exactly if fields that are in range stand for an instant within the range of the
arithmetic and, where it is not before the epoch, for a day that its month has. -/
theorem parseHttpDate_faithful (s : Text) :
    ((∃ r, parseHttpDate s = .ok r) ∧ ∀ t f, parseHttpDate s = .ok (some t) →
      readFields s = some f → f.second ≠ 60 → f.SaidBy (momentOf t)) ↔
    ∀ f, readFields s = some f → f.InRange → f.Fits ∧ (f.second ≠ 60 → 0 ≤ f.instant →
      f.day ≤ daysInMonth (isLeap f.year.toNat) f.month) := by
  unfold parseHttpDate
  cases hread : readFields s with
  | none =>
    refine iff_of_true ⟨⟨none, rfl⟩, fun t f h => by cases h⟩ fun f h => by cases h
  | some f =>
    have hm := readFields_month hread
    by_cases hf : f.InRange
    case neg =>
      simp only [hf, not_false_eq_true, if_true]
      refine iff_of_true ⟨⟨none, rfl⟩, fun t g h => by cases h⟩ fun g hg hrange => ?_
      cases hg
      exact absurd hrange hf
    simp only [hf, not_true_eq_false, if_false]
    by_cases hfits : f.Fits
    case neg =>
      rw [DateFields.seconds_of_not_fits hf hm.1 hfits, panic_bind]
      refine iff_of_false (fun h => ?_) fun h => hfits (h f rfl hf).1
      obtain ⟨⟨r, hr⟩, -⟩ := h
      cases hr
    rw [DateFields.seconds_of_fits hf hm hfits, ok_bind]
    by_cases hpos : 0 ≤ f.instant
    · rw [if_pos hpos]
      constructor
      · rintro ⟨-, h⟩ g hg -
        cases hg
        refine ⟨hfits, fun hsecond _ => ?_⟩
        exact (DateFields.saidBy_iff hf hm hsecond hpos).mp (h _ f rfl rfl hsecond)
      · intro h
        refine ⟨⟨_, rfl⟩, fun t g ht hg hsecond => ?_⟩
        cases ht
        cases hg
        exact (DateFields.saidBy_iff hf hm hsecond hpos).mpr ((h f rfl hf).2 hsecond hpos)
    · rw [if_neg hpos]
      refine iff_of_true ⟨⟨none, rfl⟩, fun t g h => by cases h⟩ fun g hg _ => ?_
      cases hg
      exact ⟨hfits, fun _ h => absurd h hpos⟩

/-- The largest year there is, on which the arithmetic overflows, and a day that February does not
have, which is taken for one of March. -/
theorem parseHttpDate_unfaithful :
    parseHttpDate "Wed, 01 Jan 9223372036854775807 00:00:00 GMT".toList = .panic ∧
    parseHttpDate "Wed, 31 Feb 2021 00:00:00 GMT".toList = .ok (some 1614729600) ∧
    readFields "Wed, 31 Feb 2021 00:00:00 GMT".toList = some ⟨31, 2, 2021, 0, 0, 0⟩ ∧
    (momentOf 1614729600).date = ⟨2021, 3, 3⟩ := by
  refine ⟨by decide +kernel, by decide +kernel, by decide +kernel, ?_⟩
  rw [momentOf]
  dsimp only
  rw [dateOf_eq_ofMarch]
  decide +kernel

/-! ### The round trip -/

theorem monthNum_monthName {m : ℕ} (h : 1 ≤ m ∧ m ≤ 12) : monthNum (monthName m) = some m := by
  have hall : ∀ m < 13, 1 ≤ m → monthNum (monthName m) = some m := by decide +kernel
  exact hall m (by omega) h.1

/-- A name is a word without a comma. -/
theorem monthName_word {m : ℕ} (h : 1 ≤ m ∧ m ≤ 12) :
    monthName m ≠ [] ∧ ∀ c ∈ monthName m, isWhiteSpace c = false := by
  have hall : ∀ m < 13, 1 ≤ m → monthName m ≠ [] ∧
      (monthName m).all (fun c => !isWhiteSpace c) = true := by decide +kernel
  obtain ⟨hne, hspace⟩ := hall m (by omega) h.1
  exact ⟨hne, fun c hc => by simpa using List.all_eq_true.mp hspace c hc⟩

theorem digits_word (d : Digits) : ∀ c ∈ d.text, isWhiteSpace c = false :=
  fun c hc => isWhiteSpace_of_isDigit (d.isDigit c hc)

/-- The time of day is a word, and cut at its colons. -/
theorem timeText_split (m : Moment) : (∀ c ∈ m.timeText, isWhiteSpace c = false) ∧
    m.timeText ≠ [] ∧ m.timeText.splitOn ':' =
      [(padded 2 m.hour).text, (padded 2 m.minute).text, (padded 2 m.second).text] := by
  have hcolon : ∀ d : Digits, ∀ c ∈ d.text, (c == ':') = false := by
    intro d c hc
    exact beq_eq_false_iff_ne.mpr fun h => d.not_mem (c := ':') rfl (h ▸ hc)
  unfold Moment.timeText
  refine ⟨fun c hc => ?_, by simp, ?_⟩
  · rcases List.mem_append.mp hc with hc | hc
    · exact digits_word _ c hc
    rcases List.mem_cons.mp hc with rfl | hc
    · decide
    rcases List.mem_append.mp hc with hc | hc
    · exact digits_word _ c hc
    rcases List.mem_cons.mp hc with rfl | hc
    · decide
    · exact digits_word _ c hc
  · rw [List.splitOn_eq_splitOnP, List.splitOnP_append_cons _ _ (by rfl),
      List.splitOnP_append_cons _ _ (by rfl), List.splitOnP_eq_singleton (hcolon _),
      List.splitOnP_eq_singleton (hcolon _), List.splitOnP_eq_singleton (hcolon _)]
    rfl

/-- The words of a date. -/
theorem splitWhitespace_fixdate (m : Moment) (hm : 1 ≤ m.date.month ∧ m.date.month ≤ 12) :
    splitWhitespace (((splitOnce ',' m.fixdate).map Prod.snd).getD m.fixdate) =
      [(padded 2 m.date.day).text, monthName m.date.month, (padded 4 m.date.year).text, m.timeText,
        "GMT".toList] := by
  have hcomma : ',' ∉ weekdayName m.weekday := by
    cases m.weekday <;> decide +kernel
  have hsplit : splitOnce ',' m.fixdate = some (weekdayName m.weekday, ' ' ::
      ((padded 2 m.date.day).text ++ ' ' :: (monthName m.date.month ++ ' ' ::
        ((padded 4 m.date.year).text ++ ' ' :: (m.timeText ++ ' ' :: "GMT".toList))))) :=
    splitOnce_append hcomma _
  rw [hsplit, Option.map_some, Option.getD_some, splitWhitespace_space,
    splitWhitespace_append (padded 2 m.date.day).ne_nil (digits_word _),
    splitWhitespace_append (monthName_word hm).1 (monthName_word hm).2,
    splitWhitespace_append (padded 4 m.date.year).ne_nil (digits_word _),
    splitWhitespace_append (timeText_split m).2.1 (timeText_split m).1]
  rfl

/-- The fields of a date are those it was rendered from. -/
theorem readFields_fixdate {m : Moment} (hm : 1 ≤ m.date.month ∧ m.date.month ≤ 12)
    (hyear : m.date.year < 2 ^ 63) (hday : m.date.day < 2 ^ 63) (hhour : m.hour < 2 ^ 63)
    (hminute : m.minute < 2 ^ 63) (hsecond : m.second < 2 ^ 63) :
    readFields m.fixdate =
      some ⟨m.date.day, m.date.month, m.date.year, m.hour, m.minute, m.second⟩ := by
  have hparse : ∀ w n : ℕ, n < 2 ^ 63 → parseI64 (padded w n).text = some (n : ℤ) := by
    intro w n hn
    have h := parseI64_digits (padded w n)
    rw [value_padded] at h
    exact h hn
  unfold readFields
  dsimp only
  rw [splitWhitespace_fixdate m hm]
  simp only [List.getElem?_cons_zero, List.getElem?_cons_succ, Option.bind_eq_bind,
    Option.bind_some,
    hparse _ _ hday, hparse _ _ hyear, hparse _ _ hhour, hparse _ _ hminute, hparse _ _ hsecond,
    monthNum_monthName hm, (timeText_split m).2.2]
  rfl

/-- **What is rendered is read back**, for every instant within the range of the arithmetic. -/
theorem parseHttpDate_fixdate {secs : ℕ} (h : secs < 2 ^ 62) :
    parseHttpDate (momentOf secs).fixdate = .ok (some secs) := by
  have hvalid := dateOf_valid (secs / 86400)
  have hnumber := dayNumber_dateOf (secs / 86400)
  have hday : (dateOf (secs / 86400)).day ≤ 31 :=
    hvalid.day_le.trans (by unfold daysInMonth; split_ifs <;> omega)
  have hyear : (dateOf (secs / 86400)).year < 2 ^ 63 := by
    unfold dayNumber at hnumber
    dsimp only at hnumber
    split_ifs at hnumber <;> omega
  have hread := readFields_fixdate (m := momentOf secs) ⟨hvalid.month_pos, hvalid.month_le⟩ hyear
    (by simp only [momentOf]; omega) (by simp only [momentOf]; omega)
    (by simp only [momentOf]; omega) (by simp only [momentOf]; omega)
  have hpos := hvalid.day_pos
  generalize hf : (⟨(momentOf secs).date.day, (momentOf secs).date.month, (momentOf secs).date.year,
    (momentOf secs).hour, (momentOf secs).minute, (momentOf secs).second⟩ : DateFields) = f at hread
  have hrange : f.InRange := by
    rw [← hf]
    simp only [DateFields.InRange, momentOf]
    omega
  have hinstant : f.instant = secs := by
    rw [← hf]
    simp only [DateFields.instant, momentOf, Int.toNat_natCast]
    rw [hnumber]
    omega
  have hfits : f.Fits := by
    refine ⟨?_, by omega⟩
    rw [← hf]
    simp only [momentOf, Int.toNat_natCast]
    rw [hnumber]
    omega
  unfold parseHttpDate
  rw [hread]
  simp only [hrange, not_true_eq_false, if_false]
  rw [DateFields.seconds_of_fits hrange (readFields_month hread) hfits, ok_bind, hinstant,
    if_pos (by omega), Int.toNat_natCast]
  rfl

/-- **Dates are rendered and read back.** For every number of milliseconds: the header names the
date, the day of the week and the time of the instant, as one finds them by going from day to day;
the document names the same and the milliseconds; no operation is out of range; and the header is
read back as the number of seconds. -/
theorem dates_correct (ms : UInt64) :
    httpDate ms = .ok (momentOf (ms.toNat / 1000)).fixdate ∧
    iso8601Millis ms = .ok ((momentOf (ms.toNat / 1000)).timestamp (ms.toNat % 1000)) ∧
    parseHttpDate (momentOf (ms.toNat / 1000)).fixdate = .ok (some (ms.toNat / 1000)) := by
  have hms := ms.toNat_lt
  exact ⟨httpDate_eq ms, iso8601Millis_eq ms, parseHttpDate_fixdate (by omega)⟩

end OzoneRust
