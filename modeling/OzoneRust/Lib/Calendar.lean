import Mathlib.Order.Monotone.Basic
import Mathlib.Tactic.Common

/-!
# The calendar

The calendar is what one gets by going from day to day: from Thursday, the first of January
1970, each day has a successor (`OzoneRust.Calendar.Date.next`), with the lengths of the months and
the rule for leap years, and `OzoneRust.Calendar.dateOf n` is the date `n` days later.

To compute it, years are counted from March on, so that the day that may be missing is the last of
its year. The years before year `Y` have `OzoneRust.Calendar.marchStart Y` days, and a day is a
year and a number in it; `OzoneRust.Calendar.ofMarch` reads its date off. The date after `n` days is
the one of the day with this number (`OzoneRust.Calendar.dateOf_eq`), which one finds by two
divisions and a correction (`OzoneRust.Calendar.yearOfEra_spec`).
-/

namespace OzoneRust

namespace Calendar

/-- Natural numbers are divided as such. -/
theorem tdiv_ofNat (a b : ℕ) : Int.tdiv (a : ℤ) (@OfNat.ofNat ℤ b instOfNat) =
    ((a / @OfNat.ofNat ℕ b (instOfNatNat b) : ℕ) : ℤ) := rfl

/-! ### From day to day -/

/-- Whether a year is a leap year. -/
def isLeap (year : ℕ) : Bool := year % 4 = 0 ∧ (year % 100 ≠ 0 ∨ year % 400 = 0)

/-- The days of a month. -/
def daysInMonth (leap : Bool) (month : ℕ) : ℕ :=
  if month = 2 then if leap then 29 else 28
  else if month = 4 ∨ month = 6 ∨ month = 9 ∨ month = 11 then 30 else 31

/-- A date. -/
structure Date where
  /-- The year. -/
  year : ℕ
  /-- The month, from one. -/
  month : ℕ
  /-- The day of the month, from one. -/
  day : ℕ
  deriving DecidableEq, Repr

/-- The date is one of the calendar. -/
structure Date.Valid (d : Date) : Prop where
  month_pos : 1 ≤ d.month
  month_le : d.month ≤ 12
  day_pos : 1 ≤ d.day
  day_le : d.day ≤ daysInMonth (isLeap d.year) d.month

/-- The next day, in a leap year or in another. -/
def Date.nextIn (leap : Bool) (d : Date) : Date :=
  if d.day < daysInMonth leap d.month then ⟨d.year, d.month, d.day + 1⟩
  else if d.month < 12 then ⟨d.year, d.month + 1, 1⟩
  else ⟨d.year + 1, 1, 1⟩

/-- The next day. -/
def Date.next (d : Date) : Date := d.nextIn (isLeap d.year)

/-- The days of the week. -/
inductive Weekday where
  | sunday | monday | tuesday | wednesday | thursday | friday | saturday
  deriving DecidableEq, Repr

/-- The next day. -/
def Weekday.next : Weekday → Weekday
  | sunday => monday
  | monday => tuesday
  | tuesday => wednesday
  | wednesday => thursday
  | thursday => friday
  | friday => saturday
  | saturday => sunday

/-- **The date of a day**, by its number from the first of January 1970. -/
def dateOf (n : ℕ) : Date := Date.next^[n] ⟨1970, 1, 1⟩

/-- **The day of the week of a day.** -/
def weekdayOf (n : ℕ) : Weekday := Weekday.next^[n] .thursday

theorem Date.Valid.next {d : Date} (h : d.Valid) : d.next.Valid := by
  have hpos : ∀ leap m, 1 ≤ daysInMonth leap m := by
    intro leap m
    unfold daysInMonth
    split_ifs <;> omega
  unfold Date.next Date.nextIn
  split_ifs with hday hmonth
  · exact ⟨h.month_pos, h.month_le, Nat.le_add_left 1 _, hday⟩
  · exact ⟨Nat.le_add_left 1 _, hmonth, Nat.le_refl 1, hpos _ _⟩
  · exact ⟨Nat.le_refl 1, Nat.le_add_left 1 11, Nat.le_refl 1, hpos _ _⟩

/-- Every date that is reached is one of the calendar. -/
theorem dateOf_valid (n : ℕ) : (dateOf n).Valid := by
  induction n with
  | zero => exact ⟨by decide, by decide, by decide, by decide⟩
  | succ n ih =>
    rw [dateOf, Function.iterate_succ_apply']
    exact ih.next

/-- The week goes round. -/
theorem weekdayOf_add_seven (n : ℕ) : weekdayOf (n + 7) = weekdayOf n := by
  have hseven : ∀ w : Weekday, Weekday.next^[7] w = w := by
    intro w
    cases w <;> rfl
  rw [weekdayOf, Function.iterate_add_apply, hseven, weekdayOf]

theorem weekdayOf_mod (n : ℕ) : weekdayOf (n % 7) = weekdayOf n := by
  have hmul : ∀ k r, weekdayOf (r + 7 * k) = weekdayOf r := by
    intro k r
    induction k with
    | zero => rfl
    | succ k ih => rw [Nat.mul_succ, ← Nat.add_assoc, weekdayOf_add_seven, ih]
  have hn := hmul (n / 7) (n % 7)
  rw [Nat.mod_add_div] at hn
  exact hn.symm

/-! ### Years from March on -/

/-- The days of the year that begins in March of year `Y`. -/
def marchLength (Y : ℕ) : ℕ := if isLeap (Y + 1) then 366 else 365

/-- The days of the years before it. -/
def marchStart (Y : ℕ) : ℕ := 365 * Y + Y / 4 - Y / 100 + Y / 400

/-- The month of a day of such a year, from March on. -/
def marchMonth (doy : ℕ) : ℕ := (5 * doy + 2) / 153

/-- The month as it is counted. -/
def monthOf (mp : ℕ) : ℕ := if mp < 10 then mp + 3 else mp - 9

/-- The date of day `doy` of the year that begins in March of year `Y`. -/
def ofMarch (Y doy : ℕ) : Date where
  year := if monthOf (marchMonth doy) ≤ 2 then Y + 1 else Y
  month := monthOf (marchMonth doy)
  day := doy - (153 * marchMonth doy + 2) / 5 + 1

theorem isLeap_iff (year : ℕ) :
    isLeap year = true ↔ year % 4 = 0 ∧ (year % 100 ≠ 0 ∨ year % 400 = 0) := decide_eq_true_iff

theorem succ_div (Y d : ℕ) :
    (Y + 1) / d = Y / d + if (Y + 1) % d = 0 then 1 else 0 := by
  rw [Nat.succ_div]
  congr 1
  exact if_congr Nat.dvd_iff_mod_eq_zero rfl rfl

theorem marchStart_succ (Y : ℕ) : marchStart (Y + 1) = marchStart Y + marchLength Y := by
  have h100 : (Y + 1) % 100 = 0 → (Y + 1) % 4 = 0 := by omega
  have h400 : (Y + 1) % 400 = 0 → (Y + 1) % 100 = 0 := by omega
  have hle : Y / 100 ≤ Y := Nat.div_le_self ..
  have hiff := isLeap_iff (Y + 1)
  unfold marchStart marchLength
  rw [succ_div Y 4, succ_div Y 100, succ_div Y 400]
  generalize Y / 4 = q₄, Y / 100 = q₁₀₀, Y / 400 = q₄₀₀ at *
  by_cases h₄ : (Y + 1) % 4 = 0
  · by_cases h₁ : (Y + 1) % 100 = 0
    · by_cases h₀ : (Y + 1) % 400 = 0
      · rw [if_pos h₄, if_pos h₁, if_pos h₀, if_pos (hiff.mpr ⟨h₄, .inr h₀⟩)]
        omega
      · rw [if_pos h₄, if_pos h₁, if_neg h₀, if_neg fun h => (hiff.mp h).2.elim (· h₁) h₀]
        omega
    · rw [if_pos h₄, if_neg h₁, if_neg (mt h400 h₁), if_pos (hiff.mpr ⟨h₄, .inl h₁⟩)]
      omega
  · rw [if_neg h₄, if_neg (mt h100 h₄), if_neg (mt h400 (mt h100 h₄)),
      if_neg fun h => h₄ (hiff.mp h).1]
    omega

theorem marchStart_mono : StrictMono marchStart :=
  strictMono_nat_of_lt_succ fun Y => by
    rw [marchStart_succ]
    unfold marchLength
    split_ifs <;> omega

/-! ### Days of a year -/

/-- The same day, some years later. -/
def Date.shift (Y : ℕ) (d : Date) : Date := ⟨d.year + Y, d.month, d.day⟩

theorem ofMarch_eq_shift (Y doy : ℕ) : ofMarch Y doy = (ofMarch 0 doy).shift Y := by
  unfold ofMarch Date.shift
  split_ifs <;> simp [Nat.add_comm]

theorem nextIn_shift (leap : Bool) (Y : ℕ) (d : Date) :
    (d.shift Y).nextIn leap = (d.nextIn leap).shift Y := by
  unfold Date.nextIn Date.shift
  split_ifs <;> simp [Nat.add_right_comm]

/-- Only February depends on the year, and it is the last month of a year that begins in March. -/
theorem next_eq_nextIn (Y doy : ℕ) :
    (ofMarch Y doy).next = (ofMarch Y doy).nextIn (isLeap (Y + 1)) := by
  have hdim : daysInMonth (isLeap (ofMarch Y doy).year) (ofMarch Y doy).month =
      daysInMonth (isLeap (Y + 1)) (ofMarch Y doy).month := by
    unfold ofMarch
    by_cases h : monthOf (marchMonth doy) ≤ 2
    · rw [if_pos h]
    · have hne : monthOf (marchMonth doy) ≠ 2 := by omega
      simp only [daysInMonth, if_neg hne]
  unfold Date.next Date.nextIn
  rw [hdim]

/-- The days of a year follow each other. -/
theorem nextIn_ofMarch : ∀ leap : Bool, ∀ doy < 365, doy + 1 < (if leap then 366 else 365) →
    (ofMarch 0 doy).nextIn leap = ofMarch 0 (doy + 1) := by
  intro leap
  cases leap <;> decide +kernel

theorem next_ofMarch {Y doy : ℕ} (h : doy + 1 < marchLength Y) :
    (ofMarch Y doy).next = ofMarch Y (doy + 1) := by
  have hlt : doy < 365 := by
    unfold marchLength at h
    split_ifs at h <;> omega
  rw [next_eq_nextIn, ofMarch_eq_shift, nextIn_shift, nextIn_ofMarch _ doy hlt h,
    ← ofMarch_eq_shift]

/-- After the last day of a year comes the first of the next. -/
theorem next_ofMarch_last (Y : ℕ) : (ofMarch Y (marchLength Y - 1)).next = ofMarch (Y + 1) 0 := by
  have hlast : ∀ leap : Bool,
      (ofMarch 0 ((if leap then 366 else 365) - 1)).nextIn leap = ofMarch 1 0 := by
    intro leap
    cases leap <;> decide +kernel
  rw [next_eq_nextIn, ofMarch_eq_shift, nextIn_shift, marchLength, hlast, ofMarch_eq_shift 1,
    ofMarch_eq_shift (Y + 1), Date.shift, Date.shift, Date.shift, Nat.add_assoc, Nat.add_comm 1]

/-- The first of January 1970, counted from March on. -/
theorem march_epoch {Y doy : ℕ} (h : doy < marchLength Y) (hn : marchStart Y + doy = 719468) :
    Y = 1969 ∧ doy = 306 := by
  have h₀ : marchStart 1969 = 719162 := by decide
  have h₁ : marchStart 1970 = 719527 := by decide
  have hY : Y = 1969 := by
    rcases Nat.lt_trichotomy Y 1969 with hlt | heq | hgt
    · have hle := marchStart_mono.monotone (Nat.succ_le_of_lt hlt)
      rw [Nat.succ_eq_add_one, marchStart_succ] at hle
      omega
    · exact heq
    · have hle : marchStart 1970 ≤ marchStart Y := marchStart_mono.monotone hgt
      omega
  subst hY
  exact ⟨rfl, by omega⟩

/-- **The date of a day**, from its year and its number in the year. -/
theorem dateOf_eq {n : ℕ} : ∀ {Y doy : ℕ}, doy < marchLength Y → n + 719468 = marchStart Y + doy →
    dateOf n = ofMarch Y doy := by
  induction n with
  | zero =>
    intro Y doy h hn
    obtain ⟨rfl, rfl⟩ := march_epoch h (by omega)
    decide +kernel
  | succ n ih =>
    intro Y doy h hn
    rw [dateOf, Function.iterate_succ_apply', ← dateOf]
    cases doy with
    | succ doy => rw [ih (Nat.lt_of_succ_lt h) (by omega), next_ofMarch h]
    | zero =>
      cases Y with
      | zero =>
        rw [show marchStart 0 = 0 from rfl] at hn
        omega
      | succ Y =>
        have hpos : 0 < marchLength Y := by
          unfold marchLength
          split_ifs <;> omega
        rw [marchStart_succ] at hn
        rw [ih (Nat.sub_lt hpos Nat.one_pos) (by omega), next_ofMarch_last]

/-! ### Finding the year -/

/-- The year of a day of a cycle of 400 years. -/
def yearOfEra (doe : ℕ) : ℕ := (doe - doe / 1460 + doe / 36524 - doe / 146096) / 365

theorem yearOfEra_mono {a b : ℕ} (h : a ≤ b) (hb : b < 146097) : yearOfEra a ≤ yearOfEra b := by
  refine Nat.div_le_div_right ?_
  have h₁ : a - a / 1460 ≤ b - b / 1460 := by omega
  have h₂ : a / 36524 ≤ b / 36524 := Nat.div_le_div_right h
  rcases Nat.lt_or_ge b 146096 with hlt | hge
  · rw [Nat.div_eq_of_lt hlt, Nat.div_eq_of_lt (h.trans_lt hlt)]
    omega
  · -- the last day of the cycle is one more than the rest says
    obtain rfl : b = 146096 := by omega
    rcases Nat.eq_or_lt_of_le h with rfl | hlt
    · exact le_rfl
    · rw [Nat.div_eq_of_lt hlt]
      omega

/-- The first and the last day of each year of the cycle. -/
theorem yearOfEra_ends : ∀ k < 400, yearOfEra (marchStart k) = k ∧
    (k < 399 → yearOfEra (marchStart (k + 1) - 1) = k) := by
  decide +kernel

/-- **The year is found**: the day is one of it. -/
theorem yearOfEra_spec {doe : ℕ} (h : doe < 146097) :
    yearOfEra doe < 400 ∧ marchStart (yearOfEra doe) ≤ doe ∧
      doe < marchStart (yearOfEra doe) + marchLength (yearOfEra doe) := by
  have hlast : yearOfEra 146096 = 399 := by decide +kernel
  have hle : yearOfEra doe ≤ 399 := hlast ▸ yearOfEra_mono (Nat.le_of_lt_succ h) (by decide)
  have hbound : marchStart (399 + 1) = 146097 := by decide +kernel
  generalize hk : yearOfEra doe = k at hle ⊢
  refine ⟨by omega, ?_, ?_⟩
  · -- a day before the first of the year is in an earlier one
    by_contra hlt
    cases k with
    | zero => exact hlt (Nat.zero_le _)
    | succ k =>
      have hend : marchStart (k + 1) ≤ marchStart (399 + 1) := marchStart_mono.monotone (by omega)
      have hbefore := yearOfEra_mono (a := doe) (b := marchStart (k + 1) - 1) (by omega) (by omega)
      rw [(yearOfEra_ends k (by omega)).2 (by omega), hk] at hbefore
      omega
  · rw [← marchStart_succ]
    by_contra hge
    rcases Nat.eq_or_lt_of_le hle with rfl | hlt
    · omega
    · have hafter := yearOfEra_mono (Nat.le_of_not_lt hge) h
      rw [(yearOfEra_ends (k + 1) (by omega)).1, hk] at hafter
      omega

/-- The cycles are alike. -/
theorem marchStart_era (era k : ℕ) : marchStart (400 * era + k) = 146097 * era + marchStart k := by
  unfold marchStart
  have h₄ : (400 * era + k) / 4 = 100 * era + k / 4 := by omega
  have h₁ : (400 * era + k) / 100 = 4 * era + k / 100 := by omega
  have h₀ : (400 * era + k) / 400 = era + k / 400 := by omega
  have hle : k / 100 ≤ k := Nat.div_le_self ..
  rw [h₄, h₁, h₀]
  omega

theorem marchLength_era (era k : ℕ) : marchLength (400 * era + k) = marchLength k := by
  have hleap : isLeap (400 * era + k + 1) = isLeap (k + 1) := by
    unfold isLeap
    rw [show (400 * era + k + 1) % 4 = (k + 1) % 4 by omega,
      show (400 * era + k + 1) % 100 = (k + 1) % 100 by omega,
      show (400 * era + k + 1) % 400 = (k + 1) % 400 by omega]
  rw [marchLength, hleap, marchLength]

/-- **The date of a day is computed**: the cycle, the year in it and the day of the year. -/
theorem dateOf_eq_ofMarch (n : ℕ) :
    dateOf n = ofMarch (400 * ((n + 719468) / 146097) + yearOfEra ((n + 719468) % 146097))
      ((n + 719468) % 146097 - marchStart (yearOfEra ((n + 719468) % 146097))) := by
  obtain ⟨-, hle, hlt⟩ := yearOfEra_spec (Nat.mod_lt (n + 719468) (by decide : 146097 > 0))
  refine dateOf_eq ?_ ?_
  · rw [marchLength_era]
    omega
  · rw [marchStart_era]
    omega

/-! ### From a date to its day -/

/-- The number of a date in the year that begins in March. -/
def dayOfMarch (month day : ℕ) : ℕ :=
  (153 * (if 2 < month then month - 3 else month + 9) + 2) / 5 + day - 1

theorem ofMarch_dayOfMarch_zero : ∀ leap : Bool, ∀ m < 13, ∀ d < 32,
    1 ≤ m ∧ 1 ≤ d ∧ d ≤ daysInMonth leap m →
    dayOfMarch m d < (if leap then 366 else 365) ∧
      ofMarch 0 (dayOfMarch m d) = ⟨if m ≤ 2 then 1 else 0, m, d⟩ := by
  intro leap
  cases leap <;> decide +kernel

/-- **A date is found by its number**: it is the one of the day that the numbers of the years before
it and of the date in its year add up to. -/
theorem dateOf_dayOfMarch {Y n : ℕ} {d : Date} (hd : d.Valid)
    (hY : d.year = if d.month ≤ 2 then Y + 1 else Y)
    (hn : n + 719468 = marchStart Y + dayOfMarch d.month d.day) : dateOf n = d := by
  have hdim : daysInMonth (isLeap d.year) d.month = daysInMonth (isLeap (Y + 1)) d.month := by
    by_cases h : d.month ≤ 2
    · rw [hY, if_pos h]
    · have hne : d.month ≠ 2 := by omega
      simp only [daysInMonth, if_neg hne]
  have hday := hd.day_le
  rw [hdim] at hday
  have hle : daysInMonth (isLeap (Y + 1)) d.month ≤ 31 := by
    unfold daysInMonth
    split_ifs <;> omega
  obtain ⟨hlt, hof⟩ := ofMarch_dayOfMarch_zero (isLeap (Y + 1)) d.month
    (Nat.lt_succ_of_le hd.month_le) d.day (by omega) ⟨hd.month_pos, hd.day_pos, hday⟩
  rw [dateOf_eq hlt hn, ofMarch_eq_shift, hof]
  obtain ⟨year, month, day⟩ := d
  simp only [Date.shift] at hY ⊢
  rw [hY]
  split_ifs <;> simp [Nat.add_comm]

/-- **The number of a date**, from the first of January 1970: negative before it. Of a day that is
not in its month, it is the number counted on from the days that are. -/
def dayNumber (year : ℤ) (month day : ℕ) : ℤ :=
  let Y := if month ≤ 2 then year - 1 else year
  365 * Y + Y / 4 - Y / 100 + Y / 400 + dayOfMarch month day - 719468

theorem marchStart_cast (Y : ℕ) :
    (marchStart Y : ℤ) = 365 * (Y : ℤ) + (Y : ℤ) / 4 - (Y : ℤ) / 100 + (Y : ℤ) / 400 := by
  have hle : Y / 100 ≤ Y := Nat.div_le_self ..
  unfold marchStart
  omega

theorem dayOfMarch_ofMarch : ∀ doy < 366,
    dayOfMarch (ofMarch 0 doy).month (ofMarch 0 doy).day = doy := by
  decide +kernel

theorem dayNumber_ofMarch (Y : ℕ) {doy : ℕ} (h : doy < 366) :
    dayNumber (ofMarch Y doy).year (ofMarch Y doy).month (ofMarch Y doy).day =
      marchStart Y + doy - 719468 := by
  have hyear : (if (ofMarch Y doy).month ≤ 2 then ((ofMarch Y doy).year : ℤ) - 1
      else (ofMarch Y doy).year) = Y := by
    unfold ofMarch
    split_ifs <;> simp
  have hday : dayOfMarch (ofMarch Y doy).month (ofMarch Y doy).day = doy :=
    dayOfMarch_ofMarch doy h
  rw [dayNumber, hyear, hday, marchStart_cast]

/-- The number of the date of a day is that of the day. -/
theorem dayNumber_dateOf (n : ℕ) :
    dayNumber (dateOf n).year (dateOf n).month (dateOf n).day = n := by
  have hmod : (n + 719468) % 146097 < 146097 := Nat.mod_lt _ (by decide)
  obtain ⟨-, hle, hlt⟩ := yearOfEra_spec hmod
  have hmax : marchLength (yearOfEra ((n + 719468) % 146097)) ≤ 366 := by
    unfold marchLength
    split_ifs <;> omega
  rw [dateOf_eq_ofMarch, dayNumber_ofMarch _ (by omega), marchStart_era]
  omega

theorem dayOfMarch_le {month : ℕ} (day : ℕ) (hm : month ≤ 12) :
    dayOfMarch month day ≤ 337 + day := by
  unfold dayOfMarch
  split_ifs <;> omega

/-- **A date of the calendar is that of the day with its number.** -/
theorem dateOf_dayNumber {d : Date} (hd : d.Valid) {n : ℕ}
    (hn : dayNumber d.year d.month d.day = n) : dateOf n = d := by
  have hmarch : ∃ Y : ℕ, (if d.month ≤ 2 then (d.year : ℤ) - 1 else d.year) = Y := by
    by_cases hm : d.month ≤ 2
    · rw [if_pos hm]
      refine ⟨d.year - 1, ?_⟩
      -- the year is not zero, since the number is not negative
      have hle := dayOfMarch_le d.day hd.month_le
      have hday : d.day ≤ 31 := hd.day_le.trans (by unfold daysInMonth; split_ifs <;> omega)
      rw [dayNumber, if_pos hm] at hn
      omega
    · exact ⟨d.year, if_neg hm⟩
  obtain ⟨Y, hY⟩ := hmarch
  have hcast := marchStart_cast Y
  rw [dayNumber, hY] at hn
  refine dateOf_dayOfMarch (Y := Y) hd ?_ (by omega)
  split_ifs at hY ⊢ <;> omega

end Calendar

end OzoneRust
