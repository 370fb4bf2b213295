import Mathlib.Tactic

/-!
# Machinery/Calendar — the Gregorian calendar as a count of days

The days before a year and before a month are sums of lengths, leap years by the 4/100/400 rule;
`Date.dayNumber` counts the days since 0000-01-01.  It is strictly increasing (`Date.dayNumber_lt`), since a
valid date lies before the first of the next month and of the next year.

A conversion the other way works with years that begin in March, whose leap day is the last
(`marchStart`, `marchMonth`).  `yearOfEra` finds such a year in an era of 400 from the day alone: its
numerator never falls, so it is enough that the first and the last day of each year come out right
(`marchStart_yearOfEra`).
-/

namespace Machinery.Calendar

/-- The 4/100/400 rule. -/
def IsLeap (y : ℕ) : Prop := 4 ∣ y ∧ (¬ 100 ∣ y ∨ 400 ∣ y)

instance : DecidablePred IsLeap := fun _ => inferInstanceAs (Decidable (_ ∧ _))

def yearLength (y : ℕ) : ℕ := if IsLeap y then 366 else 365

def monthLength (y : ℕ) : ℕ → ℕ
  | 2 => if IsLeap y then 29 else 28
  | 4 | 6 | 9 | 11 => 30
  | _ => 31

def daysBeforeYear : ℕ → ℕ
  | 0 => 0
  | y + 1 => daysBeforeYear y + yearLength y

/-- The days of the year before month `m`. -/
def daysBeforeMonth (y : ℕ) : ℕ → ℕ
  | 0 | 1 => 0
  | m + 2 => daysBeforeMonth y (m + 1) + monthLength y (m + 1)

structure Date where
  year : ℕ
  month : ℕ
  day : ℕ
deriving DecidableEq

namespace Date

structure Valid (d : Date) : Prop where
  one_le_month : 1 ≤ d.month
  month_le : d.month ≤ 12
  one_le_day : 1 ≤ d.day
  day_le : d.day ≤ monthLength d.year d.month

/-- The days since 0000-01-01. -/
def dayNumber (d : Date) : ℕ := daysBeforeYear d.year + daysBeforeMonth d.year d.month + (d.day - 1)

end Date

/-! ## The order of the dates -/

variable {y y' m m' : ℕ} {d d' : Date}

theorem daysBeforeYear_mono : Monotone daysBeforeYear :=
  monotone_nat_of_le_succ fun _ => Nat.le_add_right _ _

theorem daysBeforeMonth_mono (y : ℕ) : Monotone (daysBeforeMonth y) := by
  refine monotone_nat_of_le_succ fun m => ?_
  cases m with
  | zero => exact le_rfl
  | succ m => exact Nat.le_add_right _ _

theorem daysBeforeMonth_thirteen (y : ℕ) : daysBeforeMonth y 13 = yearLength y := by
  simp only [daysBeforeMonth, monthLength, yearLength]
  split_ifs <;> rfl

namespace Date

theorem Valid.day_lt (h : d.Valid) (hm : d.month < m) :
    daysBeforeMonth d.year d.month + (d.day - 1) < daysBeforeMonth d.year m := by
  have hmono := daysBeforeMonth_mono d.year (Nat.succ_le_of_lt hm)
  have hday := h.day_le
  have hfirst := h.one_le_day
  obtain ⟨k, hk⟩ := Nat.exists_eq_add_of_le' h.one_le_month
  rw [hk] at hday hmono ⊢
  rw [Nat.succ_eq_add_one, daysBeforeMonth] at hmono
  omega

theorem Valid.dayNumber_lt (h : d.Valid) (hy : d.year < y) : d.dayNumber < daysBeforeYear y := by
  have hmonth := h.day_lt (m := 13) (Nat.lt_succ_of_le h.month_le)
  rw [daysBeforeMonth_thirteen] at hmonth
  have hyear : daysBeforeYear d.year + yearLength d.year ≤ daysBeforeYear y := daysBeforeYear_mono hy
  rw [dayNumber]
  omega

/-- Date `d` comes before `d'`: year, then month, then day. -/
def Before (d d' : Date) : Prop :=
  d.year < d'.year ∨ d.year = d'.year ∧ (d.month < d'.month ∨ d.month = d'.month ∧ d.day < d'.day)

/-- **Later dates have larger numbers.** -/
theorem dayNumber_lt (h : d.Valid) (hlt : d.Before d') : d.dayNumber < d'.dayNumber := by
  obtain ⟨y, m, k⟩ := d
  obtain ⟨y', m', k'⟩ := d'
  obtain hy | ⟨rfl, hm | ⟨rfl, hk⟩⟩ := hlt
  · exact (h.dayNumber_lt hy).trans_le (by rw [dayNumber]; omega)
  · have hday := h.day_lt hm
    simp only [dayNumber] at hday ⊢
    omega
  · have hfirst := h.one_le_day
    simp only [dayNumber] at hk hfirst ⊢
    omega

theorem before_of_dayNumber_lt (h : d'.Valid) (hlt : d.dayNumber < d'.dayNumber) : d.Before d' := by
  by_contra hnot
  have hle : d'.dayNumber ≤ d.dayNumber := by
    by_cases heq : d' = d
    · rw [heq]
    · refine (dayNumber_lt h ?_).le
      obtain ⟨y, m, k⟩ := d
      obtain ⟨y', m', k'⟩ := d'
      simp only [Before, Date.mk.injEq] at hnot heq ⊢
      omega
  omega

end Date

/-! ## Years from March on -/

/-- The days before 1 March of year `y`, since 0000-03-01. -/
def marchStart (y : ℕ) : ℕ := 365 * y + y / 4 - y / 100 + y / 400

/-- The days before month `mp` of a year that begins in March. -/
def marchMonth (mp : ℕ) : ℕ := (153 * mp + 2) / 5

theorem marchStart_succ (y : ℕ) :
    marchStart (y + 1) = marchStart y + 365 + if IsLeap (y + 1) then 1 else 0 := by
  have hle : y / 100 ≤ y / 4 := Nat.div_le_div_left (by decide) (by decide)
  rw [marchStart, marchStart, Nat.succ_div, Nat.succ_div, Nat.succ_div]
  by_cases h4 : 4 ∣ y + 1
  · by_cases h100 : 100 ∣ y + 1
    · by_cases h400 : 400 ∣ y + 1
      · rw [if_pos h4, if_pos h100, if_pos h400, if_pos ⟨h4, .inr h400⟩]
        omega
      · rw [if_pos h4, if_pos h100, if_neg h400, if_neg fun h => h.2.elim (absurd h100) h400]
        omega
    · rw [if_pos h4, if_neg h100, if_neg fun h => h100 (dvd_trans (by decide) h), if_pos ⟨h4, .inl h100⟩]
      omega
  · rw [if_neg h4, if_neg fun h => h4 (dvd_trans (by decide) h), if_neg fun h => h4 (dvd_trans (by decide) h),
      if_neg fun h => h4 h.1]
    omega

theorem daysBeforeYear_succ (y : ℕ) : daysBeforeYear (y + 1) = 366 + marchStart y := by
  induction y with
  | zero => rfl
  | succ y ih =>
    rw [daysBeforeYear, ih, yearLength, marchStart_succ]
    split_ifs <;> omega

theorem dayNumber_march (y k : ℕ) {mp : ℕ} (hmp : mp < 10) :
    (⟨y, mp + 3, k + 1⟩ : Date).dayNumber = 60 + marchStart y + marchMonth mp + k := by
  have hmonth : daysBeforeMonth y (mp + 3) = 59 + (if IsLeap y then 1 else 0) + marchMonth mp := by
    by_cases hleap : IsLeap y
    · interval_cases mp <;> simp [daysBeforeMonth, monthLength, marchMonth, hleap]
    · interval_cases mp <;> simp [daysBeforeMonth, monthLength, marchMonth, hleap]
  have hyear : daysBeforeYear y + (59 + if IsLeap y then 1 else 0) = 60 + marchStart y := by
    cases y with
    | zero => rfl
    | succ y =>
      rw [daysBeforeYear_succ, marchStart_succ]
      omega
  simp only [Date.dayNumber, hmonth, Nat.add_sub_cancel]
  omega

theorem dayNumber_january (y k : ℕ) {mp : ℕ} (hmp : 10 ≤ mp) (hlt : mp < 12) :
    (⟨y + 1, mp - 9, k + 1⟩ : Date).dayNumber = 60 + marchStart y + marchMonth mp + k := by
  have hmonth : daysBeforeMonth (y + 1) (mp - 9) + 306 = marchMonth mp := by
    interval_cases mp <;> rfl
  simp only [Date.dayNumber, daysBeforeYear_succ, Nat.add_sub_cancel]
  omega

/-! ## The year from the day -/

/-- The days of an era up to `doe`, its leap days left out. -/
def leapless (doe : ℕ) : ℕ := doe - doe / 1460 + doe / 36524 - doe / 146096

/-- The year of an era day `doe` lies in. -/
def yearOfEra (doe : ℕ) : ℕ := leapless doe / 365

theorem yearOfEra_mono : Monotone yearOfEra := by
  refine monotone_nat_of_le_succ fun doe => Nat.div_le_div_right ?_
  rw [leapless, leapless]
  omega

theorem yearOfEra_marchStart :
    ∀ y < 400, yearOfEra (marchStart y) = y ∧ yearOfEra (marchStart (y + 1) - 1) = y := by
  decide +kernel

/-- **The year is right**: the day lies between its 1 March and the next. -/
theorem marchStart_yearOfEra {doe : ℕ} (h : doe < 146097) :
    yearOfEra doe < 400 ∧ marchStart (yearOfEra doe) ≤ doe ∧ doe < marchStart (yearOfEra doe + 1) := by
  have hlt : yearOfEra doe < 400 := by
    have hle : yearOfEra doe ≤ 399 := yearOfEra_mono (Nat.le_of_lt_succ h)
    omega
  refine ⟨hlt, Nat.le_of_not_lt fun hbefore => ?_, Nat.lt_of_not_le fun hafter => ?_⟩
  · -- before the first day the year is smaller
    cases hy : yearOfEra doe with
    | zero =>
      rw [hy] at hbefore
      exact Nat.not_lt_zero _ hbefore
    | succ y =>
      rw [hy] at hbefore hlt
      have hle := yearOfEra_mono (Nat.le_sub_one_of_lt hbefore)
      rw [(yearOfEra_marchStart y (Nat.lt_of_succ_lt hlt)).2, hy] at hle
      omega
  · -- from the next year's first day on it is larger
    rcases Nat.lt_or_ge (yearOfEra doe + 1) 400 with hnext | hlast
    · have hle := yearOfEra_mono hafter
      rw [(yearOfEra_marchStart _ hnext).1] at hle
      omega
    · rw [show yearOfEra doe + 1 = 400 by omega] at hafter
      exact absurd (Nat.lt_of_lt_of_le h hafter) (lt_irrefl _)

theorem marchStart_add (era : ℕ) {y : ℕ} (h : y ≤ 400) :
    marchStart (400 * era + y) = 146097 * era + marchStart y := by
  rw [marchStart, marchStart]
  omega

theorem marchStart_succ_le (y : ℕ) : marchStart (y + 1) ≤ marchStart y + 366 := by
  rw [marchStart_succ]
  split_ifs <;> omega

/-! ## The date from the year and its day -/

/-- The month of a day, in a year that begins in March. -/
def monthOf (doy : ℕ) : ℕ := (5 * doy + 2) / 153

/-- The date of day `doy` of the year from March `y` on. -/
def ofMarch (y doy : ℕ) : Date where
  year := if monthOf doy < 10 then y else y + 1
  month := if monthOf doy < 10 then monthOf doy + 3 else monthOf doy - 9
  day := doy - marchMonth (monthOf doy) + 1

theorem monthOf_spec : ∀ doy < 366, monthOf doy < 12 ∧ marchMonth (monthOf doy) ≤ doy ∧
    (monthOf doy < 11 → doy < marchMonth (monthOf doy + 1)) := by
  decide +kernel

theorem monthLength_march (y : ℕ) {mp : ℕ} (h : mp < 10) :
    marchMonth mp + monthLength y (mp + 3) = marchMonth (mp + 1) := by
  interval_cases mp <;> rfl

/-- **The date is valid, and has the day's number.** -/
theorem ofMarch_spec {y doy : ℕ} (h : marchStart y + doy < marchStart (y + 1)) :
    (ofMarch y doy).Valid ∧ (ofMarch y doy).dayNumber = 60 + marchStart y + doy := by
  have hdoy : doy < 366 := by
    have hle := marchStart_succ_le y
    omega
  obtain ⟨hmp, hfrom, hto⟩ := monthOf_spec doy hdoy
  rw [ofMarch]
  by_cases hmarch : monthOf doy < 10
  · rw [if_pos hmarch, if_pos hmarch]
    have hlen := monthLength_march y hmarch
    have hto := hto (by omega)
    refine ⟨⟨Nat.succ_pos _, ?_, Nat.succ_pos _, ?_⟩, ?_⟩
    · exact Nat.succ_le_of_lt (Nat.add_lt_add_right hmarch 2)
    · exact (by omega : doy - marchMonth (monthOf doy) + 1 ≤ monthLength y (monthOf doy + 3))
    · rw [dayNumber_march y _ hmarch]
      omega
  · rw [if_neg hmarch, if_neg hmarch]
    refine ⟨⟨?_, ?_, Nat.succ_pos _, ?_⟩, ?_⟩
    · exact (by omega : 1 ≤ monthOf doy - 9)
    · exact (by omega : monthOf doy - 9 ≤ 12)
    · rcases (by omega : monthOf doy = 10 ∨ monthOf doy = 11) with hjan | hfeb
      · rw [hjan] at hto ⊢
        have hto : doy < 337 := hto (by decide)
        exact (by omega : doy - 306 + 1 ≤ 31)
      · rw [hfeb]
        change doy - 337 + 1 ≤ if IsLeap (y + 1) then 29 else 28
        split_ifs with hleap
        · omega
        · rw [marchStart_succ, if_neg hleap] at h
          omega
    · rw [dayNumber_january y _ (by omega) hmp]
      omega

end Machinery.Calendar
