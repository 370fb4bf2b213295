import KlaussRuntime.Machinery.Calendar

/-!
# Ssh/Wallclock — calendar time from the Unix time, and FAT time stamps

`epoch_to_civil` splits a Unix time into the seconds of the day and a day, counts the day from 0000-03-01, and
finds era, year and month by truncating divisions; the arithmetic is the C program's, in `int64_t`, `uint64_t`
and `unsigned`.  It is the calendar's own count read backwards (`date_epochToCivil`).

`get_fattime` packs the date and the time into the fields of a FAT time stamp, from the year down to the
half-seconds, so that a later time has a larger stamp.
-/

namespace KlaussRuntime.Ssh

open Machinery Machinery.Calendar

/-- A result of type `uint64_t`. -/
def u64 (x : ℤ) : ℤ := x % 2 ^ 64

/-- A result of type `unsigned`. -/
def u32 (x : ℤ) : ℤ := x % 2 ^ 32

structure Civil where
  year : ℕ
  mon : ℕ
  day : ℕ
  hour : ℕ
  min : ℕ
  sec : ℕ
deriving DecidableEq

def epochToCivil (t : ℕ) : Civil :=
  let secs := t % 86400
  let z : ℤ := (t / 86400 : ℕ) + 719468
  let era := (if z ≥ 0 then z else z - 146096).tdiv 146097
  let doe := u64 (z - era * 146097)
  let yoe := u64 (doe - doe / 1460 + doe / 36524 - doe / 146096) / 365
  let doy := u64 (doe - (365 * yoe + yoe / 4 - yoe / 100))
  let mp := u64 (5 * doy + 2) / 153
  let mon := u32 (if mp < 10 then mp + 3 else mp - 9)
  { year := (u32 (yoe + era * 400 + if mon ≤ 2 then 1 else 0)).toNat
    mon := mon.toNat
    day := (u32 (doy - (153 * mp + 2) / 5 + 1)).toNat
    hour := secs / 3600
    min := secs % 3600 / 60
    sec := secs % 60 }

/-! ## The software clock -/

structure Wallclock where
  /-- `epoch_base` -/
  base : ℤ
  /-- `clock_valid` -/
  valid : Bool

/-- The time now, `uptime` milliseconds after the start. -/
def Wallclock.now (c : Wallclock) (uptime : ℤ) : ℕ :=
  if c.valid then (u64 (c.base + uptime.tdiv 1000)).toNat else 0

/-- The fields of a FAT time stamp, packed. -/
def packFattime (c : Civil) : BitVec 32 :=
  BitVec.ofNat 32 (c.year - 1980) <<< 25 ||| BitVec.ofNat 32 c.mon <<< 21 ||| BitVec.ofNat 32 c.day <<< 16 |||
    BitVec.ofNat 32 c.hour <<< 11 ||| BitVec.ofNat 32 c.min <<< 5 ||| BitVec.ofNat 32 (c.sec >>> 1)

def getFattime (c : Wallclock) (uptime : ℤ) : BitVec 32 :=
  let t := c.now uptime
  let d := if t = 0 then ⟨2022, 1, 1, 0, 0, 0⟩ else epochToCivil t
  packFattime (if d.year < 1980 then { d with year := 1980 } else d)

/-- What a FAT time stamp stands for. -/
def fattime (v : BitVec 32) : Civil where
  year := 1980 + (v >>> 25).toNat
  mon := (v >>> 21 &&& 0xF).toNat
  day := (v >>> 16 &&& 0x1F).toNat
  hour := (v >>> 11 &&& 0x1F).toNat
  min := (v >>> 5 &&& 0x3F).toNat
  sec := 2 * (v &&& 0x1F).toNat

/-! ## Dates and times -/

namespace Civil

def date (c : Civil) : Date := ⟨c.year, c.mon, c.day⟩

structure Valid (c : Civil) : Prop where
  date : c.date.Valid
  hour : c.hour < 24
  min : c.min < 60
  sec : c.sec < 60

def secondOfDay (c : Civil) : ℕ := c.hour * 3600 + c.min * 60 + c.sec

/-- The second rounded down to even. -/
def toEven (c : Civil) : Civil := { c with sec := 2 * (c.sec / 2) }

end Civil

/-- 1970-01-01. -/
def epoch : Date := ⟨1970, 1, 1⟩

/-- The Unix time at which a date begins. -/
def begins (d : Date) : ℕ := (d.dayNumber - epoch.dayNumber) * 86400

variable {t t' : ℕ}

/-- The day, counted from 0000-03-01. -/
def marchDay (t : ℕ) : ℕ := t / 86400 + 719468

section Steps

variable {z doe yoe doy mp : ℕ}

theorem era_eq (z : ℕ) : (if (z : ℤ) ≥ 0 then (z : ℤ) else z - 146096).tdiv 146097 = (z / 146097 : ℕ) := by
  rw [if_pos (Int.natCast_nonneg z), Int.tdiv_eq_ediv_of_nonneg (Int.natCast_nonneg z)]
  rfl

theorem doe_eq (z : ℕ) : u64 ((z : ℤ) - (z / 146097 : ℕ) * 146097) = (z % 146097 : ℕ) := by
  rw [u64]
  omega

theorem yoe_eq (h : doe < 146097) :
    u64 ((doe : ℤ) - doe / 1460 + doe / 36524 - doe / 146096) / 365 = (yearOfEra doe : ℕ) := by
  rw [u64, yearOfEra, leapless]
  omega

theorem doy_eq (h : doe < 146097) (hyear : yoe < 400) (hfrom : marchStart yoe ≤ doe) :
    u64 ((doe : ℤ) - (365 * yoe + yoe / 4 - yoe / 100)) = (doe - marchStart yoe : ℕ) := by
  have hstart : marchStart yoe = 365 * yoe + yoe / 4 - yoe / 100 := by
    rw [marchStart, Nat.div_eq_of_lt hyear, Nat.add_zero]
  rw [u64, hstart]
  rw [hstart] at hfrom
  omega

theorem mp_eq (h : doy < 366) : u64 (5 * (doy : ℤ) + 2) / 153 = (monthOf doy : ℕ) := by
  rw [u64, monthOf]
  omega

theorem mon_eq (h : mp < 12) :
    u32 (if (mp : ℤ) < 10 then (mp : ℤ) + 3 else mp - 9) = ((if mp < 10 then mp + 3 else mp - 9 : ℕ) : ℤ) := by
  rw [u32]
  split_ifs <;> omega

theorem day_eq (h : doy < 366) (hfrom : marchMonth mp ≤ doy) :
    u32 ((doy : ℤ) - (153 * mp + 2) / 5 + 1) = (doy - marchMonth mp + 1 : ℕ) := by
  have hmonth : (153 * (mp : ℤ) + 2) / 5 = (marchMonth mp : ℕ) := by
    rw [marchMonth]
    push_cast
    rfl
  rw [u32, hmonth]
  omega

theorem year_eq (hz : z < 2 ^ 40) (hyear : yoe < 400) (h : mp < 12) :
    u32 ((yoe : ℤ) + (z / 146097 : ℕ) * 400 +
        if ((if mp < 10 then mp + 3 else mp - 9 : ℕ) : ℤ) ≤ 2 then 1 else 0)
      = (if mp < 10 then 400 * (z / 146097) + yoe else 400 * (z / 146097) + yoe + 1 : ℕ) := by
  rw [u32]
  split_ifs <;> omega

end Steps

/-- **The date is found by the count of days** from 0000-03-01: its era, the year in the era, the day in the
year. -/
theorem date_epochToCivil (h : t < 2 ^ 56) :
    (epochToCivil t).date = ofMarch (400 * (marchDay t / 146097) + yearOfEra (marchDay t % 146097))
      (marchDay t % 146097 - marchStart (yearOfEra (marchDay t % 146097))) := by
  have hz : ((t / 86400 : ℕ) : ℤ) + 719468 = marchDay t := by
    rw [marchDay]
    push_cast
    rfl
  have hlt : marchDay t < 2 ^ 40 := by
    rw [marchDay]
    omega
  -- from here on the day is just a number
  generalize marchDay t = z at hz hlt ⊢
  have hdoe : z % 146097 < 146097 := Nat.mod_lt _ (by decide)
  obtain ⟨hyear, hfrom, hto⟩ := marchStart_yearOfEra hdoe
  have hdoy : z % 146097 - marchStart (yearOfEra (z % 146097)) < 366 := by
    have hle := marchStart_succ_le (yearOfEra (z % 146097))
    omega
  obtain ⟨hmp, hmonth, -⟩ := monthOf_spec _ hdoy
  simp only [epochToCivil, Civil.date, ofMarch]
  rw [hz, era_eq, doe_eq, yoe_eq hdoe, doy_eq hdoe hyear hfrom, mp_eq hdoy, mon_eq hmp, day_eq hdoy hmonth,
    year_eq hlt hyear hmp, Int.toNat_natCast, Int.toNat_natCast, Int.toNat_natCast]

/-! ## The conversion is exact -/

theorem dayNumber_epoch : epoch.dayNumber = 719528 := by
  rw [epoch, Date.dayNumber, daysBeforeYear_succ]
  rfl

/-- **The date is valid, and its number the day's.** -/
theorem date_spec (h : t < 2 ^ 56) :
    (epochToCivil t).date.Valid ∧ (epochToCivil t).date.dayNumber = 60 + marchDay t := by
  rw [date_epochToCivil h]
  have hera := Nat.div_add_mod (marchDay t) 146097
  have hdoe : marchDay t % 146097 < 146097 := Nat.mod_lt _ (by decide)
  generalize marchDay t = z at *
  obtain ⟨hyear, hfrom, hto⟩ := marchStart_yearOfEra hdoe
  have hstart := marchStart_add (z / 146097) hyear.le
  have hnext := marchStart_add (z / 146097) (Nat.succ_le_of_lt hyear)
  rw [Nat.succ_eq_add_one, ← Nat.add_assoc] at hnext
  have hdoy : marchStart (400 * (z / 146097) + yearOfEra (z % 146097))
      + (z % 146097 - marchStart (yearOfEra (z % 146097))) < marchStart (400 * (z / 146097) +
        yearOfEra (z % 146097) + 1) := by omega
  obtain ⟨hvalid, hnumber⟩ := ofMarch_spec hdoy
  exact ⟨hvalid, by omega⟩

theorem valid_epochToCivil (h : t < 2 ^ 56) : (epochToCivil t).Valid := by
  refine ⟨(date_spec h).1, ?_, ?_, ?_⟩
  · exact (by omega : t % 86400 / 3600 < 24)
  · exact (by omega : t % 86400 % 3600 / 60 < 60)
  · exact Nat.mod_lt _ (by decide)

theorem secondOfDay_epochToCivil (t : ℕ) : (epochToCivil t).secondOfDay = t % 86400 :=
  (by omega : t % 86400 / 3600 * 3600 + t % 86400 % 3600 / 60 * 60 + t % 86400 % 60 = t % 86400)

/-- **Days and seconds recombine to the time.** -/
theorem recombine (h : t < 2 ^ 56) :
    (((epochToCivil t).date.dayNumber : ℤ) - epoch.dayNumber) * 86400 + (epochToCivil t).secondOfDay = t := by
  rw [(date_spec h).2, secondOfDay_epochToCivil, dayNumber_epoch, marchDay]
  push_cast
  omega

/-! ## FAT time stamps -/

/-- A time in the years 1980 to 2107. -/
def InFatRange (t : ℕ) : Prop := begins ⟨1980, 1, 1⟩ ≤ t ∧ t < begins ⟨2108, 1, 1⟩

theorem begins_1980 : begins ⟨1980, 1, 1⟩ = 315532800 := by
  rw [begins, dayNumber_epoch, Date.dayNumber, daysBeforeYear_succ]
  rfl

theorem begins_2108 : begins ⟨2108, 1, 1⟩ = 4354819200 := by
  rw [begins, dayNumber_epoch, Date.dayNumber, daysBeforeYear_succ]
  rfl

theorem InFatRange.lt (h : InFatRange t) : t < 2 ^ 56 := by
  have hto := h.2
  rw [begins_2108] at hto
  omega

theorem InFatRange.year (h : InFatRange t) :
    1980 ≤ (epochToCivil t).year ∧ (epochToCivil t).year < 2108 := by
  obtain ⟨hfrom, hto⟩ := h
  obtain ⟨hvalid, hnumber⟩ := date_spec (InFatRange.lt ⟨hfrom, hto⟩)
  rw [begins_1980] at hfrom
  rw [begins_2108] at hto
  rw [marchDay] at hnumber
  refine ⟨Nat.le_of_not_lt fun hlt => ?_, Nat.lt_of_not_le fun hle => ?_⟩
  · have hbefore := hvalid.dayNumber_lt hlt
    rw [show daysBeforeYear 1980 = 723180 from daysBeforeYear_succ 1979] at hbefore
    omega
  · have hafter := daysBeforeYear_mono hle
    rw [show daysBeforeYear 2108 = 769931 from daysBeforeYear_succ 2107] at hafter
    have hself : daysBeforeYear (epochToCivil t).year ≤ (epochToCivil t).date.dayNumber := by
      rw [Date.dayNumber, Nat.add_assoc]
      exact Nat.le_add_right _ _
    omega

/-- The stamp, before it is packed, as a number. -/
def stamp (c : Civil) : ℕ :=
  (((((c.year - 1980) * 16 + c.mon) * 32 + c.day) * 32 + c.hour) * 64 + c.min) * 32 + c.sec / 2

/-- A date and time whose fields fit a stamp. -/
structure Civil.Fits (c : Civil) : Prop where
  valid : c.Valid
  from1980 : 1980 ≤ c.year
  to2107 : c.year < 2108

theorem monthLength_le (y m : ℕ) : monthLength y m ≤ 31 := by
  unfold monthLength
  split
  · split_ifs <;> omega
  all_goals omega

theorem Civil.Valid.day_lt {c : Civil} (h : c.Valid) : c.day < 32 :=
  Nat.lt_succ_of_le (h.date.day_le.trans (monthLength_le _ _))

theorem Civil.Valid.mon_lt {c : Civil} (h : c.Valid) : c.mon < 16 :=
  Nat.lt_of_le_of_lt h.date.month_le (by decide)

theorem shiftLeft_or {a b k : ℕ} (hb : b < 2 ^ k) : a <<< k ||| b = a * 2 ^ k + b := by
  rw [← Nat.shiftLeft_add_eq_or_of_lt hb, Nat.shiftLeft_eq]

theorem toNat_field {a k n : ℕ} (ha : a < 2 ^ n) (hn : n + k ≤ 32) :
    (BitVec.ofNat 32 a <<< k).toNat = a <<< k := by
  have hle : 2 ^ n * 2 ^ k ≤ 2 ^ 32 := by
    rw [← pow_add]
    exact Nat.pow_le_pow_right (by decide) hn
  have hlt : a * 2 ^ k < 2 ^ n * 2 ^ k := Nat.mul_lt_mul_of_pos_right ha (Nat.two_pow_pos k)
  have ha' : a < 2 ^ 32 := (Nat.le_mul_of_pos_right a (Nat.two_pow_pos k)).trans_lt (hlt.trans_le hle)
  rw [BitVec.toNat_shiftLeft, BitVec.toNat_ofNat, Nat.mod_eq_of_lt ha', Nat.shiftLeft_eq]
  exact Nat.mod_eq_of_lt (hlt.trans_le hle)

/-- **The packed stamp.** -/
theorem toNat_packFattime {c : Civil} (h : c.Fits) : (packFattime c).toNat = stamp c := by
  obtain ⟨hvalid, hfrom, hto⟩ := h
  have hmon := hvalid.mon_lt
  have hday := hvalid.day_lt
  have hhour := hvalid.hour
  have hmin := hvalid.min
  have hsec := hvalid.sec
  have hhalf : (BitVec.ofNat 32 (c.sec >>> 1)).toNat = c.sec / 2 := by
    rw [BitVec.toNat_ofNat, Nat.shiftRight_eq_div_pow]
    omega
  rw [packFattime, BitVec.toNat_or, BitVec.toNat_or, BitVec.toNat_or, BitVec.toNat_or, BitVec.toNat_or, hhalf,
    toNat_field (n := 7) (by omega) (by decide), toNat_field (n := 4) (by omega) (by decide),
    toNat_field (n := 5) (by omega) (by decide), toNat_field (n := 5) (by omega) (by decide),
    toNat_field (n := 6) (by omega) (by decide), Nat.or_assoc, Nat.or_assoc, Nat.or_assoc, Nat.or_assoc,
    shiftLeft_or (k := 5) (by omega), shiftLeft_or (k := 11) (by omega), shiftLeft_or (k := 16) (by omega),
    shiftLeft_or (k := 21) (by omega), shiftLeft_or (k := 25) (by omega), stamp]
  omega

theorem toNat_low (v : BitVec 32) (k n : ℕ) (hn : n < 32) :
    (v >>> k &&& BitVec.ofNat 32 (2 ^ n - 1)).toNat = v.toNat / 2 ^ k % 2 ^ n := by
  have hmask : 2 ^ n - 1 < 2 ^ 32 :=
    (Nat.sub_le _ _).trans_lt (Nat.pow_lt_pow_right (by decide) hn)
  rw [BitVec.toNat_and, BitVec.toNat_ushiftRight, BitVec.toNat_ofNat, Nat.mod_eq_of_lt hmask,
    Nat.and_two_pow_sub_one_eq_mod, Nat.shiftRight_eq_div_pow]

/-- **A stamp decodes to its date and time**, the second rounded down to even. -/
theorem fattime_packFattime {c : Civil} (h : c.Fits) :
    fattime (packFattime c) = c.toEven := by
  have hv := toNat_packFattime h
  obtain ⟨hvalid, hfrom, hto⟩ := h
  have hmon := hvalid.mon_lt
  have hday := hvalid.day_lt
  have hhour := hvalid.hour
  have hmin := hvalid.min
  have hsec := hvalid.sec
  generalize packFattime c = v at hv ⊢
  rw [stamp] at hv
  have hyear : (v >>> 25).toNat = c.year - 1980 := by
    rw [BitVec.toNat_ushiftRight, Nat.shiftRight_eq_div_pow, hv]
    omega
  have hmon' : (v >>> 21 &&& 0xF).toNat = c.mon :=
    (toNat_low v 21 4 (by decide)).trans (by rw [hv]; omega)
  have hday' : (v >>> 16 &&& 0x1F).toNat = c.day :=
    (toNat_low v 16 5 (by decide)).trans (by rw [hv]; omega)
  have hhour' : (v >>> 11 &&& 0x1F).toNat = c.hour :=
    (toNat_low v 11 5 (by decide)).trans (by rw [hv]; omega)
  have hmin' : (v >>> 5 &&& 0x3F).toNat = c.min :=
    (toNat_low v 5 6 (by decide)).trans (by rw [hv]; omega)
  have hsec' : (v &&& 0x1F).toNat = c.sec / 2 := by
    have hlow := toNat_low v 0 5 (by decide)
    rw [BitVec.ushiftRight_zero] at hlow
    exact hlow.trans (by rw [hv]; omega)
  rw [fattime, hyear, hmon', hday', hhour', hmin', hsec', Nat.add_sub_cancel' hfrom, Civil.toEven]

/-- The part of a stamp for the time of day. -/
def stampOfDay (s : ℕ) : ℕ := (s / 3600 * 64 + s % 3600 / 60) * 32 + s % 60 / 2

theorem stampOfDay_mono : Monotone stampOfDay := by
  refine monotone_nat_of_le_succ fun s => ?_
  rw [stampOfDay, stampOfDay]
  omega

theorem stamp_epochToCivil (t : ℕ) : stamp (epochToCivil t) =
    ((((epochToCivil t).year - 1980) * 16 + (epochToCivil t).mon) * 32 + (epochToCivil t).day) * 2 ^ 16 +
      stampOfDay (t % 86400) := by
  have htime : (epochToCivil t).hour = t % 86400 / 3600 ∧ (epochToCivil t).min = t % 86400 % 3600 / 60 ∧
      (epochToCivil t).sec = t % 86400 % 60 := ⟨rfl, rfl, rfl⟩
  rw [stamp, stampOfDay, htime.1, htime.2.1, htime.2.2]
  ring

theorem fits_epochToCivil (h : InFatRange t) : (epochToCivil t).Fits :=
  ⟨valid_epochToCivil h.lt, h.year.1, h.year.2⟩

/-- **A later time has no smaller stamp.** -/
theorem stamp_le (h : InFatRange t) (h' : InFatRange t') (hle : t ≤ t') :
    stamp (epochToCivil t) ≤ stamp (epochToCivil t') := by
  rw [stamp_epochToCivil, stamp_epochToCivil]
  obtain ⟨hvalid, hnumber⟩ := date_spec h.lt
  obtain ⟨hvalid', hnumber'⟩ := date_spec h'.lt
  rcases Nat.lt_or_eq_of_le (Nat.div_le_div_right (c := 86400) hle) with hday | hday
  · -- a later day has a later date, whatever the time of day
    have hbefore : (epochToCivil t).date.Before (epochToCivil t').date := by
      refine Date.before_of_dayNumber_lt hvalid' ?_
      rw [hnumber, hnumber', marchDay, marchDay]
      omega
    have htime : stampOfDay (t % 86400) < 2 ^ 16 := by
      rw [stampOfDay]
      omega
    have hmon := (valid_epochToCivil h.lt).mon_lt
    have hdom := (valid_epochToCivil h.lt).day_lt
    have hyear := h.year
    simp only [Date.Before, Civil.date] at hbefore
    omega
  · have hdate : (epochToCivil t).date = (epochToCivil t').date := by
      rw [date_epochToCivil h.lt, date_epochToCivil h'.lt, marchDay, marchDay, hday]
    simp only [Civil.date, Date.mk.injEq] at hdate
    rw [hdate.1, hdate.2.1, hdate.2.2]
    exact Nat.add_le_add_left (stampOfDay_mono (by omega)) _

variable {c c' : Wallclock} {uptime uptime' : ℤ}

theorem getFattime_eq (h : InFatRange (c.now uptime)) :
    getFattime c uptime = packFattime (epochToCivil (c.now uptime)) := by
  have hne : c.now uptime ≠ 0 := by
    have hfrom := h.1
    rw [begins_1980] at hfrom
    omega
  simp only [getFattime, if_neg hne, if_neg (Nat.not_lt.mpr h.year.1)]

/-- **Calendar conversion is exact.**  Every Unix time below 2^56 becomes a valid date and time of the Gregorian
calendar whose days since 1970 and seconds make up that time; in the years 1980 to 2107 the stamp of
`get_fattime` decodes to it, the second rounded down to even, and a later time has no smaller stamp. -/
theorem calendar_exact :
    (∀ t < 2 ^ 56, (epochToCivil t).Valid ∧
      (((epochToCivil t).date.dayNumber : ℤ) - epoch.dayNumber) * 86400 + (epochToCivil t).secondOfDay = t) ∧
    (∀ (c : Wallclock) (uptime : ℤ), InFatRange (c.now uptime) →
      fattime (getFattime c uptime) = (epochToCivil (c.now uptime)).toEven) ∧
    ∀ (c c' : Wallclock) (uptime uptime' : ℤ), InFatRange (c.now uptime) → InFatRange (c'.now uptime') →
      c.now uptime ≤ c'.now uptime' → (getFattime c uptime).toNat ≤ (getFattime c' uptime').toNat := by
  refine ⟨fun t h => ⟨valid_epochToCivil h, recombine h⟩, fun c uptime h => ?_,
    fun c c' uptime uptime' h h' hle => ?_⟩
  · rw [getFattime_eq h, fattime_packFattime (fits_epochToCivil h)]
  · rw [getFattime_eq h, getFattime_eq h', toNat_packFattime (fits_epochToCivil h),
      toNat_packFattime (fits_epochToCivil h')]
    exact stamp_le h h' hle

/-- 29 February 2000, a second before midnight. -/
theorem calendar_exact_leapDay :
    epochToCivil 951868799 = ⟨2000, 2, 29, 23, 59, 59⟩ ∧ InFatRange ((⟨951868799, true⟩ : Wallclock).now 999) ∧
      fattime (getFattime ⟨951868799, true⟩ 999) = ⟨2000, 2, 29, 23, 59, 58⟩ := by
  have hnow : (⟨951868799, true⟩ : Wallclock).now 999 = 951868799 := by decide +kernel
  have hcivil : epochToCivil 951868799 = ⟨2000, 2, 29, 23, 59, 59⟩ := by decide +kernel
  have hrange : InFatRange ((⟨951868799, true⟩ : Wallclock).now 999) := by
    rw [hnow, InFatRange, begins_1980, begins_2108]
    decide
  refine ⟨hcivil, hrange, ?_⟩
  rw [calendar_exact.2.1 _ _ hrange, hnow, hcivil]
  rfl

end KlaussRuntime.Ssh
