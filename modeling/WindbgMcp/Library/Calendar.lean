import Mathlib.Algebra.Order.Ring.Int
import Mathlib.Tactic.IntervalCases

/-! The proleptic Gregorian calendar: which dates there are, the day after each, and the days
counted from the epoch. -/
namespace WindbgMcp.Library

structure Date where
  year : Int
  month : Nat
  day : Nat
  deriving DecidableEq, Repr

def isLeap (year : Int) : Prop := year % 4 = 0 ∧ (year % 100 ≠ 0 ∨ year % 400 = 0)

instance (year : Int) : Decidable (isLeap year) := inferInstanceAs (Decidable (_ ∧ _))

def monthLength (year : Int) (month : Nat) : Nat :=
  if month = 2 then if isLeap year then 29 else 28
  else if month = 4 ∨ month = 6 ∨ month = 9 ∨ month = 11 then 30
  else 31

theorem monthLength_pos (year : Int) (month : Nat) : 1 ≤ monthLength year month := by
  unfold monthLength
  split_ifs <;> omega

namespace Date
variable {date other : Date}

structure Valid (date : Date) : Prop where
  month_pos : 1 ≤ date.month
  month_le : date.month ≤ 12
  day_pos : 1 ≤ date.day
  day_le : date.day ≤ monthLength date.year date.month

def next (date : Date) : Date :=
  if date.day < monthLength date.year date.month then { date with day := date.day + 1 }
  else if date.month < 12 then ⟨date.year, date.month + 1, 1⟩
  else ⟨date.year + 1, 1, 1⟩

def marchYear (date : Date) : Int := if date.month ≤ 2 then date.year - 1 else date.year

def marchMonth (date : Date) : Int :=
  if 2 < date.month then date.month - 3 else date.month + 9

def marchDay (date : Date) : Int := (153 * date.marchMonth + 2) / 5 + date.day - 1

def daysBefore (year : Int) : Int := 365 * year + year / 4 - year / 100 + year / 400

def dayNumber (date : Date) : Int := daysBefore date.marchYear + date.marchDay - 719468

theorem daysBefore_succ (year : Int) :
    daysBefore (year + 1) = daysBefore year + if isLeap (year + 1) then 366 else 365 := by
  unfold daysBefore
  by_cases hleap : isLeap (year + 1)
  · rw [if_pos hleap]
    unfold isLeap at hleap
    omega
  · rw [if_neg hleap]
    unfold isLeap at hleap
    omega

theorem daysBefore_mono {year later : Int} (h : year ≤ later) :
    daysBefore year ≤ daysBefore later := by
  unfold daysBefore
  omega

theorem Valid.marchDay_bounds (h : date.Valid) :
    0 ≤ date.marchDay ∧
      date.marchDay < if isLeap (date.marchYear + 1) then 366 else 365 := by
  obtain ⟨hmonth, hmonth', hday, hday'⟩ := h
  unfold monthLength at hday'
  unfold marchDay marchMonth marchYear
  by_cases hearly : date.month ≤ 2
  · rw [if_pos hearly, if_neg (by omega), Int.sub_add_cancel]
    split_ifs at hday' ⊢ <;> omega
  · rw [if_neg hearly, if_pos (by omega)]
    split_ifs at hday' ⊢ <;> omega

theorem Valid.marchMonth_eq (h : date.Valid) :
    date.marchMonth = (5 * date.marchDay + 2) / 153 := by
  obtain ⟨year, month, day⟩ := date
  obtain ⟨hmonth, hmonth', hday, hday'⟩ := h
  unfold monthLength at hday'
  unfold marchDay marchMonth
  dsimp only at *
  interval_cases month <;> split_ifs at hday' ⊢ <;> omega

theorem Valid.next (h : date.Valid) : date.next.Valid := by
  obtain ⟨hmonth, hmonth', hday, hday'⟩ := h
  unfold Date.next
  split_ifs with hbefore hlast
  · exact ⟨hmonth, hmonth', Nat.le_add_left 1 _, hbefore⟩
  · exact ⟨Nat.le_add_left 1 _, hlast, Nat.le_refl 1, monthLength_pos _ _⟩
  · exact ⟨Nat.le_refl 1, Nat.le_add_left 1 11, Nat.le_refl 1, monthLength_pos _ _⟩

/-- From March on, the first of a month lies behind the last day of the month before. -/
theorem marchMonth_succ (year : Int) {month : Nat} (hmonth : 3 ≤ month) (hmonth' : month ≤ 11) :
    (153 * ((month + 1 : Nat) - 3 : Int) + 2) / 5 =
      (153 * (month - 3) + 2) / 5 + monthLength year month := by
  interval_cases month <;> rfl

theorem Valid.dayNumber_next (h : date.Valid) : date.next.dayNumber = date.dayNumber + 1 := by
  obtain ⟨year, month, day⟩ := date
  obtain ⟨hmonth, hmonth', hday, hday'⟩ := h
  unfold Date.next dayNumber marchDay marchMonth marchYear
  dsimp only at *
  by_cases hbefore : day < monthLength year month
  · rw [if_pos hbefore]
    dsimp only
    omega
  · rw [if_neg hbefore]
    obtain rfl : day = monthLength year month := by omega
    by_cases hlast : month < 12
    · rw [if_pos hlast]
      dsimp only
      obtain rfl | rfl | hspring : month = 1 ∨ month = 2 ∨ 3 ≤ month := by omega
      · rw [if_pos (by decide), if_neg (by decide), if_pos (by decide), if_neg (by decide),
          show monthLength year 1 = 31 from rfl]
        omega
      · -- The year from March to March ends here.
        have hyear := daysBefore_succ (year - 1)
        rw [Int.sub_add_cancel] at hyear
        rw [if_neg (by decide), if_pos (by decide), if_pos (by decide), if_neg (by decide), hyear]
        unfold monthLength
        split_ifs <;> omega
      · have hsucc := marchMonth_succ year hspring (by omega)
        rw [if_neg (by omega), if_pos (by omega), if_neg (by omega), if_pos (by omega)]
        omega
    · rw [if_neg hlast]
      obtain rfl : month = 12 := by omega
      dsimp only
      rw [if_pos (by decide), if_neg (by decide), if_neg (by decide), if_pos (by decide),
        Int.add_sub_cancel, show monthLength year 12 = 31 from rfl]
      omega

def ofMarch (year day : Int) : Date :=
  let month := (5 * day + 2) / 153
  let m := (if month < 10 then month + 3 else month - 9).toNat
  ⟨year + if m ≤ 2 then 1 else 0, m, (day - (153 * month + 2) / 5 + 1).toNat⟩

section
variable {year day month : Int}

theorem marchMonth_bounds (hpos : 0 ≤ day) (hlast : day ≤ 365)
    (hmonth : (5 * day + 2) / 153 = month) :
    (0 ≤ month ∧ month ≤ 11) ∧ (153 * month + 2) / 5 ≤ day ∧
      (month ≤ 10 → day < (153 * (month + 1) + 2) / 5) := by
  have hbounds : 0 ≤ month ∧ month ≤ 11 := by omega
  obtain ⟨hfirst, hlast⟩ := hbounds
  interval_cases month <;> omega

theorem ofMarch_eq (hbounds : 0 ≤ month ∧ month ≤ 11) (hmonth : (5 * day + 2) / 153 = month) :
    ofMarch year day =
      if month < 10 then ⟨year, (month + 3).toNat, (day - (153 * month + 2) / 5 + 1).toNat⟩
      else ⟨year + 1, (month - 9).toNat, (day - (153 * month + 2) / 5 + 1).toNat⟩ := by
  unfold ofMarch
  rw [hmonth]
  by_cases hlate : month < 10
  · have hm : ¬ (month + 3).toNat ≤ 2 := by omega
    simp only [hlate, hm, if_true, if_false, Int.add_zero]
  · have hm : (month - 9).toNat ≤ 2 := by omega
    simp only [hlate, hm, if_true, if_false]

theorem ofMarch_valid (hpos : 0 ≤ day) (hlt : day < if isLeap (year + 1) then 366 else 365) :
    (ofMarch year day).Valid := by
  have hlast : day ≤ 365 := by split at hlt <;> omega
  generalize hmonth : (5 * day + 2) / 153 = month
  obtain ⟨hbounds, hfrom, hto⟩ := marchMonth_bounds hpos hlast hmonth
  rw [ofMarch_eq hbounds hmonth]
  obtain ⟨count, rfl⟩ := Int.eq_ofNat_of_zero_le hbounds.1
  split
  · refine ⟨by dsimp only; omega, by dsimp only; omega, by dsimp only; omega, ?_⟩
    dsimp only
    rw [show (count + 3 : Int).toNat = count + 3 by omega]
    obtain hbefore | rfl : count ≤ 8 ∨ count = 9 := by omega
    · have hsucc := marchMonth_succ year (Nat.le_add_left 3 count) (by omega)
      rw [show ((count + 3 + 1 : Nat) - 3 : Int) = count + 1 by omega,
        show ((count + 3 : Nat) - 3 : Int) = count by omega] at hsucc
      have hlater := hto (by omega)
      omega
    · rw [show monthLength year (9 + 3) = 31 from rfl]
      omega
  · refine ⟨by dsimp only; omega, by dsimp only; omega, by dsimp only; omega, ?_⟩
    dsimp only
    obtain rfl | rfl : count = 10 ∨ count = 11 := by omega
    · change _ ≤ 31
      omega
    · change _ ≤ if isLeap (year + 1) then 29 else 28
      by_cases hleap : isLeap (year + 1)
      · rw [if_pos hleap] at hlt ⊢
        omega
      · rw [if_neg hleap] at hlt ⊢
        omega

theorem ofMarch_dayNumber (hpos : 0 ≤ day) (hlast : day ≤ 365) :
    (ofMarch year day).dayNumber = daysBefore year + day - 719468 := by
  generalize hmonth : (5 * day + 2) / 153 = month
  obtain ⟨hbounds, hfrom, -⟩ := marchMonth_bounds hpos hlast hmonth
  rw [ofMarch_eq hbounds hmonth]
  unfold dayNumber marchDay marchMonth marchYear
  split
  · rw [if_neg (by dsimp only; omega), if_pos (by dsimp only; omega)]
    dsimp only
    omega
  · rw [if_pos (by dsimp only; omega), if_neg (by dsimp only; omega)]
    dsimp only
    rw [Int.add_sub_cancel]
    omega

end

theorem marchYear_unique {year later : Int} {day other : Int}
    (hday : 0 ≤ day ∧ day < if isLeap (year + 1) then 366 else 365)
    (hother : 0 ≤ other ∧ other < if isLeap (later + 1) then 366 else 365)
    (h : daysBefore year + day = daysBefore later + other) : year = later ∧ day = other := by
  have hyear := daysBefore_succ year
  have hlater := daysBefore_succ later
  rcases lt_trichotomy year later with hlt | rfl | hlt
  · have hmono := daysBefore_mono (Int.add_one_le_of_lt hlt)
    omega
  · exact ⟨rfl, by omega⟩
  · have hmono := daysBefore_mono (Int.add_one_le_of_lt hlt)
    omega

theorem dayNumber_injective (hdate : date.Valid) (hother : other.Valid)
    (h : date.dayNumber = other.dayNumber) : date = other := by
  unfold dayNumber at h
  obtain ⟨hyear, hday⟩ := marchYear_unique hdate.marchDay_bounds hother.marchDay_bounds
    (by omega)
  have hmonth : date.marchMonth = other.marchMonth := by
    rw [hdate.marchMonth_eq, hother.marchMonth_eq, hday]
  have hdays : date.day = other.day := by
    unfold marchDay at hday
    rw [hmonth] at hday
    omega
  have hmonths : date.month = other.month := by
    obtain ⟨hpos, hle, _, _⟩ := hdate
    obtain ⟨hpos', hle', _, _⟩ := hother
    unfold marchMonth at hmonth
    split_ifs at hmonth <;> omega
  have hyears : date.year = other.year := by
    unfold marchYear at hyear
    rw [hmonths] at hyear
    by_cases hearly : other.month ≤ 2
    · rw [if_pos hearly, if_pos hearly] at hyear
      omega
    · rw [if_neg hearly, if_neg hearly] at hyear
      exact hyear
  obtain ⟨year, month, day⟩ := date
  obtain rfl := hyears
  obtain rfl := hmonths
  obtain rfl := hdays
  rfl

end Date
end WindbgMcp.Library
