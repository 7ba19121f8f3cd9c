import WindbgMcp.Cast.Timeline
import WindbgMcp.Library.Calendar
import WindbgMcp.Library.Decimal
import WindbgMcp.Library.Splitting

/-! The stamps of a transcript (`record.rs`): the days since the epoch as a civil date, a time
written as a stamp, and both read back.  Sums of days are taken to stay inside 64 bits. -/
namespace WindbgMcp.Record
open Library (Date isLeap)
open Library.Text
open Cast (daysFromCivil unixSeconds)

def civilFromDays (z : Int) : Date :=
  let z := z + 719468
  let era := z / 146097
  let doe := z % 146097
  let yoe := (doe - doe / 1460 + doe / 36524 - doe / 146096) / 365
  let y := yoe + era * 400
  let doy := doe - (365 * yoe + yoe / 4 - yoe / 100)
  let mp := (5 * doy + 2) / 153
  let d := (doy - (153 * mp + 2) / 5 + 1).toNat
  let m := (if mp < 10 then mp + 3 else mp - 9).toNat
  ⟨y + if m ≤ 2 then 1 else 0, m, d⟩

def yearOfEra (doe : Int) : Int := (doe - doe / 1460 + doe / 36524 - doe / 146096) / 365

/-- Where a day of an era stands: `c` centuries before it, and `s` days into the leap cycle
after `k` others, each century taken as long as its leap cycles. -/
structure Place (doe c k s : Int) : Prop where
  century : 0 ≤ c ∧ c ≤ 3 ∧ 36524 * c ≤ doe ∧ (c < 3 → doe < 36524 * (c + 1))
  cycle : 25 * c ≤ k ∧ k ≤ 25 * c + 24
  day : 0 ≤ s ∧ s ≤ 1460
  split : doe = 1461 * k + s - c

theorem place {doe : Int} (hdoe : 0 ≤ doe) (hlast : doe < 146096) :
    Place doe (doe / 36524) ((doe + doe / 36524) / 1461) ((doe + doe / 36524) % 1461) := by
  generalize hc : doe / 36524 = c
  refine ⟨⟨?_, ?_, ?_, ?_⟩, ⟨?_, ?_⟩, ⟨?_, ?_⟩, ?_⟩ <;> omega

variable {doe c k s : Int}

/-- The first three years of a leap cycle are short, and the fourth takes what is left. -/
theorem Place.yearOfEra_eq (h : Place doe c k s) :
    yearOfEra doe = 4 * k + min (s / 365) 3 := by
  obtain ⟨⟨hc, hc', hfrom, hto⟩, ⟨hk, hk'⟩, ⟨hs, hs'⟩, hdoe⟩ := h
  have hcentury : doe / 36524 - doe / 146096 = c := by omega
  have hcycle : doe / 1460 = k + if 1460 ≤ k + s - c then 1 else 0 := by split <;> omega
  unfold yearOfEra
  split at hcycle <;> omega

theorem Place.bounds (h : Place doe c k s) :
    0 ≤ yearOfEra doe ∧ yearOfEra doe < 400 ∧ Date.daysBefore (yearOfEra doe) ≤ doe ∧
      doe < Date.daysBefore (yearOfEra doe + 1) := by
  rw [h.yearOfEra_eq]
  obtain ⟨⟨hc, hc', hfrom, hto⟩, ⟨hk, hk'⟩, ⟨hs, hs'⟩, hdoe⟩ := h
  obtain ⟨u, hu⟩ : ∃ u, min (s / 365) 3 = u := ⟨_, rfl⟩
  have hyear : 0 ≤ u ∧ u ≤ 3 ∧ 365 * u ≤ s ∧ (u < 3 → s < 365 * (u + 1)) := by omega
  have hcycles : (4 * k + u) / 4 = k := by omega
  have hcenturies : (4 * k + u) / 100 = c := by omega
  have hera : (4 * k + u) / 400 = 0 := by omega
  unfold Date.daysBefore
  rw [hu, hcycles, hcenturies, hera]
  refine ⟨by omega, by omega, by omega, ?_⟩
  obtain hshort | rfl : u < 3 ∨ u = 3 := by omega
  · have hcycles : (4 * k + u + 1) / 4 = k := by omega
    have hcenturies : (4 * k + u + 1) / 100 = c := by omega
    have hera : (4 * k + u + 1) / 400 = 0 := by omega
    rw [hcycles, hcenturies, hera]
    omega
  · -- The leap day is missing at the end of a century, and there at the end of an era.
    have hcycles : (4 * k + 3 + 1) / 4 = k + 1 := by omega
    obtain hinside | rfl : k < 25 * c + 24 ∨ k = 25 * c + 24 := by omega
    · have hcenturies : (4 * k + 3 + 1) / 100 = c := by omega
      have hera : (4 * k + 3 + 1) / 400 = 0 := by omega
      rw [hcycles, hcenturies, hera]
      omega
    · have hcenturies : (4 * (25 * c + 24) + 3 + 1) / 100 = c + 1 := by omega
      rw [hcycles, hcenturies]
      omega

/-- A day of an era lies in its year: behind the first of March, and before the next. -/
theorem yearOfEra_bounds (hdoe : 0 ≤ doe) (hend : doe < 146097) :
    0 ≤ yearOfEra doe ∧ yearOfEra doe < 400 ∧ Date.daysBefore (yearOfEra doe) ≤ doe ∧
      doe < Date.daysBefore (yearOfEra doe + 1) := by
  obtain hlast | rfl : doe < 146096 ∨ doe = 146096 := by omega
  · exact (place hdoe hlast).bounds
  · decide

theorem daysBefore_of_era {year : Int} (hpos : 0 ≤ year) (hlt : year < 400) :
    Date.daysBefore year = 365 * year + year / 4 - year / 100 := by
  unfold Date.daysBefore
  omega

theorem daysBefore_add_era (year era : Int) :
    Date.daysBefore (year + era * 400) = Date.daysBefore year + era * 146097 := by
  unfold Date.daysBefore
  omega

theorem isLeap_add_era (year era : Int) : isLeap (year + era * 400) ↔ isLeap year := by
  unfold isLeap
  omega

theorem civilFromDays_eq (z : Int) :
    civilFromDays z =
      .ofMarch (yearOfEra ((z + 719468) % 146097) + (z + 719468) / 146097 * 400)
        ((z + 719468) % 146097 - Date.daysBefore (yearOfEra ((z + 719468) % 146097))) := by
  obtain ⟨hpos, hlt, -⟩ := yearOfEra_bounds (Int.emod_nonneg (z + 719468) (by decide))
    (Int.emod_lt_of_pos (z + 719468) (by decide : (0 : Int) < 146097))
  rw [daysBefore_of_era hpos hlt]
  rfl

/-- The days of an era, as a date of the calendar and the count of days up to it. -/
theorem civilFromDays_spec (z : Int) :
    (civilFromDays z).Valid ∧ (civilFromDays z).dayNumber = z := by
  obtain ⟨hpos, hlt, hfrom, hto⟩ := yearOfEra_bounds
    (Int.emod_nonneg (z + 719468) (by decide))
    (Int.emod_lt_of_pos (z + 719468) (by decide : (0 : Int) < 146097))
  have hera := Int.emod_add_mul_ediv (z + 719468) 146097
  rw [civilFromDays_eq]
  generalize (z + 719468) % 146097 = doe at *
  generalize (z + 719468) / 146097 = era at *
  generalize yearOfEra doe = yoe at *
  rw [Date.daysBefore_succ] at hto
  have hday : doe - Date.daysBefore yoe <
      if isLeap (yoe + era * 400 + 1) then 366 else 365 := by
    rw [Int.add_right_comm]
    simp only [isLeap_add_era]
    omega
  constructor
  · exact Date.ofMarch_valid (by omega) hday
  · rw [Date.ofMarch_dayNumber (by omega) (by split at hday <;> omega), daysBefore_add_era]
    omega

theorem daysFromCivil_eq {date : Date} (hfrom : -2 ^ 63 ≤ date.dayNumber)
    (hto : date.dayNumber < 2 ^ 63) :
    daysFromCivil date.year date.month date.day = date.dayNumber := by
  have hyear : date.marchYear = date.year - if date.month ≤ 2 then 1 else 0 := by
    unfold Date.marchYear
    split <;> omega
  unfold daysFromCivil
  rw [← hyear]
  change (_ / 400 * 146097 + (_ + date.marchDay) - 719468).bmod (2 ^ 64) = _
  have hdays : date.marchYear / 400 * 146097 +
      ((date.marchYear - date.marchYear / 400 * 400) * 365 +
        (date.marchYear - date.marchYear / 400 * 400) / 4 -
        (date.marchYear - date.marchYear / 400 * 400) / 100 + date.marchDay) - 719468 =
      date.dayNumber := by
    unfold Date.dayNumber Date.daysBefore
    omega
  rw [hdays]
  exact Int.bmod_eq_of_le (by omega) (by omega)

/-! ### Stamps -/

/-- A wall clock, in nanoseconds from the epoch.  Its whole seconds are an `i64`. -/
structure SystemTime where
  nanos : Int
  seconds_ge : -2 ^ 63 ≤ nanos / 10 ^ 9
  seconds_lt : nanos / 10 ^ 9 < 2 ^ 63

def stamp (y m d hh mm ss millis : Nat) : List Char :=
  decimalPadded 4 y ++ '-' :: (decimalPadded 2 m ++ '-' :: (decimalPadded 2 d ++ 'T' ::
    (decimalPadded 2 hh ++ ':' :: (decimalPadded 2 mm ++ ':' :: (decimalPadded 2 ss ++ '.' ::
      (decimalPadded 3 millis ++ ['Z']))))))

/-- A time in UTC, to the millisecond, and one before the epoch as the epoch itself: the year
is never negative. -/
def rfc3339 (time : SystemTime) : String :=
  let since := time.nanos.toNat
  let secs : Nat := since / 10 ^ 9
  let days : Nat := secs / 86400
  let rem : Nat := secs % 86400
  let date := civilFromDays days
  String.ofList (stamp date.year.toNat date.month date.day (rem / 3600) (rem % 3600 / 60)
    (rem % 60) (since % 10 ^ 9 / 10 ^ 6))

theorem stripLast_concat (text : List Char) (last : Char) :
    Cast.stripLast last (String.ofList (text ++ [last])) = some (String.ofList text) := by
  unfold Cast.stripLast
  rw [String.toList_ofList, List.getLast?_concat, if_pos rfl, List.dropLast_concat]

section
variable {y m d hh mm ss millis : Nat}

theorem splitOnce_stamp :
    splitOnce 'T' (String.ofList (stamp y m d hh mm ss millis)) =
      some (String.ofList (decimalPadded 4 y ++ '-' ::
          (decimalPadded 2 m ++ '-' :: decimalPadded 2 d)),
        String.ofList (decimalPadded 2 hh ++ ':' :: (decimalPadded 2 mm ++ ':' ::
          (decimalPadded 2 ss ++ '.' :: decimalPadded 3 millis)) ++ ['Z'])) := by
  have hmark : 'T' ∉ decimalPadded 4 y ++ '-' ::
      (decimalPadded 2 m ++ '-' :: decimalPadded 2 d) := by
    have hdigits (width value : Nat) : 'T' ∉ decimalPadded width value :=
      not_mem_decimalPadded (by decide)
    simp [hdigits]
  rw [← splitOnce_mark hmark]
  simp [stamp]

theorem split_clock :
    split (· = ':') (String.ofList (decimalPadded 2 hh ++ ':' ::
      (decimalPadded 2 mm ++ ':' :: (decimalPadded 2 ss ++ '.' :: decimalPadded 3 millis)))) =
    [String.ofList (decimalPadded 2 hh), String.ofList (decimalPadded 2 mm),
      String.ofList (decimalPadded 2 ss ++ '.' :: decimalPadded 3 millis)] := by
  have hdigits (width value : Nat) : ∀ c ∈ decimalPadded width value, decide (c = ':') = false :=
    ne_of_mem_decimalPadded (by decide)
  have hseconds : ∀ c ∈ decimalPadded 2 ss ++ '.' :: decimalPadded 3 millis,
      decide (c = ':') = false := by
    intro c hc
    rcases List.mem_append.mp hc with hc | hc
    · exact hdigits 2 ss c hc
    · cases hc with
      | head => decide
      | tail _ hc => exact hdigits 3 millis c hc
  unfold split
  rw [String.toList_ofList, splitChars_plain_mark (by decide) (hdigits 2 hh),
    splitChars_plain_mark (by decide) (hdigits 2 mm), splitChars_plain hseconds]
  rfl

theorem split_seconds :
    split (· = '.') (String.ofList (decimalPadded 2 ss ++ '.' ::
      decimalPadded 3 millis)) =
    [String.ofList (decimalPadded 2 ss), String.ofList (decimalPadded 3 millis)] := by
  have hdigits (width value : Nat) : ∀ c ∈ decimalPadded width value, decide (c = '.') = false :=
    ne_of_mem_decimalPadded (by decide)
  unfold split
  rw [String.toList_ofList, splitChars_plain_mark (by decide) (hdigits 2 ss),
    splitChars_plain (hdigits 3 millis)]
  rfl

theorem unixSeconds_stamp (hy : y < 2 ^ 63) (hm : 1 ≤ m ∧ m ≤ 12) (hd : 1 ≤ d ∧ d ≤ 31)
    (hhh : hh ≤ 23) (hmm : mm ≤ 59) (hss : ss ≤ 60) {days : Nat}
    (hdays : daysFromCivil y m d = days) (hfit : days * 86400 < 2 ^ 63) :
    unixSeconds (String.ofList (stamp y m d hh mm ss millis)) =
      some (days * 86400 + (hh * 3600 + mm * 60 + ss)) := by
  have hdash (width value : Nat) : '-' ∉ decimalPadded width value :=
    not_mem_decimalPadded (by decide)
  have hyear : parseUnsigned (2 ^ 63 - 1) (String.ofList (decimalPadded 4 y)) = some y :=
    parseUnsigned_decimalPadded (by omega) 4
  have hword {value : Nat} (hvalue : value < 100) (bits : Nat) (hbits : 7 ≤ bits) :
      parseUnsigned (2 ^ bits - 1) (String.ofList (decimalPadded 2 value)) = some value := by
    apply parseUnsigned_decimalPadded
    have hpow := Nat.pow_le_pow_right (by decide : 0 < 2) hbits
    omega
  have hranges : 1 ≤ m ∧ m ≤ 12 ∧ 1 ≤ d ∧ d ≤ 31 ∧ hh ≤ 23 ∧ mm ≤ 59 ∧ ss ≤ 60 := by omega
  have hthen {α β : Type} (a : α) (next : α → Option β) : (some a >>= next) = next a := rfl
  have hguard {p : Prop} [Decidable p] (h : p) (next : Unit → Option Nat) :
      (guard p >>= next) = next () := by
    rw [guard, if_pos h]
    rfl
  unfold unixSeconds
  rw [splitOnce_stamp, hthen]
  dsimp only
  rw [stripLast_concat, hthen, splitOnce_mark (hdash 4 y), hthen]
  dsimp only
  rw [splitOnce_mark (hdash 2 m), hthen]
  dsimp only
  rw [hyear, hthen, hword (by omega) 32 (by decide), hthen, hword (by omega) 32 (by decide),
    hthen, split_clock]
  dsimp only [List.getElem?_cons_zero, List.getElem?_cons_succ]
  rw [Option.bind_some, hword (by omega) 64 (by decide), hthen, Option.bind_some,
    hword (by omega) 64 (by decide), hthen, hthen, split_seconds]
  dsimp only [List.getElem?_cons_zero]
  rw [Option.bind_some, hword (by omega) 64 (by decide), hthen, hdays, hguard hranges,
    hguard (by omega)]
  congr 2

end

/-- A date at or after the epoch, and before the end of 64 bits of seconds, has a year that
is not negative and fits. -/
theorem year_bounds {date : Date} (h : date.Valid) (hfrom : 0 ≤ date.dayNumber)
    (hto : date.dayNumber < 2 ^ 47) : 0 ≤ date.year ∧ date.year < 2 ^ 63 := by
  obtain ⟨hpos, hlt⟩ := h.marchDay_bounds
  have hday : date.marchDay < 366 := by split at hlt <;> omega
  unfold Date.dayNumber Date.daysBefore at hfrom hto
  have hyear : date.year = date.marchYear ∨ date.year = date.marchYear + 1 := by
    unfold Date.marchYear
    split <;> omega
  omega

theorem day_le {date : Date} (h : date.Valid) : date.day ≤ 31 := by
  have hle := h.day_le
  unfold Library.monthLength at hle
  split_ifs at hle <;> omega

theorem unixSeconds_rfc3339 (time : SystemTime) (hepoch : 0 ≤ time.nanos) :
    unixSeconds (rfc3339 time) = some (time.nanos / 10 ^ 9).toNat := by
  have hlt := time.seconds_lt
  obtain ⟨secs, hsecs⟩ : ∃ secs : Nat, time.nanos.toNat / 10 ^ 9 = secs := ⟨_, rfl⟩
  have hseconds : (time.nanos / 10 ^ 9).toNat = secs := by omega
  obtain ⟨hvalid, hdays⟩ := civilFromDays_spec (secs / 86400 : Nat)
  unfold rfc3339
  dsimp only
  rw [hsecs, hseconds]
  generalize civilFromDays (secs / 86400 : Nat) = date at *
  obtain ⟨hyear, hyear'⟩ := year_bounds hvalid (by omega) (by omega)
  have hday : daysFromCivil (date.year.toNat : Int) date.month date.day = (secs / 86400 : Nat) := by
    rw [Int.toNat_of_nonneg hyear, daysFromCivil_eq (by omega) (by omega), hdays]
  rw [unixSeconds_stamp (by omega) ⟨hvalid.month_pos, hvalid.month_le⟩
    ⟨hvalid.day_pos, day_le hvalid⟩ (by omega) (by omega) (by omega) hday (by omega)]
  congr 1
  omega

/-- Civil dates are exact: a day is a date of the calendar and counts back to the day, and the
day after is the date after; and a time that is written as a stamp reads back to the second. -/
theorem civil_exact :
    (∀ z : Int, |z| < 2 ^ 40 →
      (civilFromDays z).Valid ∧
      daysFromCivil (civilFromDays z).year (civilFromDays z).month (civilFromDays z).day = z ∧
      civilFromDays (z + 1) = (civilFromDays z).next) ∧
    ∀ time : SystemTime, 0 ≤ time.nanos →
      unixSeconds (rfc3339 time) = some (time.nanos / 10 ^ 9).toNat := by
  constructor
  · intro z hz
    obtain ⟨hfrom, hto⟩ := abs_lt.mp hz
    obtain ⟨hvalid, hdays⟩ := civilFromDays_spec z
    refine ⟨hvalid, ?_, ?_⟩
    · rw [daysFromCivil_eq (by omega) (by omega), hdays]
    · obtain ⟨hlater, hnext⟩ := civilFromDays_spec (z + 1)
      apply Date.dayNumber_injective hlater hvalid.next
      rw [hnext, hvalid.dayNumber_next, hdays]
  · exact unixSeconds_rfc3339

def leapEve : SystemTime := ⟨1709251199500000000, by decide, by decide⟩

theorem civil_exact_leapEve :
    civilFromDays 19783 = ⟨2024, 3, 1⟩ ∧ rfc3339 leapEve = "2024-02-29T23:59:59.500Z" ∧
      unixSeconds (rfc3339 leapEve) = some 1709251199 := by
  obtain ⟨hdays, htimes⟩ := civil_exact
  obtain ⟨-, -, hnext⟩ := hdays 19782 (by decide)
  exact ⟨hnext.trans (by decide), by decide +kernel, htimes leapEve (by decide)⟩

end WindbgMcp.Record
