import TouchHle.Lib.Checked
import TouchHle.Lib.Gregorian

/-! Calendar dates of `time.h` and the seconds since the Unix epoch. -/

namespace TouchHle.Calendar

open Lib Gregorian List Int

structure Tm where
  tmSec : Int32
  tmMin : Int32
  tmHour : Int32
  tmMday : Int32
  tmMon : Int32
  tmYear : Int32
  tmWday : Int32
  tmYday : Int32
  tmIsdst : Int32
  tmGmtoff : Int32
  tmZone : UInt32

def i32 (x : ℤ) : Checked ℤ := if -2 ^ 31 ≤ x ∧ x < 2 ^ 31 then .ok x else .error .overflow

def i64 (x : ℤ) : Checked ℤ := if -2 ^ 63 ≤ x ∧ x < 2 ^ 63 then .ok x else .error .overflow

lemma i32_of {x : ℤ} (h : -2 ^ 31 ≤ x ∧ x < 2 ^ 31) : i32 x = .ok x := if_pos h

lemma i64_of {x : ℤ} (h : -2 ^ 63 ≤ x ∧ x < 2 ^ 63) : i64 x = .ok x := if_pos h

def isLeapYear (year : ℤ) : Bool :=
  year.tmod 4 = 0 ∧ (year.tmod 100 ≠ 0 ∨ year.tmod 400 = 0)

/-- The loop that fills a table of first days, and the day after the last entry. -/
def startDays (day : ℤ) : List ℤ → List ℤ × ℤ
  | [] => ([], day)
  | length :: l => (day :: (startDays (day + length) l).1, (startDays (day + length) l).2)

def calcYearToDay : List ℤ × ℤ :=
  startDays 0 ((List.range 400).map fun year : ℕ => if isLeapYear year then 366 else 365)

def yearToDay : List ℤ := calcYearToDay.1

def cycleDays : ℤ := calcYearToDay.2

def daysInMonth : List ℤ := [31, 28, 31, 30, 31, 30, 31, 31, 30, 31, 30, 31]

def calcMonthToDay (leapYear : Bool) : List ℤ :=
  (startDays 0 (daysInMonth.mapIdx fun month days =>
    days + if leapYear && month == 1 then 1 else 0)).1

def monthToDay (leapYear : Bool) : List ℤ :=
  if leapYear then calcMonthToDay true else calcMonthToDay false

def partitionPoint (table : List ℤ) (day : ℤ) : ℕ := (table.takeWhile (· ≤ day)).length

def entry (table : List ℤ) (i : ℕ) : Checked ℤ :=
  match table[i]? with
  | some x => .ok x
  | none => .error .index

def timestampToCalendarDate (timestamp : Int32) : Checked Tm := do
  let secondsSinceUnixEpoch := timestamp.toInt
  let daysSinceUnixEpoch := secondsSinceUnixEpoch / 86400
  let secondInDay := secondsSinceUnixEpoch % 86400
  let daysSinceY2k ← i32 (daysSinceUnixEpoch - 10957)
  let cyclesSinceY2k := daysSinceY2k / cycleDays
  let dayInCycle := daysSinceY2k % cycleDays
  let yearInCycle ← subU32 (partitionPoint yearToDay dayInCycle) 1
  let cycleStart ← i32 (cyclesSinceY2k * 400)
  let cycleStart ← i32 (2000 + cycleStart)
  let year ← i32 (cycleStart + yearInCycle)
  let yearStart ← entry yearToDay yearInCycle
  let dayInYear ← i32 (dayInCycle - yearStart)
  let leap := isLeapYear yearInCycle
  assert (dayInYear < 365 + if leap then 1 else 0)
  let monthInYear ← subU32 (partitionPoint (monthToDay leap) dayInYear) 1
  let monthStart ← entry (monthToDay leap) monthInYear
  let dayInMonth ← i32 (dayInYear - monthStart)
  let days ← entry daysInMonth monthInYear
  assert (dayInMonth < days + if leap then 1 else 0)
  let weekday ← i32 (4 + daysSinceUnixEpoch)
  let tmMday ← i32 (dayInMonth + 1)
  let tmYear ← i32 (year - 1900)
  return {
    tmSec := .ofInt (secondInDay.tmod 60)
    tmMin := .ofInt ((secondInDay.tmod 3600).tdiv 60)
    tmHour := .ofInt (secondInDay.tdiv 3600)
    tmMday := .ofInt tmMday
    tmMon := .ofInt monthInYear
    tmYear := .ofInt tmYear
    tmWday := .ofInt (weekday % 7)
    tmYday := .ofInt dayInYear
    tmIsdst := 0
    tmGmtoff := 0
    tmZone := 0 }

def sumYears (unit : ℤ) : ℕ → ℤ → ℤ → Checked ℤ
  | 0, _, sum => .ok sum
  | n + 1, year, sum => do
    let sum ← i64 (sum + (if isLeapYear year then 366 else 365) * unit)
    sumYears unit n (year + 1) sum

def calendarDateToTimestamp (tm : Tm) : Checked Int32 := do
  let y ← i64 (tm.tmYear.toInt + 1900)
  let y ← i64 (y + tm.tmMon.toInt / 12)
  -- `y as i32` takes the low 32 bits.
  let year := y.bmod (2 ^ 32)
  let month := (tm.tmMon.toInt % 12).toNat
  let seconds ← sumYears 86400 (year - 1970).toNat 1970 0
  let days ← entry (monthToDay (isLeapYear year)) month
  let seconds ← i64 (seconds + days * 86400)
  let seconds ← i64 (seconds + (tm.tmMday.toInt - 1) * 86400)
  let seconds ← i64 (seconds + tm.tmHour.toInt * 3600)
  let seconds ← i64 (seconds + tm.tmMin.toInt * 60)
  let seconds ← i64 (seconds + tm.tmSec.toInt)
  let seconds ← if year < 1970 then do
      let daysBeforeYear ← sumYears 1 (1970 - year).toNat year 0
      i64 (seconds - daysBeforeYear * 86400)
    else pure seconds
  return if -2 ^ 31 ≤ seconds ∧ seconds < 2 ^ 31 then .ofInt seconds
    else if 0 < seconds then Int32.maxValue else Int32.minValue

/-! ### What a date means -/

namespace Tm

def calendarYear (tm : Tm) : ℤ := tm.tmYear.toInt + 1900 + tm.tmMon.toInt / 12

/-- The seconds since the Unix epoch, were a year the date's. -/
def secondsIn (tm : Tm) (year : ℤ) : ℤ :=
  (dayNumber year (tm.tmMon.toInt % 12).toNat (tm.tmMday.toInt - 1)
      - yearStart 1970) * 86400
    + tm.tmHour.toInt * 3600 + tm.tmMin.toInt * 60 + tm.tmSec.toInt

def seconds (tm : Tm) : ℤ := tm.secondsIn tm.calendarYear

structure Valid (tm : Tm) : Prop where
  sec : 0 ≤ tm.tmSec.toInt ∧ tm.tmSec.toInt < 60
  min : 0 ≤ tm.tmMin.toInt ∧ tm.tmMin.toInt < 60
  hour : 0 ≤ tm.tmHour.toInt ∧ tm.tmHour.toInt < 24
  mon : 0 ≤ tm.tmMon.toInt ∧ tm.tmMon.toInt < 12
  mday : 1 ≤ tm.tmMday.toInt ∧ tm.tmMday.toInt
    ≤ monthLength (isLeap (tm.tmYear.toInt + 1900)) tm.tmMon.toInt.toNat
  yday : tm.tmYday.toInt + 1
    = monthStart (isLeap (tm.tmYear.toInt + 1900)) tm.tmMon.toInt.toNat
      + tm.tmMday.toInt
  wday : tm.tmWday.toInt = (dayNumber (tm.tmYear.toInt + 1900) tm.tmMon.toInt.toNat
    (tm.tmMday.toInt - 1) + 6) % 7

end Tm

def clamp (seconds : ℤ) : Int32 := .ofInt (max (-2 ^ 31) (min seconds (2 ^ 31 - 1)))

/-! ### The tables -/

lemma isLeapYear_eq (year : ℤ) : isLeapYear year = isLeap year := by
  have hrem : ∀ n : ℤ, year.tmod n = 0 ↔ year % n = 0 := by
    intro n
    rw [← dvd_iff_tmod_eq_zero, dvd_iff_emod_eq_zero]
  rw [isLeapYear, isLeap]
  simp only [ne_eq, hrem]

lemma yearLength_eq (year : ℤ) :
    (if isLeapYear year then 366 else 365 : ℤ) = yearLength year := by
  rw [isLeapYear_eq, yearLength]

lemma startDays_snd (day : ℤ) (lengths : List ℤ) :
    (startDays day lengths).2 = day + lengths.sum := by
  induction lengths generalizing day with
  | nil => simp [startDays]
  | cons length l ih => rw [startDays, ih, sum_cons, add_assoc]

/-- Where the search in a table of first days ends. -/
lemma partitionPoint_startDays {day x : ℤ} {lengths : List ℤ} (hday : day ≤ x)
    (hx : x < day + lengths.sum) : ∃ k < lengths.length,
      partitionPoint (startDays day lengths).1 x = k + 1 ∧
      (startDays day lengths).1[k]? = some (day + (lengths.take k).sum) ∧
      day + (lengths.take k).sum ≤ x ∧ x < day + (lengths.take (k + 1)).sum := by
  induction lengths generalizing day with
  | nil =>
    rw [sum_nil] at hx
    omega
  | cons length l ih =>
    rw [sum_cons, ← add_assoc] at hx
    have htake : partitionPoint (startDays day (length :: l)).1 x
        = partitionPoint (startDays (day + length) l).1 x + 1 := by
      rw [partitionPoint, startDays, takeWhile_cons_of_pos (by simpa using hday)]
      rfl
    by_cases hnext : day + length ≤ x
    · obtain ⟨k, hk, hpoint, hentry, hlow, hhigh⟩ := ih hnext hx
      refine ⟨k + 1, Nat.succ_lt_succ hk, by rw [htake, hpoint], ?_, ?_, ?_⟩
      · rw [take_succ_cons, sum_cons, ← add_assoc, ← hentry]
        rfl
      · rwa [take_succ_cons, sum_cons, ← add_assoc]
      · rwa [take_succ_cons, sum_cons, ← add_assoc]
    · refine ⟨0, Nat.succ_pos _, ?_, by simp [startDays], by simpa using hday, by simp; omega⟩
      rw [htake]
      cases l with
      | nil => rfl
      | cons _ l =>
        rw [partitionPoint, startDays, takeWhile_cons_of_neg (by simpa using hnext)]
        rfl

lemma sum_yearLengths (n : ℕ) :
    ((List.range n).map fun year : ℕ => (if isLeapYear year then 366 else 365 : ℤ)).sum
      = yearStart n := by
  induction n with
  | zero => rfl
  | succ n ih =>
    rw [sum_range_succ, ih, yearLength_eq, Nat.cast_succ, yearStart_succ]

lemma cycleDays_eq : cycleDays = 146097 := by
  rw [cycleDays, calcYearToDay, startDays_snd, sum_yearLengths]
  rfl

lemma monthToDay_eq (leapYear : Bool) :
    monthToDay leapYear = (startDays 0 (monthLengths leapYear)).1 := by
  cases leapYear <;> rfl

lemma entry_of {table : List ℤ} {i : ℕ} {x : ℤ} (h : table[i]? = some x) :
    entry table i = .ok x := by
  rw [entry, h]

lemma year_found {x : ℤ} (hx : 0 ≤ x ∧ x < cycleDays) : ∃ k < 400,
    partitionPoint yearToDay x = k + 1 ∧ entry yearToDay k = .ok (yearStart k) ∧
      yearStart k ≤ x ∧
      x < yearStart k + yearLength k := by
  rw [cycleDays, calcYearToDay, startDays_snd] at hx
  obtain ⟨k, hk, hpoint, hentry, hlow, hhigh⟩ := partitionPoint_startDays hx.1 hx.2
  rw [length_map, length_range] at hk
  have hsum : ∀ j ≤ 400, (((List.range 400).map fun year : ℕ =>
      (if isLeapYear year then 366 else 365 : ℤ)).take j).sum = yearStart j := by
    intro j hj
    rw [← map_take, take_range, Nat.min_eq_left hj, sum_yearLengths]
  rw [hsum k hk.le, zero_add] at hentry hlow
  rw [hsum (k + 1) hk, zero_add, Nat.cast_succ, yearStart_succ] at hhigh
  exact ⟨k, hk, hpoint, entry_of hentry, hlow, hhigh⟩

lemma month_found {leapYear : Bool} {x : ℤ} (hx : 0 ≤ x ∧ x < if leapYear then 366 else 365) :
    ∃ k < 12, partitionPoint (monthToDay leapYear) x = k + 1 ∧
      entry (monthToDay leapYear) k = .ok (monthStart leapYear k) ∧
      monthStart leapYear k ≤ x ∧
      x < monthStart leapYear k + monthLength leapYear k := by
  rw [← sum_monthLengths, ← zero_add (monthLengths leapYear).sum] at hx
  obtain ⟨k, hk, hpoint, hentry, hlow, hhigh⟩ := partitionPoint_startDays hx.1 hx.2
  rw [← monthToDay_eq] at hpoint hentry
  rw [zero_add] at hentry hlow hhigh
  rw [take_add_one, sum_append] at hhigh
  refine ⟨k, by cases leapYear <;> exact hk, hpoint, entry_of hentry, hlow, ?_⟩
  rw [getElem?_eq_getElem hk] at hhigh
  rw [monthLength, getD_eq_getElem _ _ hk]
  simpa [monthStart] using hhigh

/-! ### From a timestamp to its date -/

lemma daysInMonth_add (leapYear : Bool) {month : ℕ} (hmonth : month < 12) :
    ∃ days, entry daysInMonth month = .ok days ∧
      monthLength leapYear month ≤ days + if leapYear then 1 else 0 := by
  cases leapYear <;> interval_cases month <;> exact ⟨_, rfl, by decide⟩

lemma toInt_ofInt {x : ℤ} (h : -2 ^ 31 ≤ x ∧ x < 2 ^ 31) : (Int32.ofInt x).toInt = x :=
  Int32.toInt_ofInt_of_le h.1 h.2

lemma toInt_bounds (x : Int32) : -2 ^ 31 ≤ x.toInt ∧ x.toInt < 2 ^ 31 := ⟨x.le_toInt, x.toInt_lt⟩

/-- The date of a day in a year, at a second of that day. -/
def dateOf (seconds year day : ℤ) (month : ℕ) : Tm where
  tmSec := .ofInt ((seconds % 86400).tmod 60)
  tmMin := .ofInt (((seconds % 86400).tmod 3600).tdiv 60)
  tmHour := .ofInt ((seconds % 86400).tdiv 3600)
  tmMday := .ofInt (day - monthStart (isLeap year) month + 1)
  tmMon := .ofInt month
  tmYear := .ofInt (year - 1900)
  tmWday := .ofInt ((4 + seconds / 86400) % 7)
  tmYday := .ofInt day
  tmIsdst := 0
  tmGmtoff := 0
  tmZone := 0

lemma dateOf_valid {seconds year day : ℤ} {month : ℕ} (hmonth : month < 12)
    (hyear : -2 ^ 31 + 1900 ≤ year ∧ year < 2 ^ 31) (hday : day < 366)
    (hlow : monthStart (isLeap year) month ≤ day)
    (hhigh : day < monthStart (isLeap year) month + monthLength (isLeap year) month)
    (hdays : yearStart year + day = 719528 + seconds / 86400) :
    (dateOf seconds year day month).Valid ∧ (dateOf seconds year day month).seconds = seconds := by
  obtain ⟨hstart, -⟩ := monthStart_bounds (isLeap year) month
  rw [dateOf]
  set start := monthStart (isLeap year) month with hdef
  have hnonneg : 0 ≤ seconds % 86400 := by omega
  have hsec : (Int32.ofInt ((seconds % 86400).tmod 60)).toInt = seconds % 86400 % 60 := by
    rw [tmod_eq_emod_of_nonneg hnonneg, toInt_ofInt (by omega)]
  have hmin : (Int32.ofInt (((seconds % 86400).tmod 3600).tdiv 60)).toInt
      = seconds % 86400 % 3600 / 60 := by
    rw [tmod_eq_emod_of_nonneg hnonneg, tdiv_eq_ediv_of_nonneg (by omega),
      toInt_ofInt (by omega)]
  have hhour : (Int32.ofInt ((seconds % 86400).tdiv 3600)).toInt = seconds % 86400 / 3600 := by
    rw [tdiv_eq_ediv_of_nonneg hnonneg, toInt_ofInt (by omega)]
  have hmday : (Int32.ofInt (day - start + 1)).toInt = day - start + 1 := toInt_ofInt (by omega)
  have hmon : (Int32.ofInt (month : ℤ)).toInt = month := toInt_ofInt (by omega)
  have hyday : (Int32.ofInt day).toInt = day := toInt_ofInt (by omega)
  have hwday : (Int32.ofInt ((4 + seconds / 86400) % 7)).toInt = (4 + seconds / 86400) % 7 :=
    toInt_ofInt (by omega)
  have htmYear : (Int32.ofInt (year - 1900)).toInt + 1900 = year := by
    rw [toInt_ofInt (by omega), sub_add_cancel]
  have hnumber : dayNumber year month (day - start + 1 - 1) = 719528 + seconds / 86400 := by
    rw [dayNumber, ← hdef]
    omega
  constructor
  · constructor
    · dsimp only
      rw [hsec]
      omega
    · dsimp only
      rw [hmin]
      omega
    · dsimp only
      rw [hhour]
      omega
    · dsimp only
      rw [hmon]
      omega
    · dsimp only
      rw [hmday, htmYear, hmon, toNat_natCast]
      omega
    · dsimp only
      rw [hyday, hmday, htmYear, hmon, toNat_natCast, ← hdef]
      omega
    · dsimp only
      rw [hwday, hmday, htmYear, hmon, toNat_natCast, hnumber]
      omega
  · rw [Tm.seconds, Tm.secondsIn, Tm.calendarYear]
    dsimp only
    have hmod : (month : ℤ) % 12 = month := emod_eq_of_lt (by omega) (by omega)
    have hdiv : (month : ℤ) / 12 = 0 := ediv_eq_zero_of_lt (by omega) (by omega)
    have hepoch : yearStart 1970 = 719528 := rfl
    rw [htmYear, hmon, hdiv, add_zero, hmod, toNat_natCast, hmday, hnumber, hhour, hmin, hsec,
      hepoch]
    omega

theorem timestampToCalendarDate_eq (timestamp : Int32) :
    ∃ date, timestampToCalendarDate timestamp = .ok date ∧ date.Valid ∧
      date.seconds = timestamp.toInt := by
  have hrange := toInt_bounds timestamp
  rw [timestampToCalendarDate]
  dsimp only
  set s := timestamp.toInt
  set days := s / 86400 with hdays
  have hcycle : 0 ≤ (days - 10957) % cycleDays ∧ (days - 10957) % cycleDays < cycleDays := by
    rw [cycleDays_eq]
    omega
  obtain ⟨k, hk, hkpoint, hkentry, hklow, hkhigh⟩ := year_found hcycle
  set x := (days - 10957) % cycleDays with hx
  set q := (days - 10957) / cycleDays with hq
  rw [cycleDays_eq] at hx hq hcycle
  have hday : 0 ≤ x - yearStart k ∧ x - yearStart k
      < if isLeapYear k then 366 else 365 := by
    rw [yearLength_eq]
    omega
  obtain ⟨m, hm, hmpoint, hmentry, hmlow, hmhigh⟩ := month_found hday
  obtain ⟨monthDays, hmonthDays, hmonthLength⟩ := daysInMonth_add (isLeapYear k) hm
  set d := x - yearStart k with hd
  have hstart : 0 ≤ yearStart k := by
    rw [yearStart]
    omega
  obtain ⟨hmonth, -⟩ := monthStart_bounds (isLeapYear k) m
  have hd366 : d < 366 := by
    have := hday.2
    split at this <;> omega
  have hassert : d < 365 + if isLeapYear k then 1 else 0 := by
    have := hday.2
    split at this <;> simp_all
  have hyear : 2000 + q * 400 + (k : ℤ) = 400 * (5 + q) + k := by omega
  have hleap : isLeap (2000 + q * 400 + k) = isLeapYear k := by
    rw [hyear, isLeap_add_cycles, isLeapYear_eq]
  have hyearStart : yearStart (2000 + q * 400 + k) = 146097 * (5 + q) + yearStart k := by
    rw [hyear, yearStart_add_cycles]
  refine ⟨dateOf s (2000 + q * 400 + k) d m, ?_, dateOf_valid hm (by omega) hd366
    (hleap ▸ hmlow) (hleap ▸ hmhigh) (by omega)⟩
  rw [dateOf, hleap]
  set monthStart := monthStart (isLeapYear k) m
  rw [i32_of (by omega), ok_bind, hkpoint, subU32_of_le (by omega), ok_bind,
    Nat.add_sub_cancel, i32_of (by omega), ok_bind,
    i32_of (by omega), ok_bind, i32_of (by omega), ok_bind, hkentry, ok_bind, i32_of (by omega),
    ok_bind, assert_of hassert, ok_bind, hmpoint, subU32_of_le (by omega), ok_bind,
    Nat.add_sub_cancel, hmentry, ok_bind, i32_of (by omega), ok_bind, hmonthDays, ok_bind,
    assert_of (by omega), ok_bind, i32_of (by omega), ok_bind, i32_of (by omega), ok_bind,
    i32_of (by omega), ok_bind]
  rfl

/-! ### From a date to its timestamp -/

lemma sumYears_eq {unit : ℤ} (hunit : 0 ≤ unit ∧ unit ≤ 86400) (n : ℕ) (year sum : ℤ)
    (hsum : 0 ≤ sum ∧ sum + 366 * 86400 * n < 2 ^ 63) :
    sumYears unit n year sum = .ok (sum
      + (yearStart (year + n) - yearStart year) * unit) := by
  induction n generalizing year sum with
  | zero => simp [sumYears]
  | succ n ih =>
    have hlength : 0 ≤ yearLength year * unit ∧
        yearLength year * unit ≤ 366 * 86400 := by
      rcases yearLength_cases year with ⟨-, h⟩ | ⟨-, h⟩ <;> rw [h] <;> omega
    rw [Nat.cast_succ] at hsum
    have hstart : yearStart (year + 1 + n)
        = yearStart (year + (n + 1 : ℕ)) := by
      rw [Nat.cast_succ, add_assoc, add_comm 1 (n : ℤ)]
    rw [sumYears, yearLength_eq, i64_of (by omega), ok_bind, ih _ _ (by omega), hstart,
      yearStart_succ]
    congr 1
    ring

/-- The year that the code counts with. -/
def Tm.wrappedYear (tm : Tm) : ℤ := tm.calendarYear.bmod (2 ^ 32)

def toTimestamp (seconds : ℤ) : Int32 :=
  if -2 ^ 31 ≤ seconds ∧ seconds < 2 ^ 31 then .ofInt seconds
  else if 0 < seconds then Int32.maxValue else Int32.minValue

lemma toTimestamp_eq (seconds : ℤ) : toTimestamp seconds = clamp seconds := by
  rw [toTimestamp, clamp]
  split
  · rw [min_eq_left (by omega), max_eq_right (by omega)]
  split
  · rw [min_eq_right (by omega), max_eq_right (by omega)]
    rfl
  · rw [min_eq_left (by omega), max_eq_left (by omega)]
    rfl

lemma month_entry (leapYear : Bool) {month : ℕ} (hmonth : month < 12) :
    entry (monthToDay leapYear) month = .ok (monthStart leapYear month) := by
  cases leapYear <;> interval_cases month <;> rfl

/-- No step of the conversion leaves its type: it gives the seconds of the date in the wrapped
year. -/
theorem calendarDateToTimestamp_eq (tm : Tm) :
    calendarDateToTimestamp tm = .ok (clamp (tm.secondsIn tm.wrappedYear)) := by
  have hyear := toInt_bounds tm.tmYear
  have hmon := toInt_bounds tm.tmMon
  have hmday := toInt_bounds tm.tmMday
  have hhour := toInt_bounds tm.tmHour
  have hmin := toInt_bounds tm.tmMin
  have hsec := toInt_bounds tm.tmSec
  rw [calendarDateToTimestamp, i64_of (by omega), ok_bind, i64_of (by omega), ok_bind]
  dsimp only
  change (_ >>= _ : Checked Int32) = _
  rw [Tm.secondsIn, Tm.wrappedYear, Tm.calendarYear]
  set year := (tm.tmYear.toInt + 1900 + tm.tmMon.toInt / 12).bmod (2 ^ 32) with hdef
  have hlow : -2 ^ 31 ≤ year := le_bmod (by decide)
  have hhigh : year < 2 ^ 31 := bmod_lt (by decide)
  clear_value year
  have hmonth := monthStart_bounds (isLeap year) (tm.tmMon.toInt % 12).toNat
  have hstart : -366 * 2 ^ 31 - 400 ≤ yearStart year ∧
      yearStart year ≤ 366 * 2 ^ 31 + 400 := by
    rw [yearStart]
    omega
  have hepoch : yearStart 1970 = 719528 := rfl
  have hafter : sumYears 86400 (year - 1970).toNat 1970 0
      = .ok ((yearStart (max 1970 year) - 719528) * 86400) := by
    rw [sumYears_eq (by decide) _ _ _ (by omega), zero_add, hepoch]
    congr 4
    omega
  have hbefore : year < 1970 → sumYears 1 (1970 - year).toNat year 0
      = .ok (719528 - yearStart year) := by
    intro h
    rw [sumYears_eq (by decide) _ _ _ (by omega), zero_add, mul_one]
    congr 2
    rw [← hepoch]
    congr 1
    omega
  rw [hafter, ok_bind, isLeapYear_eq, month_entry _ (by omega), ok_bind, ← toTimestamp_eq,
    dayNumber, hepoch]
  set monthStart := monthStart (isLeap year) (tm.tmMon.toInt % 12).toNat
  rcases lt_or_ge year 1970 with h | h
  · rw [max_eq_left h.le, hepoch, i64_of (by omega), ok_bind, i64_of (by omega), ok_bind,
      i64_of (by omega), ok_bind, i64_of (by omega), ok_bind, i64_of (by omega), ok_bind, if_pos h,
      hbefore h, ok_bind, i64_of (by omega), ok_bind]
    refine congrArg (fun seconds => Except.ok (toTimestamp seconds)) ?_
    ring
  · rw [max_eq_right h, i64_of (by omega), ok_bind, i64_of (by omega), ok_bind,
      i64_of (by omega), ok_bind, i64_of (by omega), ok_bind, i64_of (by omega), ok_bind,
      if_neg (not_lt.mpr h), pure_eq_ok, ok_bind]
    refine congrArg (fun seconds => Except.ok (toTimestamp seconds)) ?_
    ring

/-- A year that is far away outweighs the other fields. -/
lemma secondsIn_far (tm : Tm) (year : ℤ) :
    (2 ^ 30 ≤ year → 2 ^ 31 ≤ tm.secondsIn year) ∧
      (year ≤ -2 ^ 30 → tm.secondsIn year < -2 ^ 31) := by
  have hmday := toInt_bounds tm.tmMday
  have hhour := toInt_bounds tm.tmHour
  have hmin := toInt_bounds tm.tmMin
  have hsec := toInt_bounds tm.tmSec
  have hmonth := monthStart_bounds (isLeap year) (tm.tmMon.toInt % 12).toNat
  have hepoch : yearStart 1970 = 719528 := rfl
  rw [Tm.secondsIn, dayNumber, hepoch, yearStart]
  omega

lemma clamp_high {seconds : ℤ} (h : 2 ^ 31 ≤ seconds) : clamp seconds = Int32.maxValue := by
  rw [clamp, min_eq_right (by omega), max_eq_right (by omega)]
  rfl

lemma clamp_low {seconds : ℤ} (h : seconds < -2 ^ 31) : clamp seconds = Int32.minValue := by
  rw [clamp, min_eq_left (by omega), max_eq_left h.le]
  rfl

lemma clamp_toInt (timestamp : Int32) : clamp timestamp.toInt = timestamp := by
  obtain ⟨hlow, hhigh⟩ := toInt_bounds timestamp
  rw [clamp, min_eq_left (by omega), max_eq_right hlow, Int32.ofInt_toInt]

lemma clamp_wrapped_iff (tm : Tm) : clamp (tm.secondsIn tm.wrappedYear) = clamp tm.seconds ↔
    -2 ^ 31 ≤ tm.calendarYear ∧ tm.calendarYear < 2 ^ 31 := by
  have hyear := toInt_bounds tm.tmYear
  have hmon := toInt_bounds tm.tmMon
  have hrange : -2 ^ 31 - 2 ^ 30 ≤ tm.calendarYear ∧ tm.calendarYear < 2 ^ 31 + 2 ^ 30 := by
    rw [Tm.calendarYear]
    omega
  have hwrapped : tm.wrappedYear = tm.calendarYear ∨
      (2 ^ 31 ≤ tm.calendarYear ∧ tm.wrappedYear ≤ -2 ^ 30) ∨
      (tm.calendarYear < -2 ^ 31 ∧ 2 ^ 30 ≤ tm.wrappedYear) := by
    rw [Tm.wrappedYear, bmod_def]
    omega
  constructor
  · intro heq
    by_contra hout
    rcases hwrapped with hsame | ⟨hlate, hback⟩ | ⟨hearly, hahead⟩
    · have hlow : -2 ^ 31 ≤ tm.wrappedYear := le_bmod (by decide)
      have hhigh : tm.wrappedYear < 2 ^ 31 := bmod_lt (by decide)
      exact hout (hsame ▸ ⟨hlow, hhigh⟩)
    · rw [clamp_low ((secondsIn_far tm _).2 hback), Tm.seconds,
        clamp_high ((secondsIn_far tm _).1 (by omega))] at heq
      exact absurd heq (by decide)
    · rw [clamp_high ((secondsIn_far tm _).1 hahead), Tm.seconds,
        clamp_low ((secondsIn_far tm _).2 (by omega))] at heq
      exact absurd heq (by decide)
  · intro hfits
    rw [Tm.seconds, show tm.wrappedYear = tm.calendarYear by omega]

/-- Every timestamp has its date and comes back from it, and a date gives its seconds as far as they
fit exactly if its year is one of the type that the code counts years in. -/
theorem calendarDates_iff (timestamp : Int32) (tm : Tm) :
    (∃ date, timestampToCalendarDate timestamp = .ok date ∧ date.Valid ∧
        date.seconds = timestamp.toInt ∧ calendarDateToTimestamp date = .ok timestamp) ∧
      (calendarDateToTimestamp tm = .ok (clamp tm.seconds) ↔
        -2 ^ 31 ≤ tm.calendarYear ∧ tm.calendarYear < 2 ^ 31) := by
  constructor
  · obtain ⟨date, hdate, hvalid, hseconds⟩ := timestampToCalendarDate_eq timestamp
    refine ⟨date, hdate, hvalid, hseconds, ?_⟩
    have hfits : -2 ^ 31 ≤ date.calendarYear ∧ date.calendarYear < 2 ^ 31 := by
      have hlow := timestamp.le_toInt
      have hhigh := timestamp.toInt_lt
      obtain ⟨hlate, hearly⟩ := secondsIn_far date date.calendarYear
      rw [← Tm.seconds, hseconds] at hlate hearly
      omega
    rw [calendarDateToTimestamp_eq, (clamp_wrapped_iff date).mpr hfits, hseconds, clamp_toInt]
  · rw [calendarDateToTimestamp_eq, Except.ok.injEq]
    exact clamp_wrapped_iff tm

/-- The first of January of the last year that `tm_year` can hold is before all timestamps. -/
theorem calendarDateToTimestamp_lastYear :
    calendarDateToTimestamp ⟨0, 0, 0, 1, 0, Int32.maxValue, 0, 0, 0, 0, 0⟩ = .ok Int32.minValue ∧
      clamp (Tm.seconds ⟨0, 0, 0, 1, 0, Int32.maxValue, 0, 0, 0, 0, 0⟩) = Int32.maxValue := by
  rw [calendarDateToTimestamp_eq]
  decide

end TouchHle.Calendar
