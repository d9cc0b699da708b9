import Mathlib.Algebra.Order.Group.Int
import Mathlib.Order.SuccPred.Basic

/-! # The Gregorian calendar

Days are numbered from 1 January 1970, before and after it, and months from 0.
Inside, years begin in March, so that a leap day is the last of its year; what
`monthStart` means is fixed by its value at the epoch and by the lengths of the
months. -/

namespace EmbeddedPlatform.Lib.Calendar

def isLeap (y : Int) : Bool := y % 4 = 0 ∧ (y % 100 ≠ 0 ∨ y % 400 = 0)

def daysInMonth (y : Int) (m : Fin 12) : Int :=
  match m with
  | 0 | 2 | 4 | 6 | 7 | 9 | 11 => 31
  | 3 | 5 | 8 | 10 => 30
  | 1 => if isLeap y then 29 else 28

structure Date where
  year : Int
  month : Fin 12
  day : Int
  one_le_day : 1 ≤ day
  day_le : day ≤ daysInMonth year month

/-! ## Dates as day numbers -/

/-- The first day of a year that begins in March. -/
def marchYearStart (y : Int) : Int := 365 * y + y / 4 - y / 100 + y / 400 - 719468

/-- The days of such a year before a month of it, counted from March. -/
def marchMonthStart (m : Int) : Int := (153 * m + 2) / 5

/-- The first day of a month. -/
def monthStart (y : Int) (m : Fin 12) : Int :=
  marchYearStart (if m.val < 2 then y - 1 else y) + marchMonthStart ((m.val + 10) % 12)

def Date.dayNumber (d : Date) : Int := monthStart d.year d.month + (d.day - 1)

example : monthStart 1970 0 = 0 := rfl

theorem marchYearStart_succ (y : Int) :
    marchYearStart (y + 1) = marchYearStart y + (if isLeap (y + 1) then 366 else 365) := by
  unfold marchYearStart isLeap
  simp only [decide_eq_true_eq]
  split <;> omega

theorem monthStart_succ (y : Int) (m : Nat) (h : m + 1 < 12) :
    monthStart y ⟨m + 1, h⟩ =
      monthStart y ⟨m, Nat.lt_of_succ_lt h⟩ + daysInMonth y ⟨m, Nat.lt_of_succ_lt h⟩ := by
  have hmarch := marchYearStart_succ (y - 1)
  rw [Int.sub_add_cancel] at hmarch
  have hm : m = 0 ∨ m = 1 ∨ m = 2 ∨ m = 3 ∨ m = 4 ∨ m = 5 ∨ m = 6 ∨ m = 7 ∨ m = 8 ∨ m = 9 ∨
    m = 10 := by omega
  -- only at the end of February does the year change
  rcases hm with rfl | rfl | rfl | rfl | rfl | rfl | rfl | rfl | rfl | rfl | rfl
  all_goals simp [monthStart, marchMonthStart, daysInMonth]
  all_goals try omega
  rw [hmarch]
  split <;> omega

theorem monthStart_nextYear (y : Int) : monthStart (y + 1) 0 = monthStart y 11 + 31 := by
  have h0 : monthStart (y + 1) 0 = marchYearStart (y + 1 - 1) + 306 := rfl
  have h11 : monthStart y 11 = marchYearStart y + 275 := rfl
  rw [h0, h11, Int.add_sub_cancel]
  omega

theorem daysInMonth_pos (y : Int) (m : Fin 12) : 0 < daysInMonth y m := by
  unfold daysInMonth
  repeat' split
  all_goals decide

/-! ## Months do not overlap -/

/-- The months in a row. -/
def nthMonthStart (k : Int) : Int :=
  monthStart (k / 12) ⟨(k % 12).toNat, by omega⟩

theorem nthMonthStart_eq (y : Int) (m : Nat) (h : m < 12) :
    nthMonthStart (12 * y + m) = monthStart y ⟨m, h⟩ := by
  have hy : (12 * y + m) / 12 = y := by omega
  have hm : ((12 * y + m) % 12).toNat = m := by omega
  unfold nthMonthStart
  simp only [hy, hm]

theorem nthMonthStart_lt_succ (k : Int) : nthMonthStart k < nthMonthStart (k + 1) := by
  obtain ⟨y, m, hm, rfl⟩ : ∃ (y : Int) (m : Nat), m < 12 ∧ k = 12 * y + m :=
    ⟨k / 12, (k % 12).toNat, by omega, by omega⟩
  rw [nthMonthStart_eq y m hm]
  by_cases hlast : m + 1 < 12
  · have hk : 12 * y + (m : Int) + 1 = 12 * y + ((m + 1 : Nat) : Int) := by omega
    rw [hk, nthMonthStart_eq y (m + 1) hlast, monthStart_succ y m hlast]
    exact Int.lt_add_of_pos_right _ (daysInMonth_pos y ⟨m, hm⟩)
  · have hm' : m = 11 := by omega
    have hk : 12 * y + (m : Int) + 1 = 12 * (y + 1) + ((0 : Nat) : Int) := by omega
    subst hm'
    rw [hk, nthMonthStart_eq (y + 1) 0 (by decide)]
    have hnext := monthStart_nextYear y
    show monthStart y 11 < monthStart (y + 1) 0
    omega

/-- **Two months do not begin on the same day.** -/
theorem monthStart_injective {y y' : Int} {m m' : Fin 12} (h : monthStart y m = monthStart y' m') :
    y = y' ∧ m = m' := by
  have hmono : StrictMono nthMonthStart := strictMono_int_of_lt_succ nthMonthStart_lt_succ
  rw [← nthMonthStart_eq y m m.isLt, ← nthMonthStart_eq y' m' m'.isLt] at h
  have hk := hmono.injective h
  exact ⟨by omega, Fin.ext (by omega)⟩

/-! ## Day numbers as dates -/

/-- The year from March on, and the day in it. -/
def marchYear (z : Int) : Int × Int :=
  let era := (z + 719468) / 146097
  let doe := (z + 719468) % 146097
  let century := min (doe / 36524) 3
  let doc := doe - 36524 * century
  let cycle := doc / 1461
  let year := min (doc % 1461 / 365) 3
  (400 * era + 100 * century + 4 * cycle + year, doc % 1461 - 365 * year)

/-- A year by its place in the cycles of 400, 100 and 4 years. -/
structure Cycles (c q y : Int) : Prop where
  century : 0 ≤ c ∧ c ≤ 3
  cycle : 0 ≤ q ∧ q ≤ 24
  year : 0 ≤ y ∧ y ≤ 3

theorem Cycles.start {e c q y : Int} (h : Cycles c q y) :
    marchYearStart (400 * e + 100 * c + 4 * q + y) =
      146097 * e + 36524 * c + 1461 * q + 365 * y - 719468 := by
  obtain ⟨hc, hq, hy⟩ := h
  have h4 : (400 * e + 100 * c + 4 * q + y) / 4 = 100 * e + 25 * c + q := by omega
  have h100 : (400 * e + 100 * c + 4 * q + y) / 100 = 4 * e + c := by omega
  have h400 : (400 * e + 100 * c + 4 * q + y) / 400 = e := by omega
  unfold marchYearStart
  rw [h4, h100, h400]
  omega

theorem Cycles.leap {e c q : Int} (h : Cycles c q 3) (hlast : q < 24 ∨ c = 3) :
    isLeap (400 * e + 100 * c + 4 * q + 3 + 1) = true := by
  obtain ⟨hc, hq, -⟩ := h
  unfold isLeap
  simp only [decide_eq_true_eq]
  refine ⟨by omega, ?_⟩
  rcases hlast with hlast | hlast <;> omega

theorem marchYear_cycles (z : Int) : ∃ e c q y d, Cycles c q y ∧
    marchYear z = (400 * e + 100 * c + 4 * q + y, d) ∧
    z + 719468 = 146097 * e + 36524 * c + 1461 * q + 365 * y + d ∧
    0 ≤ d ∧ d ≤ 365 ∧ (d = 365 → y = 3 ∧ (q < 24 ∨ c = 3)) := by
  refine ⟨_, _, _, _, _, ⟨?_, ?_, ?_⟩, rfl, ?_, ?_, ?_, ?_⟩
  all_goals omega

theorem marchYear_start (z : Int) : marchYearStart (marchYear z).1 + (marchYear z).2 = z := by
  obtain ⟨e, c, q, y, d, hcycles, heq, hz, -⟩ := marchYear_cycles z
  rw [heq, hcycles.start]
  omega

/-- The leap day is the last of a year before a leap year. -/
theorem marchYear_day (z : Int) : 0 ≤ (marchYear z).2 ∧ (marchYear z).2 ≤ 365 ∧
    ((marchYear z).2 = 365 → isLeap ((marchYear z).1 + 1) = true) := by
  obtain ⟨e, c, q, y, d, hcycles, heq, -, h0, h365, hlast⟩ := marchYear_cycles z
  rw [heq]
  refine ⟨h0, h365, fun hd => ?_⟩
  obtain ⟨hy, hcentury⟩ := hlast hd
  subst hy
  exact hcycles.leap hcentury

/-- The month, counted from March, of a day of such a year. -/
def marchMonth (d : Int) : Int := (5 * d + 2) / 153

/-- The month counted from January. -/
def monthFromMarch (m : Int) : Fin 12 := ⟨((m + 2) % 12).toNat, by omega⟩

theorem marchMonth_bounds {d : Int} (h0 : 0 ≤ d) (h1 : d ≤ 365) :
    0 ≤ marchMonth d ∧ marchMonth d < 12 := by
  unfold marchMonth
  omega

theorem marchMonth_day (d : Int) : 1 ≤ d - marchMonthStart (marchMonth d) + 1 := by
  unfold marchMonthStart marchMonth
  omega

theorem marchMonth_day_le {y d : Int} (h0 : 0 ≤ d) (h1 : d ≤ 365)
    (hleap : d = 365 → isLeap (y + 1) = true) :
    d - marchMonthStart (marchMonth d) + 1 ≤
      daysInMonth (if marchMonth d < 10 then y else y + 1) (monthFromMarch (marchMonth d)) := by
  obtain ⟨hm0, hm12⟩ := marchMonth_bounds h0 h1
  have hdef : marchMonth d = (5 * d + 2) / 153 := rfl
  generalize marchMonth d = m at hm0 hm12 hdef ⊢
  have hm : m = 0 ∨ m = 1 ∨ m = 2 ∨ m = 3 ∨ m = 4 ∨ m = 5 ∨ m = 6 ∨ m = 7 ∨ m = 8 ∨ m = 9 ∨
    m = 10 ∨ m = 11 := by omega
  rcases hm with rfl | rfl | rfl | rfl | rfl | rfl | rfl | rfl | rfl | rfl | rfl | rfl
  all_goals simp [monthFromMarch, marchMonthStart, daysInMonth]
  all_goals try omega
  split
  · omega
  · rename_i hcommon
    have hlast : d ≠ 365 := fun hd => hcommon (hleap hd)
    omega

/-- The date of a day. -/
def Date.ofDays (z : Int) : Date where
  year := if marchMonth (marchYear z).2 < 10 then (marchYear z).1 else (marchYear z).1 + 1
  month := monthFromMarch (marchMonth (marchYear z).2)
  day := (marchYear z).2 - marchMonthStart (marchMonth (marchYear z).2) + 1
  one_le_day := marchMonth_day _
  day_le := marchMonth_day_le (marchYear_day z).1 (marchYear_day z).2.1 (marchYear_day z).2.2

theorem monthStart_fromMarch (y : Int) {m : Int} (h0 : 0 ≤ m) (h12 : m < 12) :
    monthStart (if m < 10 then y else y + 1) (monthFromMarch m) =
      marchYearStart y + marchMonthStart m := by
  have hback : ((monthFromMarch m : Int) + 10) % 12 = m := by
    show ((((m + 2) % 12).toNat : Int) + 10) % 12 = m
    omega
  have hval : (monthFromMarch m).val = ((m + 2) % 12).toNat := rfl
  unfold monthStart
  rw [hback]
  by_cases hm : m < 10
  · rw [if_pos hm, if_neg (by omega)]
  · rw [if_neg hm, if_pos (by omega), Int.add_sub_cancel]

/-- **A day's date is that day.** -/
theorem Date.dayNumber_ofDays (z : Int) : (Date.ofDays z).dayNumber = z := by
  obtain ⟨h0, h365, -⟩ := marchYear_day z
  obtain ⟨hm0, hm12⟩ := marchMonth_bounds h0 h365
  have hz := marchYear_start z
  have hstart := monthStart_fromMarch (marchYear z).1 hm0 hm12
  have hday : (Date.ofDays z).dayNumber =
      monthStart _ _ + ((marchYear z).2 - marchMonthStart (marchMonth (marchYear z).2) + 1 - 1) := rfl
  rw [hday, show monthStart (Date.ofDays z).year (Date.ofDays z).month = _ from hstart]
  omega

example : (Date.ofDays 19782).year = 2024 ∧ (Date.ofDays 19782).month = 1 ∧
    (Date.ofDays 19782).day = 29 := by decide

end EmbeddedPlatform.Lib.Calendar
