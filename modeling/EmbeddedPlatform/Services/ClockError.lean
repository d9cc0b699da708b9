import Mathlib.Tactic.NormNum
import EmbeddedPlatform.Services.STM32NTPClient

/-! # How far the clock was off

The error is worked out in unsigned arithmetic, from the fields of two dates of
which the month and the year are not compared. So it is right for a clock that is
not behind, in the same month, and the rate follows from it while the polling
interval in ticks fits 32 bits. -/
namespace EmbeddedPlatform.Services
open EmbeddedPlatform.Lib.Calendar

/-! ## Times in ticks -/

theorem gmtime_seconds {t : Int} {c : tm} (h : gmtime_r t = some c) : c.seconds = t := by
  unfold gmtime_r at h
  dsimp only at h
  split at h
  · cases h
    unfold tm.seconds
    dsimp only
    rw [Date.dayNumber_ofDays]
    omega
  · cases h

theorem ticksOfFrac_val (frac : UInt32) : (ticksOfFrac frac).toNat = frac.toNat / 429500 := by
  have hval : (ticksOfFrac frac).toNat = frac.toNat / 4295 / 100 % 65536 := by
    unfold ticksOfFrac
    simp
  have hlt := frac.toNat_lt
  omega

theorem ticksOfFrac_lt (frac : UInt32) : (ticksOfFrac frac).toNat < 10000 := by
  have hlt := frac.toNat_lt
  rw [ticksOfFrac_val]
  omega

/-- A time in ticks. -/
def ticks (t : tm) (subsec : UInt16) : Int := 10000 * t.seconds + subsec.toNat

def SameMonth (t c : tm) : Prop := t.date.year = c.date.year ∧ t.date.month = c.date.month

theorem sameMonth_iff (t c : tm) : SameMonth t c ↔
    monthStart t.date.year t.date.month = monthStart c.date.year c.date.month := by
  constructor
  · rintro ⟨hy, hm⟩
    rw [hy, hm]
  · exact monthStart_injective

/-! ## What is worked out -/

/-- The seconds and the fraction before the borrow. -/
def rawSeconds (rtctime cracked : tm) : Int :=
  (rtctime.tm_sec.val - cracked.tm_sec.val) +
    (rtctime.tm_min.val - cracked.tm_min.val) * 60 +
    (rtctime.tm_hour.val - cracked.tm_hour.val) * 3600 +
    (rtctime.date.day - cracked.date.day) * 86400

/-- The fields miss the days between the beginnings of the two months. -/
theorem rawSeconds_eq (t c : tm) (tsub csub : UInt16) :
    10000 * rawSeconds t c + (tsub.toNat - csub.toNat : Int) = ticks t tsub - ticks c csub -
      864000000 * (monthStart t.date.year t.date.month - monthStart c.date.year c.date.month) := by
  unfold rawSeconds ticks tm.seconds Date.dayNumber
  omega

/-- What is worked out, when there is a result at all. -/
theorem clockError_eq {m_timeout : UInt32} {t c : tm} {tsub csub : UInt16} {r : ClockError}
    (ht : tsub.toNat < 10000) (hc : csub.toNat < 10000)
    (h : clockError m_timeout t tsub c csub = .ok r) :
    0 ≤ r.dfrac ∧ r.dfrac < 10000 ∧
      10000 * r.dsec + r.dfrac = 10000 * rawSeconds t c + (tsub.toNat - csub.toNat : Int) ∧
      r.error = (10000 * r.dsec + r.dfrac) % 4294967296 ∧
      r.ppbError = (1000000000 * r.error).tdiv (m_timeout * 10000).toNat := by
  unfold clockError at h
  dsimp only at h
  split at h
  · cases h
  · cases h
    by_cases hborrow : (tsub.toNat : Int) - csub.toNat < 0
    · simp only [if_pos hborrow]
      unfold rawSeconds
      refine ⟨by omega, by omega, by omega, ?_, trivial⟩
      rw [Int.mul_comm]
    · simp only [if_neg hborrow]
      unfold rawSeconds
      refine ⟨by omega, by omega, by omega, ?_, trivial⟩
      rw [Int.mul_comm]

theorem clockError_ok_iff {m_timeout : UInt32} {t c : tm} {tsub csub : UInt16} :
    (∃ r, clockError m_timeout t tsub c csub = .ok r) ↔ (m_timeout * 10000).toNat ≠ 0 := by
  unfold clockError
  dsimp only
  split
  · rename_i h
    exact ⟨fun ⟨r, hr⟩ => absurd hr (by simp), fun hne => absurd (by omega) hne⟩
  · rename_i h
    exact ⟨fun _ => by omega, fun _ => ⟨_, rfl⟩⟩

/-- What should be worked out for a clock that is `delta` ticks ahead. -/
structure Exact (r : ClockError) (delta : Int) (m_timeout : UInt32) : Prop where
  dfrac_nonneg : 0 ≤ r.dfrac
  dfrac_lt : r.dfrac < 10000
  delta_eq : 10000 * r.dsec + r.dfrac = delta
  error_eq : r.error = delta
  ppb_eq : r.ppbError = (1000000000 * delta).tdiv (10000 * m_timeout.toNat)
  ppb_nonneg : 0 ≤ delta → 0 ≤ r.ppbError
  ppb_nonpos : delta ≤ 0 → r.ppbError ≤ 0

/-- A quotient by what is left of a divisor in 32 bits is right only if it is 0. -/
theorem div_wrapped_iff {n p : Nat} (hp : 4294967296 ≤ p) (hw : 0 < p % 4294967296) :
    n / (p % 4294967296) = n / p ↔ n < p % 4294967296 := by
  have hlt : p % 4294967296 < 4294967296 := Nat.mod_lt _ (by decide)
  generalize hdef : p % 4294967296 = w at hw hlt ⊢
  have htwo : 2 * w ≤ p := by omega
  constructor
  · intro h
    by_contra hge
    have hq : 0 < n / w := Nat.div_pos (Nat.le_of_not_lt hge) hw
    have hsmall : n / p ≤ n / (2 * w) := Nat.div_le_div_left htwo (by omega)
    have hhalf : n / (2 * w) = n / w / 2 := by rw [Nat.mul_comm, Nat.div_div_eq_div_mul]
    omega
  · intro h
    rw [Nat.div_eq_of_lt h, Nat.div_eq_of_lt (by omega)]

theorem pollPeriod_toNat (m_timeout : UInt32) :
    (m_timeout * 10000).toNat = 10000 * m_timeout.toNat % 4294967296 := by
  rw [UInt32.toNat_mul, Nat.mul_comm]
  rfl

/-- The rate of an error that is not negative. -/
theorem ppb_iff {delta : Int} {m_timeout : UInt32} (h0 : 0 ≤ delta) (htimeout : 0 < m_timeout.toNat) :
    ((m_timeout * 10000).toNat ≠ 0 ∧ (1000000000 * delta).tdiv (m_timeout * 10000).toNat =
      (1000000000 * delta).tdiv (10000 * m_timeout.toNat)) ↔
    10000 * m_timeout.toNat < 4294967296 ∨
      1000000000 * delta < (10000 * m_timeout.toNat % 4294967296 : Nat) := by
  obtain ⟨n, rfl⟩ := Int.eq_ofNat_of_zero_le h0
  rw [pollPeriod_toNat]
  by_cases hp : 10000 * m_timeout.toNat < 4294967296
  · rw [Nat.mod_eq_of_lt hp]
    exact iff_of_true ⟨by omega, rfl⟩ (.inl hp)
  · have hquot : (1000000000 * (n : Int)).tdiv (10000 * m_timeout.toNat % 4294967296 : Nat) =
        (1000000000 * (n : Int)).tdiv (10000 * m_timeout.toNat) ↔
          1000000000 * n / (10000 * m_timeout.toNat % 4294967296) =
            1000000000 * n / (10000 * m_timeout.toNat) := by
      rw [Int.tdiv_eq_ediv_of_nonneg (by omega), Int.tdiv_eq_ediv_of_nonneg (by omega)]
      exact_mod_cast Iff.rfl
    rw [hquot]
    constructor
    · rintro ⟨hne, heq⟩
      have hlt := (div_wrapped_iff (Nat.le_of_not_lt hp) (Nat.pos_of_ne_zero hne)).mp heq
      exact .inr (by exact_mod_cast hlt)
    · rintro (hlt | hlt)
      · exact absurd hlt hp
      · have hlt' : 1000000000 * n < 10000 * m_timeout.toNat % 4294967296 := by exact_mod_cast hlt
        have hpos : 0 < 10000 * m_timeout.toNat % 4294967296 := Nat.zero_lt_of_lt hlt'
        exact ⟨Nat.ne_of_gt hpos, (div_wrapped_iff (Nat.le_of_not_lt hp) hpos).mpr hlt'⟩

/-- The rate has the sign of the error. -/
theorem ppb_sign (delta : Int) (p : Nat) :
    (0 ≤ delta → 0 ≤ (1000000000 * delta).tdiv p) ∧ (delta ≤ 0 → (1000000000 * delta).tdiv p ≤ 0) := by
  constructor
  · intro h
    exact Int.tdiv_nonneg (by omega) (Int.natCast_nonneg p)
  · intro h
    have hneg : 0 ≤ (-(1000000000 * delta)).tdiv p :=
      Int.tdiv_nonneg (by omega) (Int.natCast_nonneg p)
    rw [Int.neg_tdiv] at hneg
    omega

/-- What is worked out is right exactly when the two times are in one month, the
clock is not behind, and the wrapped polling interval does not show. -/
theorem clockError_exact_iff {m_timeout : UInt32} {t c : tm} {tsub csub : UInt16}
    (ht : tsub.toNat < 10000) (hc : csub.toNat < 10000) (htimeout : 0 < m_timeout.toNat)
    (hclose : ticks t tsub - ticks c csub < 1728000000) :
    (∃ r, clockError m_timeout t tsub c csub = .ok r ∧ Exact r (ticks t tsub - ticks c csub) m_timeout) ↔
      SameMonth t c ∧ 0 ≤ ticks t tsub - ticks c csub ∧
        (10000 * m_timeout.toNat < 4294967296 ∨
          1000000000 * (ticks t tsub - ticks c csub) <
            (10000 * m_timeout.toNat % 4294967296 : Nat)) := by
  have hraw := rawSeconds_eq t c tsub csub
  constructor
  · rintro ⟨r, hok, hexact⟩
    obtain ⟨-, -, hdelta, herror, hppb⟩ := clockError_eq ht hc hok
    have hmonth : SameMonth t c := by
      rw [sameMonth_iff]
      have := hexact.delta_eq
      omega
    have h0 : 0 ≤ ticks t tsub - ticks c csub := by
      rw [← hexact.error_eq, herror]
      exact Int.emod_nonneg _ (by decide)
    refine ⟨hmonth, h0, (ppb_iff h0 htimeout).mp ⟨clockError_ok_iff.mp ⟨r, hok⟩, ?_⟩⟩
    rw [← hexact.ppb_eq, hppb, hexact.error_eq]
  · rintro ⟨hmonth, h0, hperiod⟩
    obtain ⟨hne, hquot⟩ := (ppb_iff h0 htimeout).mpr hperiod
    obtain ⟨r, hok⟩ : ∃ r, clockError m_timeout t tsub c csub = .ok r := clockError_ok_iff.mpr hne
    obtain ⟨hd0, hd1, hdelta, herror, hppb⟩ := clockError_eq ht hc hok
    rw [sameMonth_iff] at hmonth
    have hdelta' : 10000 * r.dsec + r.dfrac = ticks t tsub - ticks c csub := by omega
    have herror' : r.error = ticks t tsub - ticks c csub := by
      rw [herror, hdelta']
      exact Int.emod_eq_of_lt h0 (by omega)
    have hppb' : r.ppbError = (1000000000 * (ticks t tsub - ticks c csub)).tdiv
        (10000 * m_timeout.toNat) := by
      rw [hppb, herror', hquot]
    have hsign := ppb_sign (ticks t tsub - ticks c csub) (10000 * m_timeout.toNat)
    refine ⟨r, hok, hd0, hd1, hdelta', herror', hppb', ?_, ?_⟩
    · rw [hppb']
      exact hsign.1
    · rw [hppb']
      exact hsign.2

/-! ## A call -/

/-- How far the clock is ahead of the new time. -/
def STM32NTPClient.clockDelta (c : STM32NTPClient) (sec : Int) (frac : UInt32) (rtctime : tm)
    (rtcsubsec : UInt16) : Int :=
  ticks rtctime rtcsubsec - (10000 * (sec + c.m_utcOffset) + (ticksOfFrac frac).toNat)

theorem clockDelta_eq {c : STM32NTPClient} {sec : Int} {cracked : tm}
    (h : gmtime_r (sec + c.m_utcOffset) = some cracked) (frac : UInt32) (rtctime : tm)
    (rtcsubsec : UInt16) : c.clockDelta sec frac rtctime rtcsubsec =
      ticks rtctime rtcsubsec - ticks cracked (ticksOfFrac frac) := by
  unfold STM32NTPClient.clockDelta
  rw [ticks.eq_def cracked, gmtime_seconds h]

/-- A call reports what `clockError` works out, and sets the new time. -/
theorem onTimeUpdated_ok_iff {c : STM32NTPClient} {sec : Int} {cracked : tm}
    (h : gmtime_r (sec + c.m_utcOffset) = some cracked) (frac : UInt32) (rtctime : tm)
    (rtcsubsec : UInt16) (P : ClockError → Prop) :
    (∃ c' u, c.OnTimeUpdated sec frac rtctime rtcsubsec = .ok (c', some u) ∧ P u.clock) ↔
      ∃ r, clockError c.m_timeout rtctime rtcsubsec cracked (ticksOfFrac frac) = .ok r ∧ P r := by
  unfold STM32NTPClient.OnTimeUpdated
  simp only [h]
  cases clockError c.m_timeout rtctime rtcsubsec cracked (ticksOfFrac frac) with
  | error e => simp
  | ok r =>
    constructor
    · rintro ⟨c', u, heq, hP⟩
      cases heq
      exact ⟨r, rfl, hP⟩
    · rintro ⟨r', heq, hP⟩
      cases heq
      exact ⟨_, _, rfl, hP⟩

/-- **Where the reported error is right**: in one month, for a clock that is not
behind, while the wrapped polling interval does not show. -/
theorem onTimeUpdated_exact_iff (c : STM32NTPClient) (sec : Int) (frac : UInt32) (rtctime : tm)
    (rtcsubsec : UInt16) (cracked : tm) (hnew : gmtime_r (sec + c.m_utcOffset) = some cracked)
    (hsubsec : rtcsubsec.toNat < 10000) (htimeout : 0 < c.m_timeout.toNat)
    (hclose : |c.clockDelta sec frac rtctime rtcsubsec| < 2 * 864000000) :
    (∃ c' u, c.OnTimeUpdated sec frac rtctime rtcsubsec = .ok (c', some u) ∧
        Exact u.clock (c.clockDelta sec frac rtctime rtcsubsec) c.m_timeout) ↔
      SameMonth rtctime cracked ∧ 0 ≤ c.clockDelta sec frac rtctime rtcsubsec ∧
        (10000 * c.m_timeout.toNat < 4294967296 ∨
          1000000000 * c.clockDelta sec frac rtctime rtcsubsec <
            (10000 * c.m_timeout.toNat % 4294967296 : Nat)) := by
  rw [onTimeUpdated_ok_iff hnew frac rtctime rtcsubsec
    (fun r => Exact r (c.clockDelta sec frac rtctime rtcsubsec) c.m_timeout)]
  have hahead : c.clockDelta sec frac rtctime rtcsubsec < 1728000000 := (abs_lt.mp hclose).2
  rw [clockDelta_eq hnew] at hahead ⊢
  exact clockError_exact_iff hsubsec (ticksOfFrac_lt frac) htimeout hahead

/-- An hour between two polls, and no offset. -/
def hourlyClient : STM32NTPClient := ⟨true, none, 0, 0, 3600⟩

/-- A time on 29 February 2024. -/
def leapDay (tm_hour : Fin 24) (tm_min tm_sec : Fin 60) : tm :=
  ⟨Date.ofDays 19782, tm_hour, tm_min, tm_sec⟩

theorem onTimeUpdated_exact_noon :
    ∃ c' u, hourlyClient.OnTimeUpdated 1709208000 0 (leapDay 12 0 1) 25 = .ok (c', some u) ∧
      Exact u.clock 10025 hourlyClient.m_timeout := by
  have hdelta : hourlyClient.clockDelta 1709208000 0 (leapDay 12 0 1) 25 = 10025 := by decide
  have hnoon : gmtime_r (1709208000 + hourlyClient.m_utcOffset) = some (leapDay 12 0 0) := rfl
  rw [← hdelta]
  refine (onTimeUpdated_exact_iff hourlyClient 1709208000 0 (leapDay 12 0 1) 25 (leapDay 12 0 0)
    hnoon (by decide) (by decide) ?_).mpr ⟨⟨rfl, rfl⟩, ?_, .inl (by decide)⟩
  · rw [hdelta]
    decide
  · rw [hdelta]
    decide

/-- A clock that is one tick behind, on the same day. -/
theorem onTimeUpdated_behind :
    gmtime_r 1709208000 = some (leapDay 12 0 0) ∧
      hourlyClient.clockDelta 1709208000 0 (leapDay 11 59 59) 9999 = -1 ∧
      ∃ c' u, hourlyClient.OnTimeUpdated 1709208000 0 (leapDay 11 59 59) 9999 = .ok (c', some u) ∧
        u.clock = ⟨-1, 9999, 4294967295, 119304647083⟩ ∧ ¬ Exact u.clock (-1) 3600 := by
  refine ⟨rfl, by decide, _, _, rfl, rfl, fun h => ?_⟩
  have herror : (4294967295 : Int) = -1 := h.error_eq
  cases herror

end EmbeddedPlatform.Services
