import EmbeddedPlatform.Lib.Calendar

/-! # The NTP client of the STM32 platform

`OnTimeUpdated` sets the real-time clock and reports by how much it was off. The
clock counts tenths of a millisecond. `m_timeout` is inherited from the network
stack, where it has 32 bits. -/
namespace EmbeddedPlatform.Services
open EmbeddedPlatform.Lib.Calendar

/-- A date with a time of day. -/
structure tm where
  date : Date
  tm_hour : Fin 24
  tm_min : Fin 60
  tm_sec : Fin 60

/-- Seconds since the beginning of 1970. -/
def tm.seconds (t : tm) : Int :=
  86400 * t.date.dayNumber + 3600 * t.tm_hour.val + 60 * t.tm_min.val + t.tm_sec.val

/-- The year is counted from 1900 in an `int`; there is no result if it does not fit. -/
def gmtime_r (t : Int) : Option tm :=
  let date := Date.ofDays (t / 86400)
  if -2147483648 ≤ date.year - 1900 ∧ date.year - 1900 < 2147483648 then
    some
      { date := date
        tm_hour := ⟨(t % 86400 / 3600).toNat, by omega⟩
        tm_min := ⟨(t % 3600 / 60).toNat, by omega⟩
        tm_sec := ⟨(t % 60).toNat, by omega⟩ }
  else none

/-- What the log prints. -/
inductive NTPLog where
  | resync (dsec dfrac : Int) (m_timeout : UInt32) (ppm ppb : Int)
  | initial (step dfrac : Int)
deriving DecidableEq

/-- What `OnTimeUpdated` works out. -/
structure ClockError where
  dsec : Int
  dfrac : Int
  error : Int
  ppbError : Int
deriving DecidableEq

/-- What it does: the time set, the error and the line in the log. -/
structure TimeUpdate where
  cracked : tm
  subsec : UInt16
  clock : ClockError
  log : NTPLog

structure STM32NTPClient where
  m_initialSyncDone : Bool
  m_lastSync : Option tm
  m_lastSyncFrac : UInt16
  m_utcOffset : Int
  m_timeout : UInt32

inductive NTPFault where
  | divideByZero
deriving DecidableEq

/-- Conversion to `int32_t`. -/
def toInt32 (x : Int) : Int := x.bmod 4294967296

/-- The fraction of a second in ticks of the clock. -/
def ticksOfFrac (frac : UInt32) : UInt16 :=
  let microseconds := frac / 4295
  (microseconds / 100).toUInt16

/-- The middle of `OnTimeUpdated`. `dsec` and `dfrac` are far from the limits of an
`int32_t`. -/
def clockError (m_timeout : UInt32) (rtctime : tm) (rtcsubsec : UInt16) (cracked : tm)
    (subsec : UInt16) : Except NTPFault ClockError :=
  let dfrac : Int := rtcsubsec.toNat - subsec.toNat
  let dsec : Int :=
    (rtctime.tm_sec.val - cracked.tm_sec.val) +
    (rtctime.tm_min.val - cracked.tm_min.val) * 60 +
    (rtctime.tm_hour.val - cracked.tm_hour.val) * 3600 +
    (rtctime.date.day - cracked.date.day) * 86400
  let (dsec, dfrac) := if dfrac < 0 then (dsec - 1, dfrac + 10000) else (dsec, dfrac)
  -- rtcTicksPerSec is unsigned, and so are the product and the sum with it
  let pollPeriodTicks : Int := (m_timeout * 10000).toNat
  let error : Int := (dsec * 10000 + dfrac) % 4294967296
  if pollPeriodTicks = 0 then .error .divideByZero
  else .ok ⟨dsec, dfrac, error, (1000000000 * error).tdiv pollPeriodTicks⟩

/-- `rtctime` and `rtcsubsec` are what the clock says. -/
def STM32NTPClient.OnTimeUpdated (c : STM32NTPClient) (sec : Int) (frac : UInt32) (rtctime : tm)
    (rtcsubsec : UInt16) : Except NTPFault (STM32NTPClient × Option TimeUpdate) :=
  match gmtime_r (sec + c.m_utcOffset) with
  | none => .ok (c, none)
  | some cracked =>
    let subsec := ticksOfFrac frac
    match clockError c.m_timeout rtctime rtcsubsec cracked subsec with
    | .error e => .error e
    | .ok r =>
      let ppm := toInt32 (r.ppbError.tdiv 1000)
      let ppb := toInt32 (r.ppbError.tmod 1000)
      let log :=
        if c.m_initialSyncDone then .resync r.dsec r.dfrac c.m_timeout ppm ppb
        else .initial (-r.dsec) r.dfrac
      .ok ({ c with m_initialSyncDone := true, m_lastSync := some cracked, m_lastSyncFrac := subsec },
        some ⟨cracked, subsec, r, log⟩)

end EmbeddedPlatform.Services
