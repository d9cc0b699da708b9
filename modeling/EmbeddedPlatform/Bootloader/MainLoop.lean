import EmbeddedPlatform.Bootloader.Bootloader
import EmbeddedPlatform.Lib.Run

/-! # The bootloader's decision

`Bootloader_MainLoop` looks at the reason of the last reset and either boots the
application or enters the firmware update flow, neither of which returns. The
update flow is a hook of the board; what it and the application do to the
partition, the key-value store and the backup RAM before the next reset is not
restricted. -/
namespace EmbeddedPlatform.Bootloader
open EmbeddedPlatform.Lib

/-- What `m_state` reads as. Backup RAM need not hold any of the four values. -/
inductive BootloaderState where
  | STATE_POR
  | STATE_APP
  | STATE_DFU
  | STATE_CRASH
  | unknown
deriving DecidableEq

/-- The calls the main loop ends in. -/
inductive Next where
  | BootApplication
  | Bootloader_FirmwareUpdateFlow
deriving DecidableEq

/-- What is left when the main loop hands over; `none` when power was lost. -/
structure Handover where
  m_state : BootloaderState
  g_kvs : Kvs
  next : Option Next

/-- `BootApplication` notes that the application was launched. -/
def BootApplication (kvs : Kvs) : Handover := ⟨.STATE_APP, kvs, some .BootApplication⟩

def Bootloader_FirmwareUpdateFlow (m_state : BootloaderState) (kvs : Kvs) : Handover :=
  ⟨m_state, kvs, some .Bootloader_FirmwareUpdateFlow⟩

/-- The branches on the result of `ValidateAppPartition`. -/
def bootIfValid (m_state : BootloaderState) : Kvs × Option Bool → Handover
  | (kvs, some true) => BootApplication kvs
  | (kvs, some false) => Bootloader_FirmwareUpdateFlow m_state kvs
  | (kvs, none) => ⟨m_state, kvs, none⟩

variable (P : Platform)

def Bootloader_MainLoop (f : Faults) (m_state : BootloaderState) (kvs : Kvs)
    (appVector : Partition) : Handover :=
  match m_state with
  | .STATE_DFU => Bootloader_FirmwareUpdateFlow m_state kvs
  | .STATE_CRASH =>
    -- a crashed image is only tried again if it is not the one on record
    if IsAppUpdated P kvs appVector then bootIfValid m_state (ValidateAppPartition P f kvs appVector)
    else Bootloader_FirmwareUpdateFlow m_state kvs
  | _ => bootIfValid m_state (ValidateAppPartition P f kvs appVector)

/-! ## A device over several resets -/

structure Device where
  g_kvs : Kvs
  appVector : Partition

/-- A reset, with what backup RAM reads as and the faults the boot meets, or
anything that rewrites partition and store in between. -/
inductive Event where
  | reset (m_state : BootloaderState) (f : Faults)
  | rewritten (d : Device)

/-- One pass through the bootloader. -/
structure Boot where
  m_state : BootloaderState
  before : Device
  after : Device
  next : Option Next

/-- A run logs its boots. -/
def step (d : Device) : Event → Except Empty (Device × List Boot)
  | .reset m_state f =>
    let h := Bootloader_MainLoop P f m_state d.g_kvs d.appVector
    .ok ({ d with g_kvs := h.g_kvs }, [⟨m_state, d, { d with g_kvs := h.g_kvs }, h.next⟩])
  | .rewritten d => .ok (d, [])

/-! ## When the application is booted -/

variable {P : Platform} {f : Faults} {m_state : BootloaderState} {kvs : Kvs} {appVector : Partition}

theorem bootIfValid_boots_iff {r : Kvs × Option Bool} :
    (bootIfValid m_state r).next = some .BootApplication ↔ r.2 = some true := by
  rcases r with ⟨kvs, _ | _ | _⟩
  · exact ⟨fun h => (nomatch h), fun h => (nomatch h)⟩
  · exact ⟨fun h => (nomatch h), fun h => (nomatch h)⟩
  · exact ⟨fun _ => rfl, fun _ => rfl⟩

theorem bootIfValid_kvs (m_state : BootloaderState) (r : Kvs × Option Bool) :
    (bootIfValid m_state r).g_kvs = r.1 := by
  rcases r with ⟨kvs, _ | _ | _⟩ <;> rfl

/-- The application is booted if it is valid, no update was asked for and it is
not the image that crashed. -/
theorem mainLoop_boots_iff :
    (Bootloader_MainLoop P f m_state kvs appVector).next = some .BootApplication ↔
      m_state ≠ .STATE_DFU ∧ (m_state = .STATE_CRASH → IsAppUpdated P kvs appVector = true) ∧
        (ValidateAppPartition P f kvs appVector).2 = some true := by
  cases m_state with
  | STATE_DFU => exact ⟨fun h => (nomatch h), fun h => absurd rfl h.1⟩
  | STATE_CRASH =>
    show (ite _ _ _ : Handover).next = _ ↔ _
    by_cases hupd : IsAppUpdated P kvs appVector = true
    · rw [if_pos hupd, bootIfValid_boots_iff]
      exact ⟨fun h => ⟨nofun, fun _ => hupd, h⟩, fun h => h.2.2⟩
    · rw [if_neg hupd]
      exact ⟨fun h => (nomatch h), fun h => absurd (h.2.1 rfl) hupd⟩
  | STATE_POR => exact bootIfValid_boots_iff.trans ⟨fun h => ⟨nofun, nofun, h⟩, fun h => h.2.2⟩
  | STATE_APP => exact bootIfValid_boots_iff.trans ⟨fun h => ⟨nofun, nofun, h⟩, fun h => h.2.2⟩
  | unknown => exact bootIfValid_boots_iff.trans ⟨fun h => ⟨nofun, nofun, h⟩, fun h => h.2.2⟩

/-- A boot leaves the store as the validation left it. -/
theorem mainLoop_kvs_of_boots
    (h : (Bootloader_MainLoop P f m_state kvs appVector).next = some .BootApplication) :
    (Bootloader_MainLoop P f m_state kvs appVector).g_kvs =
      (ValidateAppPartition P f kvs appVector).1 := by
  obtain ⟨hdfu, hcrash, -⟩ := mainLoop_boots_iff.mp h
  cases m_state with
  | STATE_DFU => exact absurd rfl hdfu
  | STATE_CRASH =>
    show (ite _ _ _ : Handover).g_kvs = _
    rw [if_pos (hcrash rfl)]
    exact bootIfValid_kvs ..
  | STATE_POR => exact bootIfValid_kvs ..
  | STATE_APP => exact bootIfValid_kvs ..
  | unknown => exact bootIfValid_kvs ..

end EmbeddedPlatform.Bootloader
