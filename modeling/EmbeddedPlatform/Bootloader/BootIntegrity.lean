import EmbeddedPlatform.Bootloader.CrashConsistency
import EmbeddedPlatform.Bootloader.MainLoop

/-! # What is true of an application that is booted

Both ways of accepting a partition, comparing it with the records and writing
them anew, end with records that name it. So a second look accepts it without a
store, and a reset with the crash state does not try it again. The one gap: the
length of the CRC record is not looked at, only its first word. -/
namespace EmbeddedPlatform.Bootloader
open EmbeddedPlatform.Lib

variable {P : Platform} {kvs : Kvs} {appVector : Partition} {f : Faults} {m_state : BootloaderState}

/-! ## How a partition is accepted -/

/-- Both stores of the pass succeed. -/
structure Faults.StoresSucceed (f : Faults) : Prop where
  version : f.version = .stored
  crc : f.crc = .stored

/-- The store after both records were written. -/
def recorded (P : Platform) (kvs : Kvs) (appVector : Partition) : Kvs :=
  (kvs.store g_imageVersionKey (FormatBuildID (firmwareVer P appVector))).store g_imageCRCKey
    (wordBytes (imageCRC P appVector))

/-- Accepted because the partition compares equal to the records. -/
def ComparesEqual (P : Platform) (kvs : Kvs) (appVector : Partition) : Prop :=
  IsAppUpdated P kvs appVector = false ∧ RecordedCRC kvs (imageCRC P appVector)

theorem validate_accepts (hf : f.StoresSucceed)
    (h : (ValidateAppPartition P f kvs appVector).2 = some true) :
    (readWord appVector ≠ 0xffffffff ∧ f.ecc = false) ∧
      ((ValidateAppPartition P f kvs appVector).1 = recorded P kvs appVector ∧
          ¬ ComparesEqual P kvs appVector ∨
        (ValidateAppPartition P f kvs appVector).1 = kvs ∧ ComparesEqual P kvs appVector) := by
  unfold ValidateAppPartition at h ⊢
  by_cases hblank : readWord appVector = 0xffffffff
  · rw [if_pos hblank] at h
    cases h
  rw [if_neg hblank] at h ⊢
  cases hecc : f.ecc with
  | true => rw [hecc] at h; cases h
  | false =>
    rw [hecc] at h
    refine ⟨⟨hblank, rfl⟩, ?_⟩
    have hwrite : (updateRecords P f kvs appVector).1 = recorded P kvs appVector := by
      rw [updateRecords_kvs, hf.version, hf.crc]
      rfl
    rcases hupd : IsAppUpdated P kvs appVector with _ | _
    · rw [hupd] at h
      rcases ho : kvs.FindObject g_imageCRCKey with _ | o
      · refine .inl ⟨hwrite, fun heq => ?_⟩
        obtain ⟨-, o, ho', -⟩ := heq
        rw [ho] at ho'
        cases ho'
      · rw [ho] at h
        refine .inr ⟨rfl, hupd, o, ho, ?_⟩
        have hcrc : imageCRC P appVector == readWord o.ptr := Option.some.inj h
        exact (beq_iff_eq.mp hcrc).symm
    · refine .inl ⟨hwrite, fun heq => ?_⟩
      have := heq.1
      rw [hupd] at this
      cases this

/-- A partition that compares equal is accepted, and neither store is tried:
whatever would become of them, the result is the same. -/
theorem validate_of_comparesEqual (hblank : readWord appVector ≠ 0xffffffff) (hecc : f.ecc = false)
    (h : ComparesEqual P kvs appVector) :
    ValidateAppPartition P f kvs appVector = (kvs, some true) := by
  obtain ⟨hupd, o, ho, hcrc⟩ := h
  unfold ValidateAppPartition
  simp [hblank, hecc, hupd, ho, hcrc]

theorem findObject_recorded (P : Platform) (kvs : Kvs) (appVector : Partition) :
    (recorded P kvs appVector).FindObject g_imageCRCKey =
      some (.ofBytes (wordBytes (imageCRC P appVector))) := by
  unfold recorded
  exact Kvs.store_self ..

theorem recorded_version (P : Platform) (kvs : Kvs) (appVector : Partition) :
    RecordedVersion (recorded P kvs appVector) (FormatBuildID (firmwareVer P appVector)) :=
  recordedVersion_store_crc.mpr (recordedVersion_store kvs _)

theorem not_updated_of_recordedVersion
    (h : RecordedVersion kvs (FormatBuildID (firmwareVer P appVector))) :
    IsAppUpdated P kvs appVector = false := by
  rcases hid : validVersion P appVector with _ | _
  · simp [IsAppUpdated, hid]
  · rw [← Bool.not_eq_true, isAppUpdated_iff hid]
    exact fun hnew => hnew h

theorem recordedVersion_of_not_updated (hid : validVersion P appVector = true)
    (h : IsAppUpdated P kvs appVector = false) :
    RecordedVersion kvs (FormatBuildID (firmwareVer P appVector)) := by
  by_contra hnew
  rw [(isAppUpdated_iff hid).mpr hnew] at h
  cases h

/-- The records of a partition make it compare equal. -/
theorem recorded_comparesEqual (P : Platform) (kvs : Kvs) (appVector : Partition) :
    ComparesEqual P (recorded P kvs appVector) appVector :=
  ⟨not_updated_of_recordedVersion (recorded_version P kvs appVector),
    _, findObject_recorded .., readWord_wordBytes _⟩

/-- However a partition was accepted, it compares equal afterwards. -/
theorem comparesEqual_of_accepted (hf : f.StoresSucceed)
    (h : (ValidateAppPartition P f kvs appVector).2 = some true) :
    ComparesEqual P (ValidateAppPartition P f kvs appVector).1 appVector := by
  rcases (validate_accepts hf h).2 with ⟨he, -⟩ | ⟨he, heq⟩
  · rw [he]
    exact recorded_comparesEqual P kvs appVector
  · rw [he]
    exact heq

/-! ## Integrity -/

/-- The CRC record is the given word, and no longer or shorter than it. -/
def CRCOnRecord (kvs : Kvs) (w : UInt32) : Prop :=
  ∃ o, kvs.FindObject g_imageCRCKey = some o ∧ o.m_len = 4 ∧ readWord o.ptr = w

/-- There is a CRC record of some other length whose first word is the given
one. -/
def ForeignCRC (kvs : Kvs) (w : UInt32) : Prop :=
  ∃ o, kvs.FindObject g_imageCRCKey = some o ∧ o.m_len ≠ 4 ∧ readWord o.ptr = w

/-- What is true when the application is booted, `kvs` being the store then. -/
structure Intact (P : Platform) (f : Faults) (m_state : BootloaderState) (kvs : Kvs)
    (appVector : Partition) : Prop where
  not_blank : readWord appVector ≠ 0xffffffff
  no_ecc : f.ecc = false
  no_dfu : m_state ≠ .STATE_DFU
  crc : CRCOnRecord kvs (imageCRC P appVector)
  version : validVersion P appVector = true →
    RecordedVersion kvs (FormatBuildID (firmwareVer P appVector))
  -- whatever would become of a store: none is made
  again : ∀ f' : Faults, f'.ecc = false →
    ValidateAppPartition P f' kvs appVector = (kvs, some true)

/-- An application that is booted is intact. -/
def BootIntegrity (P : Platform) (f : Faults) (m_state : BootloaderState) (kvs : Kvs)
    (appVector : Partition) : Prop :=
  (Bootloader_MainLoop P f m_state kvs appVector).next = some .BootApplication →
    Intact P f m_state (Bootloader_MainLoop P f m_state kvs appVector).g_kvs appVector

theorem ForeignCRC.not_onRecord {w : UInt32} (h : ForeignCRC kvs w) : ¬ CRCOnRecord kvs w := by
  intro hrec
  obtain ⟨o, ho, hlen, -⟩ := h
  obtain ⟨o', ho', hlen', -⟩ := hrec
  rw [ho] at ho'
  cases ho'
  exact hlen hlen'

theorem RecordedCRC.cases {w : UInt32} (h : RecordedCRC kvs w) : CRCOnRecord kvs w ∨ ForeignCRC kvs w := by
  obtain ⟨o, ho, hw⟩ := h
  by_cases hlen : o.m_len = 4
  · exact .inl ⟨o, ho, hlen, hw⟩
  · exact .inr ⟨o, ho, hlen, hw⟩

theorem recorded_crc (P : Platform) (kvs : Kvs) (appVector : Partition) :
    CRCOnRecord (recorded P kvs appVector) (imageCRC P appVector) :=
  ⟨_, findObject_recorded .., rfl, readWord_wordBytes _⟩

/-- The boot would rest on a comparison with a CRC record of the wrong length. -/
structure TrustsForeignCRC (P : Platform) (f : Faults) (m_state : BootloaderState) (kvs : Kvs)
    (appVector : Partition) : Prop where
  tried : m_state ≠ .STATE_DFU ∧ m_state ≠ .STATE_CRASH
  not_blank : readWord appVector ≠ 0xffffffff
  no_ecc : f.ecc = false
  not_updated : IsAppUpdated P kvs appVector = false
  foreign : ForeignCRC kvs (imageCRC P appVector)

/-- **Boot integrity.** With stores succeeding, an application that is booted is
intact, for every state, store and partition but those where a CRC record of the
wrong length is compared and its first word matches. -/
theorem bootIntegrity_iff (P : Platform) (f : Faults) (hf : f.StoresSucceed)
    (m_state : BootloaderState) (kvs : Kvs) (appVector : Partition) :
    BootIntegrity P f m_state kvs appVector ↔
      ¬ TrustsForeignCRC P f m_state kvs appVector := by
  constructor
  · intro hint htrust
    obtain ⟨⟨hdfu, hcrash⟩, hblank, hecc, hupd, hforeign⟩ := htrust
    have heq : ComparesEqual P kvs appVector := by
      obtain ⟨o, ho, -, hw⟩ := hforeign
      exact ⟨hupd, o, ho, hw⟩
    have hval := validate_of_comparesEqual hblank hecc heq
    have hboots : (Bootloader_MainLoop P f m_state kvs appVector).next = some .BootApplication :=
      mainLoop_boots_iff.mpr ⟨hdfu, fun h => absurd h hcrash, by rw [hval]⟩
    have hcrc := (hint hboots).crc
    rw [mainLoop_kvs_of_boots hboots, hval] at hcrc
    exact hforeign.not_onRecord hcrc
  · intro hno hboots
    obtain ⟨hdfu, hcrash, hval⟩ := mainLoop_boots_iff.mp hboots
    obtain ⟨⟨hblank, hecc⟩, hpath⟩ := validate_accepts hf hval
    have heq := comparesEqual_of_accepted hf hval
    rw [mainLoop_kvs_of_boots hboots]
    refine ⟨hblank, hecc, hdfu, ?_, fun hid => recordedVersion_of_not_updated hid heq.1,
      fun f' hecc' => validate_of_comparesEqual hblank hecc' heq⟩
    rcases hpath with ⟨hkvs, -⟩ | ⟨hkvs, hsame⟩
    · rw [hkvs]
      exact recorded_crc P kvs appVector
    · rw [hkvs]
      rcases hsame.2.cases with hrec | hforeign
      · exact hrec
      · have hnotcrash : m_state ≠ .STATE_CRASH := by
          intro hc
          have := hcrash hc
          rw [hsame.1] at this
          cases this
        exact absurd ⟨⟨hdfu, hnotcrash⟩, hblank, hecc, hsame.1, hforeign⟩ hno

/-- The records of an image, its CRC record deleted, with the CRC in the flash
behind it. -/
def deletedCRC (P : Platform) (appVector : Partition) : Kvs :=
  Function.update (recorded P .empty appVector) g_imageCRCKey
    (some ⟨0, (KvsObject.ofBytes (wordBytes (imageCRC P appVector))).ptr⟩)

theorem noFaults_storesSucceed : noFaults.StoresSucceed := ⟨rfl, rfl⟩

/-- A first boot of an image, power cycled. -/
theorem bootIntegrity_first : BootIntegrity samplePlatform noFaults .STATE_POR .empty (sampleImage 0x11) :=
  (bootIntegrity_iff samplePlatform noFaults noFaults_storesSucceed .STATE_POR .empty
    (sampleImage 0x11)).mpr fun h => by
      obtain ⟨o, ho, -⟩ := h.foreign
      cases ho

/-- The image is booted on a CRC record of no bytes. -/
theorem deletedCRC_boots :
    ¬ BootIntegrity samplePlatform noFaults .STATE_POR (deletedCRC samplePlatform (sampleImage 0x11))
      (sampleImage 0x11) := by
  intro h
  have hboots : (Bootloader_MainLoop samplePlatform noFaults .STATE_POR
      (deletedCRC samplePlatform (sampleImage 0x11)) (sampleImage 0x11)).next =
        some .BootApplication := by decide +kernel
  have hkvs : ((Bootloader_MainLoop samplePlatform noFaults .STATE_POR
      (deletedCRC samplePlatform (sampleImage 0x11)) (sampleImage 0x11)).g_kvs.FindObject
        g_imageCRCKey).map KvsObject.m_len = some 0 := by decide +kernel
  obtain ⟨o, ho, hlen, -⟩ := (h hboots).crc
  rw [ho, Option.map_some, hlen] at hkvs
  cases hkvs

/-! ## No boot loop -/

/-- The stores of a boot take effect. -/
def Event.StoresSucceed : Event → Prop
  | .reset _ f => f.StoresSucceed
  | .rewritten _ => True

/-- The boot went as the main loop does when the stores take effect. -/
structure Boot.Genuine (P : Platform) (b : Boot) : Prop where
  same_flash : b.after.appVector = b.before.appVector
  of_mainLoop : ∃ f : Faults, f.StoresSucceed ∧
    b.after.g_kvs = (Bootloader_MainLoop P f b.m_state b.before.g_kvs b.before.appVector).g_kvs ∧
    b.next = (Bootloader_MainLoop P f b.m_state b.before.g_kvs b.before.appVector).next

theorem step_genuine {d d' : Device} {e : Event} {boots : List Boot} (he : e.StoresSucceed)
    (hs : step P d e = .ok (d', boots)) : ∀ b ∈ boots, b.Genuine P := by
  intro b hb
  cases e with
  | reset m_state f =>
    obtain ⟨-, rfl⟩ := ok_eq hs
    rw [List.mem_singleton.mp hb]
    exact ⟨rfl, f, he, rfl, rfl⟩
  | rewritten d =>
    obtain ⟨-, rfl⟩ := ok_eq hs
    cases hb

theorem run_genuine {d d' : Device} {events : List Event} {log : List Boot}
    (hstores : ∀ e ∈ events, e.StoresSucceed) (hr : run (step P) d events = .ok (d', log)) :
    ∀ b ∈ log, b.Genuine P := by
  have hall : AllSteps (step P) (fun _ e => e.StoresSucceed) d events := allSteps_of_forall hstores
  have := run_rule (J := fun _ log _ => ∀ b ∈ log, b.Genuine P) (l := []) (b := [])
    (fun s log es e t boots hlog he ht b hb => by
      rcases List.mem_append.mp hb with hb | hb
      · exact hlog b hb
      · exact step_genuine he ht b hb)
    (fun b hb => (nomatch hb)) hall hr
  simpa using this

theorem Boot.Genuine.comparesEqual {b : Boot} (h : b.Genuine P)
    (hboots : b.next = some .BootApplication) :
    ComparesEqual P b.after.g_kvs b.after.appVector := by
  obtain ⟨f, hf, hkvs, hnext⟩ := h.of_mainLoop
  have hboots' := hnext.symm.trans hboots
  rw [hkvs, h.same_flash, mainLoop_kvs_of_boots hboots']
  exact comparesEqual_of_accepted hf (mainLoop_boots_iff.mp hboots').2.2

theorem Boot.Genuine.crash {b : Boot} (h : b.Genuine P) (hcrash : b.m_state = .STATE_CRASH)
    (heq : ComparesEqual P b.before.g_kvs b.before.appVector) :
    b.next = some .Bootloader_FirmwareUpdateFlow := by
  obtain ⟨f, -, -, hnext⟩ := h.of_mainLoop
  rw [hnext, hcrash]
  show (ite _ _ _ : Handover).next = _
  rw [if_neg (by simp [heq.1])]
  rfl

/-- **No boot loop.** In every run with stores succeeding, a reset with the
crash state that finds partition and store as a boot of an application left them
enters the firmware update flow. -/
theorem crashed_image_not_booted (P : Platform) (d d' : Device) (events : List Event)
    (log : List Boot) (hstores : ∀ e ∈ events, e.StoresSucceed)
    (hr : run (step P) d events = .ok (d', log)) :
    ∀ earlier booted between crashed later,
      log = earlier ++ booted :: (between ++ crashed :: later) →
      booted.next = some .BootApplication → crashed.m_state = .STATE_CRASH →
      crashed.before = booted.after →
      crashed.next = some .Bootloader_FirmwareUpdateFlow := by
  intro earlier booted between crashed later hlog hboots hcrash hsame
  have hgenuine := run_genuine hstores hr
  have hbooted : booted.Genuine P := hgenuine booted (by simp [hlog])
  have hcrashed : crashed.Genuine P := hgenuine crashed (by simp [hlog])
  refine hcrashed.crash hcrash ?_
  rw [hsame]
  exact hbooted.comparesEqual hboots

/-- A first boot, and a crash of the image it booted. -/
theorem crashed_image_not_booted_first :
    (Bootloader_MainLoop samplePlatform noFaults .STATE_CRASH
      (Bootloader_MainLoop samplePlatform noFaults .STATE_POR .empty (sampleImage 0x11)).g_kvs
      (sampleImage 0x11)).next = some .Bootloader_FirmwareUpdateFlow := by
  have hstores : ∀ e ∈ [Event.reset .STATE_POR noFaults, .reset .STATE_CRASH noFaults],
      e.StoresSucceed := by
    intro e he
    rcases List.mem_cons.mp he with rfl | he
    · exact noFaults_storesSucceed
    · rw [List.mem_singleton.mp he]
      exact noFaults_storesSucceed
  exact crashed_image_not_booted samplePlatform ⟨.empty, sampleImage 0x11⟩ _ _ _ hstores rfl
    [] _ [] _ [] rfl (by decide +kernel) rfl rfl

end EmbeddedPlatform.Bootloader
