import EmbeddedPlatform.Kvs
import EmbeddedPlatform.Lib.Encoding
import EmbeddedPlatform.Lib.Run

/-! # The configuration of the NTP client

Three settings are kept in the key-value store. A setting is only stored if it differs
from what is there, or from a default when nothing is there; for the server and the time
zone this is the default they are loaded with. The client is enabled by default when it
is loaded, and disabled by default when it is saved. -/
namespace EmbeddedPlatform.Services
open EmbeddedPlatform.Lib

def g_ntpEnableObjectID : String := "ntp.enable"
def g_ntpServerObjectID : String := "ntp.server"
def g_ntpUtcOffsetObjectID : String := "ntp.tzoffset"

def IPv4AddressBytes : Encoding (BitVec 32) := .littleEndian 4
def int64Bytes : Encoding (BitVec 64) := .littleEndian 8

/-- What is configured of a client. -/
structure NTPConfig where
  enabled : Bool
  m_serverAddress : BitVec 32
  m_utcOffset : BitVec 64

/-- `ReadObject<T>` -/
def ReadObject {α : Type} (enc : Encoding α) (kvs : Kvs) (name : String) (defaultValue : α) : α :=
  enc.value (kvs.ReadObject name enc.size (enc.bytes defaultValue))

/-- `StoreObjectIfNecessary<T>` -/
def StoreObjectIfNecessary {α : Type} (enc : Encoding α) (kvs : Kvs) (ok : Bool) (name : String)
    (currentValue defaultValue : α) : Kvs :=
  kvs.StoreObjectIfNecessary ok name (enc.bytes currentValue) (enc.bytes defaultValue)

/-- The server a board comes with. -/
def LoadConfigFromKVS (g_defaultNtpServer : BitVec 32) (kvs : Kvs) : NTPConfig where
  enabled := ReadObject .bool kvs g_ntpEnableObjectID true
  m_serverAddress := ReadObject IPv4AddressBytes kvs g_ntpServerObjectID g_defaultNtpServer
  m_utcOffset := ReadObject int64Bytes kvs g_ntpUtcOffsetObjectID (.ofInt 64 (-8 * 3600))

/-- Whether the stores succeed, if they are made. -/
structure NTPStores where
  enable : Bool
  server : Bool
  utcOffset : Bool

/-- A store that fails is only logged. -/
def SaveConfigToKVS (g_defaultNtpServer : BitVec 32) (ok : NTPStores) (c : NTPConfig) (kvs : Kvs) :
    Kvs :=
  let kvs := StoreObjectIfNecessary .bool kvs ok.enable g_ntpEnableObjectID c.enabled false
  let kvs := StoreObjectIfNecessary IPv4AddressBytes kvs ok.server g_ntpServerObjectID
    c.m_serverAddress g_defaultNtpServer
  StoreObjectIfNecessary int64Bytes kvs ok.utcOffset g_ntpUtcOffsetObjectID c.m_utcOffset
    (.ofInt 64 (-8 * 3600))

/-! ## Settings in the store -/

section
variable {α : Type} (enc : Encoding α) {kvs : Kvs} {ok : Bool} {name other : String} {x dflt : α}

theorem storeIfNecessary_of_ne (h : other ≠ name) :
    StoreObjectIfNecessary enc kvs ok name x dflt other = kvs other := by
  unfold StoreObjectIfNecessary
  rcases Kvs.storeObjectIfNecessary_cases kvs ok name (enc.bytes x) (enc.bytes dflt) with h' | h'
  · rw [h']
  · rw [h']
    exact Kvs.store_of_ne h

/-- What the object says, if there is one. -/
def setting (enc : Encoding α) (kvs : Kvs) (name : String) : Option α :=
  (kvs.FindObject name).map fun o => enc.value (o.read enc.size)

theorem readObject_eq (kvs : Kvs) (name : String) (dflt : α) :
    ReadObject enc kvs name dflt = (setting enc kvs name).getD dflt := by
  unfold ReadObject Kvs.ReadObject setting
  cases kvs.FindObject name with
  | none => exact enc.value_bytes dflt
  | some o => rfl

theorem setting_of_eq {kvs' : Kvs} (h : kvs' name = kvs name) :
    setting enc kvs' name = setting enc kvs name := by
  unfold setting Kvs.FindObject
  rw [h]

theorem setting_store (kvs : Kvs) (name : String) (x : α) :
    setting enc (kvs.store name (enc.bytes x)) name = some x := by
  unfold setting Kvs.FindObject
  rw [Kvs.store_self, Option.map_some, ← enc.bytes_length x, KvsObject.read_ofBytes,
    enc.value_bytes]

variable [DecidableEq α]

/-- What is saved is there afterwards, unless it is the default and nothing was there. -/
def keep (old : Option α) (ok : Bool) (x dflt : α) : Option α :=
  if ok = true ∧ ¬ (old = none ∧ x = dflt) then some x else old

theorem setting_storeIfNecessary :
    setting enc (StoreObjectIfNecessary enc kvs ok name x dflt) name =
      keep (setting enc kvs name) ok x dflt := by
  unfold keep
  unfold StoreObjectIfNecessary Kvs.StoreObjectIfNecessary
  rw [enc.bytes_length]
  by_cases hsame : kvs.ReadObject name enc.size (enc.bytes dflt) = enc.bytes x
  · rw [if_pos hsame]
    cases hobj : kvs.FindObject name with
    | none =>
      have hnone : setting enc kvs name = none := by
        unfold setting
        rw [hobj]
        rfl
      unfold Kvs.ReadObject at hsame
      rw [hobj] at hsame
      rw [if_neg fun h => h.2 ⟨hnone, ((enc.bytes_inj).mp hsame).symm⟩]
    | some o =>
      have hsome : setting enc kvs name = some x := by
        unfold Kvs.ReadObject at hsame
        rw [hobj] at hsame
        have hread : o.read enc.size = enc.bytes x := hsame
        unfold setting
        rw [hobj, Option.map_some, hread, enc.value_bytes]
      rw [hsome, ite_self]
  · rw [if_neg hsame]
    have hnew : ¬ (setting enc kvs name = none ∧ x = dflt) := by
      rintro ⟨hnone, rfl⟩
      refine hsame ?_
      unfold Kvs.ReadObject
      rw [Option.map_eq_none_iff.mp hnone]
    cases ok with
    | true =>
      rw [if_pos rfl, if_pos ⟨rfl, hnew⟩]
      exact setting_store ..
    | false =>
      rw [if_neg Bool.false_ne_true, if_neg fun h => Bool.false_ne_true h.1]

end

/-! ## A client over restarts -/

structure NTPDevice where
  client : NTPConfig
  g_kvs : Kvs

/-- The settings are changed, saved, or loaded at the next start. -/
inductive NTPOp where
  | configure (c : NTPConfig)
  | SaveConfigToKVS (ok : NTPStores)
  | restart

inductive NTPEvent where
  | saved (c : NTPConfig) (ok : NTPStores)
  | loaded (c : NTPConfig)

def ntpStep (g_defaultNtpServer : BitVec 32) (d : NTPDevice) :
    NTPOp → Except Empty (NTPDevice × List NTPEvent)
  | .configure c => .ok ({ d with client := c }, [])
  | .SaveConfigToKVS ok =>
    .ok ({ d with g_kvs := SaveConfigToKVS g_defaultNtpServer ok d.client d.g_kvs },
      [.saved d.client ok])
  | .restart =>
    let c := LoadConfigFromKVS g_defaultNtpServer d.g_kvs
    .ok ({ d with client := c }, [.loaded c])

/-- A setting that is saved, if its store does not fail. -/
def NTPEvent.saves {α : Type} (value : NTPConfig → α) (ok : NTPStores → Bool) : NTPEvent → Option α
  | .saved c stores => if ok stores then some (value c) else none
  | .loaded _ => none

/-- All that were saved. -/
def savedSettings {α : Type} (value : NTPConfig → α) (ok : NTPStores → Bool) (log : List NTPEvent) :
    List α :=
  log.filterMap (NTPEvent.saves value ok)

/-- What an event does to the store. -/
def keepSaved (g_defaultNtpServer : BitVec 32) (kvs : Kvs) : NTPEvent → Kvs
  | .saved c ok => SaveConfigToKVS g_defaultNtpServer ok c kvs
  | .loaded _ => kvs

section
variable (dflt : BitVec 32) {kvs : Kvs} {log : List NTPEvent}

theorem keys_differ : g_ntpEnableObjectID ≠ g_ntpServerObjectID ∧
    g_ntpEnableObjectID ≠ g_ntpUtcOffsetObjectID ∧ g_ntpServerObjectID ≠ g_ntpUtcOffsetObjectID := by
  decide

/-- A setting that is loaded with the default it is saved with. -/
theorem readObject_storeIfNecessary {α : Type} [DecidableEq α] (enc : Encoding α) (kvs : Kvs)
    (ok : Bool) (name : String) (x dflt : α) :
    ReadObject enc (StoreObjectIfNecessary enc kvs ok name x dflt) name dflt =
      if ok then x else ReadObject enc kvs name dflt := by
  rw [readObject_eq, readObject_eq, setting_storeIfNecessary]
  unfold keep
  by_cases hnew : setting enc kvs name = none ∧ x = dflt
  · obtain ⟨hnone, rfl⟩ := hnew
    rw [if_neg fun h => h.2 ⟨hnone, rfl⟩, hnone]
    exact (ite_self _).symm
  · cases ok with
    | true => rw [if_pos ⟨rfl, hnew⟩]; rfl
    | false => rw [if_neg fun h => Bool.false_ne_true h.1]; rfl

/-- The three stores do not meet. -/
theorem setting_saveConfig (ok : NTPStores) (c : NTPConfig) (kvs : Kvs) :
    setting .bool (SaveConfigToKVS dflt ok c kvs) g_ntpEnableObjectID =
      keep (setting .bool kvs g_ntpEnableObjectID) ok.enable c.enabled false := by
  rw [← setting_storeIfNecessary]
  refine setting_of_eq .bool ?_
  unfold SaveConfigToKVS
  rw [storeIfNecessary_of_ne _ keys_differ.2.1, storeIfNecessary_of_ne _ keys_differ.1]

theorem readObject_of_eq {α : Type} (enc : Encoding α) {kvs kvs' : Kvs} {name : String} {x : α}
    (h : kvs' name = kvs name) : ReadObject enc kvs' name x = ReadObject enc kvs name x := by
  rw [readObject_eq, readObject_eq, setting_of_eq enc h]

theorem server_saveConfig (ok : NTPStores) (c : NTPConfig) (kvs : Kvs) :
    (LoadConfigFromKVS dflt (SaveConfigToKVS dflt ok c kvs)).m_serverAddress =
      if ok.server then c.m_serverAddress else (LoadConfigFromKVS dflt kvs).m_serverAddress := by
  unfold LoadConfigFromKVS SaveConfigToKVS
  dsimp only
  rw [readObject_of_eq _ (storeIfNecessary_of_ne _ keys_differ.2.2), readObject_storeIfNecessary,
    readObject_of_eq _ (storeIfNecessary_of_ne _ keys_differ.1.symm)]

theorem utcOffset_saveConfig (ok : NTPStores) (c : NTPConfig) (kvs : Kvs) :
    (LoadConfigFromKVS dflt (SaveConfigToKVS dflt ok c kvs)).m_utcOffset =
      if ok.utcOffset then c.m_utcOffset else (LoadConfigFromKVS dflt kvs).m_utcOffset := by
  unfold LoadConfigFromKVS SaveConfigToKVS
  dsimp only
  rw [readObject_storeIfNecessary,
    readObject_of_eq _ (storeIfNecessary_of_ne _ keys_differ.2.2.symm),
    readObject_of_eq _ (storeIfNecessary_of_ne _ keys_differ.2.1.symm)]

theorem load_enabled (kvs : Kvs) : (LoadConfigFromKVS dflt kvs).enabled =
    (setting .bool kvs g_ntpEnableObjectID).getD true :=
  readObject_eq .bool kvs g_ntpEnableObjectID true

/-- Of a setting whose saves all count, what is loaded is what was saved last. -/
theorem replay_saved {α : Type} {value : NTPConfig → α} {ok : NTPStores → Bool}
    (hsave : ∀ stores c kvs, value (LoadConfigFromKVS dflt (SaveConfigToKVS dflt stores c kvs)) =
      if ok stores then value c else value (LoadConfigFromKVS dflt kvs))
    (kvs : Kvs) (log : List NTPEvent) :
    value (LoadConfigFromKVS dflt (replay (keepSaved dflt) kvs log)) =
      (savedSettings value ok log).getLastD (value (LoadConfigFromKVS dflt kvs)) := by
  refine replay_last (keepSaved dflt) (f := fun kvs => value (LoadConfigFromKVS dflt kvs))
    (fun kvs e => ?_) kvs log
  cases e with
  | saved c stores =>
    refine (hsave stores c kvs).trans ?_
    show _ = (if ok stores then some (value c) else none).getD _
    cases ok stores <;> rfl
  | loaded c => rfl

/-- A flag that is off is only kept if there was one before. -/
theorem keep_flag (old : Option Bool) (flag : Bool) (flags : List Bool) :
    (if (keep old true flag false).isSome = true ∨ true ∈ flags then
        some (flags.getLastD ((keep old true flag false).getD true)) else none) =
      if old.isSome = true ∨ true ∈ flag :: flags then
        some ((flag :: flags).getLastD (old.getD true)) else none := by
  cases old with
  | some b => simp [keep, List.getLast?_cons]
  | none =>
    cases flag with
    | true => simp [keep, List.getLast?_cons]
    | false =>
      by_cases hmem : true ∈ flags
      · obtain ⟨head, rest, rfl⟩ := List.exists_cons_of_ne_nil (List.ne_nil_of_mem hmem)
        simp [keep, List.getLast?_cons]
      · simp [keep, hmem]

/-- The flag is not stored before the client was enabled. -/
theorem replay_enable (kvs : Kvs) (log : List NTPEvent) :
    setting .bool (replay (keepSaved dflt) kvs log) g_ntpEnableObjectID =
      if (setting .bool kvs g_ntpEnableObjectID).isSome = true ∨
          true ∈ savedSettings NTPConfig.enabled NTPStores.enable log then
        some ((savedSettings NTPConfig.enabled NTPStores.enable log).getLastD
          ((setting .bool kvs g_ntpEnableObjectID).getD true))
      else none := by
  induction log generalizing kvs with
  | nil =>
    rw [replay_nil]
    cases setting .bool kvs g_ntpEnableObjectID with
    | none => rfl
    | some b => rfl
  | cons e log ih =>
    rw [replay_cons, ih]
    cases e with
    | loaded c => rfl
    | saved c stores =>
      have hnext : setting .bool (keepSaved dflt kvs (.saved c stores)) g_ntpEnableObjectID =
        keep (setting .bool kvs g_ntpEnableObjectID) stores.enable c.enabled false :=
          setting_saveConfig dflt stores c kvs
      have hsaves : savedSettings NTPConfig.enabled NTPStores.enable (.saved c stores :: log) =
          (if stores.enable then [c.enabled] else []) ++
            savedSettings NTPConfig.enabled NTPStores.enable log := by
        unfold savedSettings NTPEvent.saves
        cases hok : stores.enable <;> simp [hok]
      rw [hnext, hsaves]
      generalize savedSettings NTPConfig.enabled NTPStores.enable log = flags
      cases stores.enable with
      | false => rfl
      | true => exact keep_flag ..

/-- What a restart loads, by what was saved before it. -/
def LoadsSaved (dflt : BitVec 32) (kvs : Kvs) (front : List NTPEvent) : NTPEvent → Prop
  | .saved _ _ => True
  | .loaded c => c = LoadConfigFromKVS dflt (replay (keepSaved dflt) kvs front)

/-- The store is what the saves made of it, and restarts load it. -/
theorem ntpStep_spec {d t : NTPDevice} {op : NTPOp} {es : List NTPEvent}
    (hd : d.g_kvs = replay (keepSaved dflt) kvs log ∧ Complies record (LoadsSaved dflt kvs) [] log)
    (hs : ntpStep dflt d op = .ok (t, es)) :
    t.g_kvs = replay (keepSaved dflt) kvs (log ++ es) ∧
      Complies record (LoadsSaved dflt kvs) [] (log ++ es) := by
  rw [replay_append, complies_append, replay_record, ← hd.1]
  cases op with
  | configure c =>
    cases hs
    exact ⟨rfl, hd.2, trivial⟩
  | SaveConfigToKVS ok =>
    cases hs
    exact ⟨rfl, hd.2, trivial, trivial⟩
  | restart =>
    cases hs
    refine ⟨rfl, hd.2, ?_, trivial⟩
    show LoadConfigFromKVS dflt d.g_kvs = LoadConfigFromKVS dflt (replay (keepSaved dflt) kvs log)
    rw [hd.1]

end

end EmbeddedPlatform.Services
