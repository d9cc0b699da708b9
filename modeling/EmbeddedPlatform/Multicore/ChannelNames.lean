import Mathlib.Data.List.Basic
import EmbeddedPlatform.Multicore.IPCDescriptorTable

/-! # Channels by name

The primary core allocates the channels before the other cores are started, and gives
each a name. The others look their channels up by name. A name is the bytes before its
terminator. -/
namespace EmbeddedPlatform.Multicore
open EmbeddedPlatform.Lib

/-- The table with the names of its channels; `none` is a null pointer. -/
structure NamedTable (n : Nat) where
  table : IPCDescriptorTable n
  m_name : Fin n → Option (List UInt8)

/-- The arguments of `AllocateChannel`. -/
structure Request where
  name : List UInt8
  buffers : Buffers

namespace NamedTable

variable {n : Nat}

def empty (n : Nat) : NamedTable n := ⟨.empty n, fun _ => none⟩

/-- With the channel that is returned. -/
def AllocateChannel (t : NamedTable n) (r : Request) : NamedTable n × Option (Fin n) :=
  if h : t.table.m_firstFreeChannel < n then
    let idx : Fin n := ⟨t.table.m_firstFreeChannel, h⟩
    (⟨t.table.AllocateChannel r.buffers, Function.update t.m_name idx (some r.name)⟩, some idx)
  else (t, none)

/-- The test of the loop: channels without a name are skipped. -/
def hasName (t : NamedTable n) (name : List UInt8) (i : Fin n) : Bool :=
  match t.m_name i with
  | none => false
  | some cname => cname == name

def FindChannel (t : NamedTable n) (name : List UInt8) : Option (Fin n) :=
  (List.finRange n).find? (t.hasName name)

/-- A run logs what the calls returned. -/
def step (t : NamedTable n) (r : Request) : Except Empty (NamedTable n × List (Option (Fin n))) :=
  .ok ((t.AllocateChannel r).1, [(t.AllocateChannel r).2])

/-! ## What is in the table -/

/-- A channel as it is handed over. -/
def freshChannel (r : Request) (i : Nat) : IPCDescriptorChannel :=
  ⟨.Initialize .unused r.buffers.txbuf r.buffers.txsize i true,
    .Initialize .unused r.buffers.rxbuf r.buffers.rxsize i false⟩

/-- The constructor's, if there was no request for it. -/
def channelFor (r : Option Request) (i : Nat) : IPCDescriptorChannel :=
  r.elim ⟨.unused, .unused⟩ fun r => freshChannel r i

/-- The channels go to the first requests, in order. -/
structure Holds (t : NamedTable n) (requests : List Request) : Prop where
  first : t.table.m_firstFreeChannel = min requests.length n
  name : ∀ i : Fin n, t.m_name i = requests[(i : Nat)]?.map Request.name
  channel : ∀ i : Fin n, t.table.m_channels i = channelFor requests[(i : Nat)]? i

theorem holds_empty (n : Nat) : Holds (empty n) [] :=
  ⟨(Nat.zero_min n).symm, fun _ => rfl, fun _ => rfl⟩

/-- The channel of the `k`-th request. -/
def channelOf (n k : Nat) : Option (Fin n) := if h : k < n then some ⟨k, h⟩ else none

section
variable {t u : NamedTable n} {requests : List Request} {r : Request} {name : List UInt8}

/-- A column of the table that follows the requests goes on to. -/
theorem update_column {β : Type*} (column : Nat → Option Request → β) {f : Fin n → β}
    (h : ∀ i : Fin n, f i = column i requests[(i : Nat)]?) (hlt : requests.length < n) (i : Fin n) :
    Function.update f ⟨requests.length, hlt⟩ (column requests.length (some r)) i =
      column i (requests ++ [r])[(i : Nat)]? := by
  by_cases hi : i = ⟨requests.length, hlt⟩
  · rw [hi, Function.update_self, List.getElem?_concat_length]
  · rw [Function.update_of_ne hi, h i]
    have hne : (i : Nat) ≠ requests.length := fun he => hi (Fin.ext he)
    by_cases hold : (i : Nat) < requests.length
    · rw [List.getElem?_append_left hold]
    · have hlen : (requests ++ [r]).length = requests.length + 1 := List.length_append
      rw [List.getElem?_eq_none (Nat.le_of_not_lt hold), List.getElem?_eq_none (by omega)]

theorem Holds.step (h : Holds t requests) {returned : List (Option (Fin n))}
    (hs : step t r = .ok (u, returned)) :
    Holds u (requests ++ [r]) ∧ returned = [channelOf n requests.length] := by
  obtain ⟨rfl, rfl⟩ := ok_eq hs
  obtain ⟨⟨channels, first⟩, names⟩ := t
  obtain ⟨hfirst, hname, hchannel⟩ := h
  have hlen : (requests ++ [r]).length = requests.length + 1 := List.length_append
  dsimp only at hfirst hname hchannel
  by_cases hfree : requests.length < n
  · obtain rfl : first = requests.length := by omega
    have hunused : channels ⟨requests.length, hfree⟩ = ⟨.unused, .unused⟩ := by
      rw [hchannel, List.getElem?_eq_none (Nat.le_refl _)]
      rfl
    unfold NamedTable.AllocateChannel IPCDescriptorTable.AllocateChannel channelOf
    dsimp only
    rw [dif_pos hfree, dif_pos hfree, dif_pos hfree, hunused]
    refine ⟨⟨?_, update_column (fun _ r => r.map Request.name) hname hfree,
      update_column (fun i r => channelFor r i) hchannel hfree⟩, rfl⟩
    rw [hlen]
    exact (Nat.min_eq_left hfree).symm
  · have hkeep : ∀ i : Fin n, (requests ++ [r])[(i : Nat)]? = requests[(i : Nat)]? := fun i =>
      List.getElem?_append_left (by omega)
    unfold NamedTable.AllocateChannel channelOf
    rw [dif_neg (by show ¬ first < n; omega), dif_neg hfree]
    refine ⟨⟨?_, fun i => ?_, fun i => ?_⟩, rfl⟩
    · show first = _
      rw [hlen]
      omega
    · rw [hkeep]
      exact hname i
    · rw [hkeep]
      exact hchannel i

theorem holds_run {channels : List (Option (Fin n))}
    (hr : run step (empty n) requests = .ok (t, channels)) :
    Holds t requests ∧ channels = (List.range requests.length).map (channelOf n) := by
  have h := run_rule (C := fun _ _ => True) (l := []) (b := [])
    (J := fun t channels requests => Holds t requests ∧
      channels = (List.range requests.length).map (channelOf n))
    (fun t channels requests r u returned h _ hs => by
      obtain ⟨hu, hreturned⟩ := h.1.step hs
      refine ⟨hu, ?_⟩
      rw [h.2, hreturned, List.length_append, List.length_singleton, List.range_succ,
        List.map_append]
      rfl)
    ⟨holds_empty n, rfl⟩ (allSteps_true _ requests) hr
  rwa [List.nil_append, List.nil_append] at h

theorem Holds.hasName_iff (h : Holds t requests) (i : Fin n) :
    t.hasName name i = true ↔ ∃ r, requests[(i : Nat)]? = some r ∧ r.name = name := by
  unfold NamedTable.hasName
  rw [h.name i]
  cases requests[(i : Nat)]? with
  | none => simp
  | some r => simp

end

/-- **What a core finds by name** is the channel of the first request with that name, if
that got a channel, with the buffers of that request. The first requests get the
channels, the others a null pointer. -/
theorem findChannel_iff (requests : List Request) (t : NamedTable n)
    (channels : List (Option (Fin n))) (hr : run step (empty n) requests = .ok (t, channels)) :
    channels = (List.range requests.length).map (channelOf n) ∧
    ∀ (name : List UInt8) (i : Fin n), t.FindChannel name = some i ↔
      ∃ r, requests[(i : Nat)]? = some r ∧ r.name = name ∧
        (∀ j < (i : Nat), ∀ earlier, requests[j]? = some earlier → earlier.name ≠ name) ∧
        t.table.m_channels i = freshChannel r i := by
  obtain ⟨h, hchannels⟩ := holds_run hr
  refine ⟨hchannels, fun name i => ?_⟩
  unfold NamedTable.FindChannel
  rw [List.find?_eq_some_iff_getElem, h.hasName_iff]
  constructor
  · rintro ⟨⟨r, hr, hname⟩, k, hk, hki, hbefore⟩
    rw [List.getElem_finRange] at hki
    subst hki
    refine ⟨r, hr, hname, fun j hj earlier hearlier he => ?_, ?_⟩
    · have hnot := hbefore j hj
      rw [List.getElem_finRange, Bool.not_eq_true', Bool.eq_false_iff] at hnot
      exact hnot ((h.hasName_iff _).mpr ⟨earlier, hearlier, he⟩)
    · rw [h.channel, hr]
      rfl
  · rintro ⟨r, hr, hname, hbefore, -⟩
    have hi : (i : Nat) < (List.finRange n).length := by
      rw [List.length_finRange]
      exact i.isLt
    refine ⟨⟨r, hr, hname⟩, i, hi, List.getElem_finRange hi, fun j hj => ?_⟩
    rw [List.getElem_finRange, Bool.not_eq_true', Bool.eq_false_iff]
    intro hfound
    obtain ⟨earlier, hearlier, he⟩ := (h.hasName_iff _).mp hfound
    exact hbefore j hj earlier hearlier he

/-- Three requests for two channels, the first two with the same name. -/
def threeRequests : List Request :=
  [⟨[0x6c], ⟨fun _ => 0, 16, fun _ => 0, 16⟩⟩, ⟨[0x6c], ⟨fun _ => 0, 32, fun _ => 0, 32⟩⟩,
    ⟨[0x6e], ⟨fun _ => 0, 64, fun _ => 0, 64⟩⟩]

theorem findChannel_shared_name :
    ∃ t, run step (empty 2) threeRequests = .ok (t, [channelOf 2 0, channelOf 2 1, none]) ∧
      t.FindChannel [0x6c] = some ⟨0, Nat.two_pos⟩ := by
  have hr : ∃ t, run step (empty 2) threeRequests =
      .ok (t, [channelOf 2 0, channelOf 2 1, none]) := ⟨_, rfl⟩
  obtain ⟨t, hr⟩ := hr
  obtain ⟨h, -⟩ := holds_run hr
  refine ⟨t, hr, ((findChannel_iff threeRequests t _ hr).2 [0x6c] ⟨0, Nat.two_pos⟩).mpr ?_⟩
  exact ⟨_, rfl, rfl, fun j hj => absurd hj (Nat.not_lt_zero j), h.channel _⟩

end NamedTable

end EmbeddedPlatform.Multicore
