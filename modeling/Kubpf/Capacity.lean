import Kubpf.Lib.Admission
import Kubpf.Kernel.Accounting
import Kubpf.Kernel.FlowStore
import Kubpf.System

/-!
# What happens when a map is full

The maps have room for 65535 flows, and an insert into a full map is refused
without a trace in the map. So a map nothing is deleted from serves flows first
come, first served: the first 65535 that occur are counted to the last packet,
and of the others no packet ever is.

For IPv6 that is not a matter of bursts. The agent reads and prunes the IPv4 map
alone, so the IPv6 map takes in the first 65535 flows of all time and then no
others, however long the agent runs.
-/

namespace Kubpf.Kernel

open Lib

/-! ## One map -/

section

variable {K : Type} [DecidableEq K]

/-- A map holds the 64-bit totals of the flows that came while there was room. -/
def HoldsFirst (m : BpfHash K FlowStats) (h : List (K × FlowStatsOf Nat)) : Prop :=
  ∀ k, m.val k = (admittedTally m.maxEntries h k).map FlowStatsOf.ofNat

variable {m : BpfHash K FlowStats} {h : List (K × FlowStatsOf Nat)}

theorem HoldsFirst.keys (hm : HoldsFirst m h) :
    m.table.keys = admittedKeys m.maxEntries (h.map Prod.fst) := by
  ext k
  rw [BpfHash.mem_keys, hm k, Option.isSome_map, admittedTally_isSome, mem_admittedKeys]

/-- **There is room for a flow exactly if it is one of the first.** -/
theorem HoldsFirst.not_full_iff (hm : HoldsFirst m h) (k : K) :
    ¬ m.Full k ↔ Admitted m.maxEntries (h.map Prod.fst ++ [k]) k := by
  have hcard := card_admittedKeys m.maxEntries (h.map Prod.fst)
  rw [BpfHash.Full, hm.keys, mem_admittedKeys, hcard]
  by_cases hmem : k ∈ h.map Prod.fst
  · rw [admitted_concat_of_mem hmem]
    refine ⟨fun hroom => ?_, fun hin hfull => hfull.1 hin⟩
    -- a flow that came and was not let in came after all that were
    by_contra hout
    refine hroom ⟨hout, ?_⟩
    have hbefore : m.maxEntries ≤ (keysBefore (h.map Prod.fst) k).card :=
      Nat.le_of_not_lt fun hlt => hout ⟨hmem, hlt⟩
    have hle : (keysBefore (h.map Prod.fst) k).card ≤ (h.map Prod.fst).toFinset.card := by
      refine Finset.card_le_card fun x hx => ?_
      rw [List.mem_toFinset]
      exact (List.takeWhile_prefix _).subset (List.mem_toFinset.mp hx)
    omega
  · rw [admitted_concat_self hmem]
    have hout : ¬ Admitted m.maxEntries (h.map Prod.fst) k := fun hc => hmem hc.1
    refine ⟨fun hroom => ?_, fun hlt hfull => ?_⟩
    · by_contra hge
      exact hroom ⟨hout, by omega⟩
    · have := hfull.2
      omega

/-- **One packet more**, whether there is room or not. -/
theorem HoldsFirst.countPacket (hm : HoldsFirst m h) (key : K) (len : UInt32)
    (dir : CgroupDirection) :
    HoldsFirst (countPacket m key len dir) (h ++ [(key, packetStats len dir)]) := by
  intro k
  rw [maxEntries_countPacket]
  by_cases hfull : m.Full key
  · rw [countPacket_of_full hfull,
      admittedTally_concat_of_not _ fun hin => (hm.not_full_iff key).mpr hin hfull]
    exact hm k
  · rw [val_countPacket hfull, admittedTally_concat _ ((hm.not_full_iff key).mp hfull)]
    rcases eq_or_ne k key with rfl | hne
    · rw [Function.update_self, Function.update_self, hm k]
      cases admittedTally m.maxEntries h k <;> simp
    · rw [Function.update_of_ne hne, Function.update_of_ne hne]
      exact hm k

theorem holdsFirst_empty (n : Nat) : HoldsFirst (BpfHash.empty n : BpfHash K FlowStats) [] := by
  intro k
  rw [BpfHash.val_empty, admittedTally, if_neg fun hc => List.not_mem_nil hc.1]
  rfl

end

/-! ## Both maps -/

/-- Both maps hold the first flows of what has been presented so far. -/
structure HoldsFirstBoth (maps : FlowMaps) (pkts : List (SkBuff × CgroupDirection)) : Prop where
  v4 : HoldsFirst maps.v4FlowMap (v4History pkts)
  v6 : HoldsFirst maps.v6FlowMap (v6History pkts)
  size4 : maps.v4FlowMap.maxEntries = v4FlowMapSize
  size6 : maps.v6FlowMap.maxEntries = v6FlowMapSize

theorem holdsFirstBoth_empty : HoldsFirstBoth FlowMaps.empty [] :=
  ⟨holdsFirst_empty _, holdsFirst_empty _, rfl, rfl⟩

theorem holdsFirstBoth_step {maps : FlowMaps} {pkts : List (SkBuff × CgroupDirection)}
    (hm : HoldsFirstBoth maps pkts) (skb : SkBuff) (dir : CgroupDirection) :
    HoldsFirstBoth (bpfFlowReader skb dir maps) (pkts ++ [(skb, dir)]) := by
  unfold bpfFlowReader
  cases hkey : flowKey skb dir with
  | none =>
      have h4 : v4History [(skb, dir)] = [] := by simp [history, hkey]
      have h6 : v6History [(skb, dir)] = [] := by simp [history, hkey]
      refine ⟨?_, ?_, hm.size4, hm.size6⟩
      · rw [v4History_append, h4, List.append_nil]
        exact hm.v4
      · rw [v6History_append, h6, List.append_nil]
        exact hm.v6
  | some key =>
      cases key with
      | inl key4 =>
          have h4 : v4History [(skb, dir)] = [(key4, packetStats skb.len dir)] := by
            simp [history, hkey]
          have h6 : v6History [(skb, dir)] = [] := by simp [history, hkey]
          refine ⟨?_, ?_, (maxEntries_countPacket ..).trans hm.size4, hm.size6⟩
          · rw [v4History_append, h4]
            exact hm.v4.countPacket key4 skb.len dir
          · rw [v6History_append, h6, List.append_nil]
            exact hm.v6
      | inr key6 =>
          have h4 : v4History [(skb, dir)] = [] := by simp [history, hkey]
          have h6 : v6History [(skb, dir)] = [(key6, packetStats skb.len dir)] := by
            simp [history, hkey]
          refine ⟨?_, ?_, hm.size4, (maxEntries_countPacket ..).trans hm.size6⟩
          · rw [v4History_append, h4, List.append_nil]
            exact hm.v4
          · rw [v6History_append, h6]
            exact hm.v6.countPacket key6 skb.len dir

theorem holdsFirstBoth_run (qs : List (SkBuff × CgroupDirection)) :
    ∀ {maps : FlowMaps} {ps : List (SkBuff × CgroupDirection)}, HoldsFirstBoth maps ps →
      HoldsFirstBoth (readPackets qs maps) (ps ++ qs) := by
  induction qs with
  | nil =>
      intro maps ps hm
      rw [List.append_nil]
      exact hm
  | cons p qs ih =>
      intro maps ps hm
      rw [List.append_cons]
      exact ih (holdsFirstBoth_step hm p.1 p.2)

/--
**First come, first served.**

However many packets are presented, in whatever order and direction, from empty
maps and without a deletion: each map holds an entry for the first 65535 flows of
its family, with the 64-bit totals of all their packets, those before the map
filled up and those after. No packet of any other flow is counted.
-/
theorem first_flows_counted (pkts : List (SkBuff × CgroupDirection)) :
    (∀ key, (readPackets pkts FlowMaps.empty).v4FlowMap.val key
      = (admittedTally v4FlowMapSize (v4History pkts) key).map FlowStatsOf.ofNat) ∧
    ∀ key, (readPackets pkts FlowMaps.empty).v6FlowMap.val key
      = (admittedTally v6FlowMapSize (v6History pkts) key).map FlowStatsOf.ofNat := by
  have hm := holdsFirstBoth_run pkts holdsFirstBoth_empty
  rw [List.nil_append] at hm
  refine ⟨fun key => ?_, fun key => ?_⟩
  · rw [hm.v4 key, hm.size4]
  · rw [hm.v6 key, hm.size6]

end Kubpf.Kernel

namespace Kubpf

open Lib Kernel Agent

/-! ## The map the agent never looks at -/

/-- The IPv6 map is changed by packets only, and by nothing but what it held. -/
theorem v6FlowMap_bpfFlowReader {maps maps' : FlowMaps} (h : maps.v6FlowMap = maps'.v6FlowMap)
    (skb : SkBuff) (dir : CgroupDirection) :
    (bpfFlowReader skb dir maps).v6FlowMap = (bpfFlowReader skb dir maps').v6FlowMap := by
  unfold bpfFlowReader
  cases flowKey skb dir with
  | none => exact h
  | some key =>
      cases key with
      | inl v4Key => exact h
      | inr v6Key =>
          dsimp only
          rw [h]

theorem v6FlowMap_step {w w' : World} {l : Label} (hs : w.step l = some w') {maps : FlowMaps}
    (h : w.maps.v6FlowMap = maps.v6FlowMap) :
    w'.maps.v6FlowMap = (readPackets (packetsOf [l]) maps).v6FlowMap := by
  cases World.step_inv hs with
  | packet skb dir => exact v6FlowMap_bpfFlowReader h skb dir
  | scan input hreads horder => exact h
  | evictFails n failing ev hev => exact h
  | evict n failing ev hev => exact h
  | informer index => exact h

/-- **Whatever the agent does, the IPv6 map is what the packets alone have made of it.** -/
theorem v6FlowMap_run {w w' : World} {ls : List Label} (hr : run World.step w ls = some w')
    {maps : FlowMaps} (h : w.maps.v6FlowMap = maps.v6FlowMap) :
    w'.maps.v6FlowMap = (readPackets (packetsOf ls) maps).v6FlowMap := by
  induction ls generalizing w maps with
  | nil => rw [run_nil] at hr; exact Option.some.inj hr ▸ h
  | cons l ls ih =>
      obtain ⟨w₁, hs, hr₁⟩ := run_cons_eq_some hr
      have hsplit : packetsOf (l :: ls) = packetsOf [l] ++ packetsOf ls := packetsOf_append [l] ls
      rw [ih hr₁ (v6FlowMap_step hs h), hsplit, readPackets, readPackets, readPackets,
        List.foldl_append]

/--
**The IPv6 map is never pruned.**

In every run of packets, scans, evictions and informer updates from empty maps
and a new agent: an IPv6 flow has an entry exactly if fewer than 65535 others
occurred before it, and the entry holds the 64-bit totals of all its packets so
far. Later flows are never counted, whatever has become of the earlier ones.
-/
theorem v6_first_come (index : Index) (ls : List Label) (w : World)
    (hrun : run World.step (World.init index) ls = some w) (key : InetV6Flow) :
    w.maps.v6FlowMap.val key
      = (admittedTally v6FlowMapSize (v6History (packetsOf ls)) key).map FlowStatsOf.ofNat := by
  rw [v6FlowMap_run hrun rfl]
  exact (first_flows_counted (packetsOf ls)).2 key

/-- A neighbour solicitation, which has no ports. -/
def solicitation : Label :=
  .packet ⟨72, [0x60, 0, 0, 0, 0, 32, 58, 255] ++ List.replicate 15 0 ++ [2] ++
    List.replicate 15 0 ++ [3] ++ List.replicate 32 0⟩ .ingress

def solicitationFlow : InetV6Flow :=
  ⟨#v[0, 0, 0, 0x02000000], #v[0, 0, 0, 0x03000000], ⟨58, .replicate 3 0, 0, 0⟩⟩

theorem v6_first_come_solicitation :
    ∃ w, run World.step (World.init Index.empty) [solicitation, .scan ⟨1, [], [], [], []⟩,
        .evict 0 false [], solicitation] = some w ∧
      w.maps.v6FlowMap.val solicitationFlow = some ⟨144, 2, 0, 0⟩ :=
  ⟨_, rfl, (v6_first_come Index.empty [solicitation, .scan ⟨1, [], [], [], []⟩, .evict 0 false [],
    solicitation] _ rfl solicitationFlow).trans (by decide)⟩

end Kubpf
