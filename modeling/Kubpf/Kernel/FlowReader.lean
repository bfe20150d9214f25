import Kubpf.Lib.BpfHash
import Kubpf.Kernel.Packet

/-!
# The flow reader

`bpf_flow_reader`, attached once for ingress and once for egress. It turns a
packet into a flow key, or gives up on it, and then counts the packet in the map
of its address family: an absent key is inserted with the packet as its first
record, a present one is bumped through the pointer the lookup returned.

The key of an egress packet is turned around, so that both directions of a
connection seen by one endpoint meet in one entry.
-/

namespace Kubpf.Kernel

open Lib

def ipprotoUdp : UInt8 := 17
def ipprotoTcp : UInt8 := 6
def ipv4Loopback : UInt32 := 0x0100007f

/-- `ipv6_lo`: `::1` as four native words. -/
def ipv6Lo : Vector UInt32 4 := #v[0x00, 0x00, 0x00, 0x01000000]

def v4FlowMapSize : Nat := 65535
def v6FlowMapSize : Nat := 65535

/-- The two maps of `ebpf_maps.h`. -/
structure FlowMaps where
  v4FlowMap : BpfHash InetV4Flow FlowStats
  v6FlowMap : BpfHash InetV6Flow FlowStats

/-- The maps as they are created. -/
def FlowMaps.empty : FlowMaps where
  v4FlowMap := BpfHash.empty v4FlowMapSize
  v6FlowMap := BpfHash.empty v6FlowMapSize

/-! ## Keys -/

/-- `normalize_v4_flow`. -/
def normalizeV4Flow (v4Flow : InetV4Flow) (dir : CgroupDirection) : InetV4Flow :=
  if dir = .ingress then v4Flow
  else
    { v4Flow with
      srcIp := v4Flow.dstIp, dstIp := v4Flow.srcIp
      l4 := { v4Flow.l4 with sport := v4Flow.l4.dport, dport := v4Flow.l4.sport } }

/-- `normalize_v6_flow`. -/
def normalizeV6Flow (v6Flow : InetV6Flow) (dir : CgroupDirection) : InetV6Flow :=
  if dir = .ingress then v6Flow
  else
    { v6Flow with
      srcIp := v6Flow.dstIp, dstIp := v6Flow.srcIp
      l4 := { v6Flow.l4 with sport := v6Flow.l4.dport, dport := v6Flow.l4.sport } }

/-- The transport part of the key, read the same way for both families: the ports of a TCP
or UDP header that lies inside the buffer, zero ports for any other protocol, and nothing
when the header sticks out. -/
def readL4 (data : List UInt8) (ipProto : UInt8) (l3Offset : Nat) : Option ProtoPort :=
  let l4 : ProtoPort := { ipProto, padding := .replicate 3 0, sport := 0, dport := 0 }
  if ipProto = ipprotoTcp then
    if l3Offset + sizeofTcphdr > data.length then none
    else
      let tcph := portsHdrAt data l3Offset
      some { l4 with sport := tcph.source, dport := tcph.dest }
  else if ipProto = ipprotoUdp then
    if l3Offset + sizeofUdphdr > data.length then none
    else
      let udph := portsHdrAt data l3Offset
      some { l4 with sport := udph.source, dport := udph.dest }
  else some l4

/-- The IPv4 branch up to the normalisation. -/
def readV4 (skb : SkBuff) : Option InetV4Flow :=
  let iph := iphdrAt skb.data
  let l3Offset := iph.ihl.toNat <<< 2
  if iph.saddr = ipv4Loopback ∨ iph.daddr = ipv4Loopback then none
  else
    (readL4 skb.data iph.protocol l3Offset).map fun l4 =>
      { srcIp := iph.saddr, dstIp := iph.daddr, l4 }

/-- The IPv6 branch up to the normalisation. -/
def readV6 (skb : SkBuff) : Option InetV6Flow :=
  if sizeofIpv6hdr > skb.data.length then none
  else
    let ip6h := ipv6hdrAt skb.data
    if ip6h.saddr = ipv6Lo ∨ ip6h.daddr = ipv6Lo then none
    else
      (readL4 skb.data ip6h.nexthdr sizeofIpv6hdr).map fun l4 =>
        { srcIp := ip6h.saddr, dstIp := ip6h.daddr, l4 }

/-- The normalised key of a packet, on the left for IPv4 and on the right for IPv6; `none`
is an early `return 1`. Whatever is not version 4 is taken for IPv6. -/
def flowKey (skb : SkBuff) (dir : CgroupDirection) : Option (InetV4Flow ⊕ InetV6Flow) :=
  if sizeofIphdr > skb.data.length then none
  else if (iphdrAt skb.data).version = 4 then
    (readV4 skb).map fun v4Key => .inl (normalizeV4Flow v4Key dir)
  else
    (readV6 skb).map fun v6Key => .inr (normalizeV6Flow v6Key dir)

/-! ## Counting -/

/-- `init_cgroup_ingress_stats` and `init_cgroup_egress_stats`. -/
def initStats (len : UInt32) : CgroupDirection → FlowStats
  | .ingress => { outPackets := 1, outBytes := len.toUInt64, inPackets := 0, inBytes := 0 }
  | .egress => { outPackets := 0, outBytes := 0, inPackets := 1, inBytes := len.toUInt64 }

/-- The first `__sync_fetch_and_add`: the bytes. -/
def addBytes (len : UInt32) (dir : CgroupDirection) (value : FlowStats) : FlowStats :=
  match dir with
  | .ingress => { value with outBytes := value.outBytes + len.toUInt64 }
  | .egress => { value with inBytes := value.inBytes + len.toUInt64 }

/-- The second `__sync_fetch_and_add`: the packet. -/
def addPacket (dir : CgroupDirection) (value : FlowStats) : FlowStats :=
  match dir with
  | .ingress => { value with outPackets := value.outPackets + 1 }
  | .egress => { value with inPackets := value.inPackets + 1 }

section

variable {K : Type} [DecidableEq K]

/-- Count a packet of `len` bytes under a key: insert the first record, or add through the
looked-up value. A refused insert is only traced. -/
def countPacket (m : BpfHash K FlowStats) (key : K) (len : UInt32) (dir : CgroupDirection) :
    BpfHash K FlowStats :=
  match m.lookupElem key with
  | none => (m.updateElem key (initStats len dir)).2
  | some value => (m.modify value (addBytes len dir)).modify value (addPacket dir)

end

/-- `bpf_flow_reader`. Every path returns 1, so only the maps are kept. -/
def bpfFlowReader (skb : SkBuff) (dir : CgroupDirection) (maps : FlowMaps) : FlowMaps :=
  match flowKey skb dir with
  | none => maps
  | some (.inl v4Key) =>
    { maps with v4FlowMap := countPacket maps.v4FlowMap v4Key skb.len dir }
  | some (.inr v6Key) =>
    { maps with v6FlowMap := countPacket maps.v6FlowMap v6Key skb.len dir }

/-- One packet after another. -/
def readPackets (pkts : List (SkBuff × CgroupDirection)) (maps : FlowMaps) : FlowMaps :=
  pkts.foldl (fun maps p => bpfFlowReader p.1 p.2 maps) maps

/-! ## What one packet adds -/

/-- The exact amounts one packet contributes to its key. -/
def packetStats (len : UInt32) : CgroupDirection → FlowStatsOf Nat
  | .ingress => { outBytes := len.toNat, outPackets := 1, inBytes := 0, inPackets := 0 }
  | .egress => { outBytes := 0, outPackets := 0, inBytes := len.toNat, inPackets := 1 }

theorem packets_packetStats (len : UInt32) (dir : CgroupDirection) :
    FlowStatsOf.packets (packetStats len dir) = 1 := by
  cases dir <;> rfl

/-- The record an insert starts from is what an increment would have made of nothing. -/
theorem initStats_eq (len : UInt32) (dir : CgroupDirection) :
    initStats len dir = FlowStatsOf.ofNat (packetStats len dir) := by
  cases dir <;> ext <;> simp [initStats, packetStats, FlowStatsOf.ofNat, FlowStatsOf.map]

theorem addPacket_addBytes (len : UInt32) (dir : CgroupDirection) (value : FlowStats) :
    addPacket dir (addBytes len dir value) = value + FlowStatsOf.ofNat (packetStats len dir) := by
  cases dir <;> ext <;> simp [addPacket, addBytes, packetStats, FlowStatsOf.ofNat, FlowStatsOf.map]

/-- **Insert and increment agree**: either way the key gains the packet, unless the map is full. -/
theorem val_countPacket {K : Type} [DecidableEq K] {m : BpfHash K FlowStats} {key : K}
    {len : UInt32} {dir : CgroupDirection} (hfull : ¬ m.Full key) :
    (countPacket m key len dir).val = Function.update m.val key
      (some ((m.val key).getD 0 + FlowStatsOf.ofNat (packetStats len dir))) := by
  unfold countPacket
  cases hp : m.lookupElem key with
  | none =>
      dsimp only
      -- a first record is zero and the packet
      rw [BpfHash.val_updateElem hfull, BpfHash.val_eq_none.mpr hp, initStats_eq]
      simp
  | some value =>
      have hv := BpfHash.val_of_lookupElem hp
      have h1 := BpfHash.val_modify (addBytes len dir) hp
      -- the second write goes through the pointer of the first
      have hp' : (m.modify value (addBytes len dir)).lookupElem key = some value := hp
      have hd : (m.modify value (addBytes len dir)).table.deref value
          = addBytes len dir (m.table.deref value) := PtrMap.deref_modify_self m.table _ hp
      dsimp only
      rw [BpfHash.val_modify _ hp', h1, Function.update_idem, hd, addPacket_addBytes, hv]
      rfl

theorem maxEntries_countPacket {K : Type} [DecidableEq K] (m : BpfHash K FlowStats) (key : K)
    (len : UInt32) (dir : CgroupDirection) :
    (countPacket m key len dir).maxEntries = m.maxEntries := by
  unfold countPacket
  cases m.lookupElem key <;> simp

end Kubpf.Kernel
