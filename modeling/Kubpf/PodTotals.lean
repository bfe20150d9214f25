import Kubpf.Lib.Layout
import Kubpf.System
import Kubpf.Kernel.Accounting
import Kubpf.Agent.Endpoints
import Kubpf.Agent.Merged

/-!
# From packets to pod totals

A pod's totals are meant to be what it sends and what it receives: the packets
seen at its own egress and at its own ingress. Follow the packets from the wire to
the pod's entry (keyed and counted by the kernel program, read by the first scan,
handed to the endpoints of their flow) and two stages of adding up collapse into
one sum over the packets.

In that sum a packet counts for the pod it names as its source and for the pod it
names as its destination, whichever side it was seen on. A packet between two
local pods is seen on both sides, so it counts twice for each of them
(`statsOf_pod`); the totals are right exactly for the pods that exchange nothing
with another local pod.
-/

namespace Kubpf

open Lib Kernel Agent

/-! ## The endpoints of a packet -/

/-- The address in the header's source field, as the agent prints it. -/
def headerSrc (skb : SkBuff) : String := ipString (octets4 skb.data 12)

/-- The address in the header's destination field. -/
def headerDst (skb : SkBuff) : String := ipString (octets4 skb.data 16)

/-- The agent writes out the octets that the kernel program loaded. -/
theorem putUint32_load32 (data : List UInt8) (off : Nat) :
    putUint32 (load32 data off) = octets4 data off := by
  have hread := Codec.le32.write_read (octets4 data off) (load32 data off) [] rfl
  rw [List.append_nil] at hread
  exact hread.symm

theorem getSrcIp_v4Key (skb : SkBuff) (dir : CgroupDirection) :
    getSrcIp (v4Key skb dir) = if dir = .ingress then headerSrc skb else headerDst skb := by
  cases dir
  · exact congrArg ipString (putUint32_load32 skb.data 12)
  · exact congrArg ipString (putUint32_load32 skb.data 16)

theorem getDstIp_v4Key (skb : SkBuff) (dir : CgroupDirection) :
    getDstIp (v4Key skb dir) = if dir = .ingress then headerDst skb else headerSrc skb := by
  cases dir
  · exact congrArg ipString (putUint32_load32 skb.data 16)
  · exact congrArg ipString (putUint32_load32 skb.data 12)

/-! ## What a pod's entry gains from a flow -/

/-- What a flow means for the pod at `ip`: its counters as they are if the pod is the source, and
turned around if it is the destination. -/
def podShare {A : Type} [AddCommMonoid A] (ip : String) (K : InetV4Flow) :
    FlowStatsOf A →+ FlowStatsOf A :=
  (if getSrcIp K = ip then AddMonoidHom.id _ else 0)
    + (if getDstIp K = ip then FlowStatsOf.swapHom else 0)

theorem podShare_apply {A : Type} [AddCommMonoid A] (ip : String) (K : InetV4Flow)
    (v : FlowStatsOf A) :
    podShare ip K v
      = (if getSrcIp K = ip then v else 0) + (if getDstIp K = ip then v.swap else 0) := by
  rw [podShare, AddMonoidHom.add_apply]
  refine congrArg₂ (· + ·) ?_ ?_
  · split_ifs <;> rfl
  · split_ifs <;> rfl

theorem ofNat_podShare (ip : String) (K : InetV4Flow) (x : FlowStatsOf Nat) :
    FlowStatsOf.ofNat (podShare ip K x) = podShare ip K (FlowStatsOf.ofNat x) := by
  rw [podShare_apply, podShare_apply, FlowStatsOf.ofNat_add]
  refine congrArg₂ (· + ·) ?_ ?_
  · split_ifs <;> rfl
  · split_ifs <;> rfl

section OnePod

variable {index : Index} {ip name : String}

theorem endpoint_of_pod (h : index.OneToOne) (hpod : index.podIpToName.lookup ip = some name) :
    index.endpoint ip = name := by
  have hsvc : index.svcIpToName.lookup ip = none := by
    have := h.1 ip
    rw [hpod] at this
    simpa using this
  have hname : name ≠ "" := by
    rintro rfl
    exact h.2.2 ip (Finmap.mem_keys.mpr (Finmap.lookup_isSome.mp (by rw [hpod]; rfl))) hpod
  rw [Index.endpoint, hsvc, hpod]
  exact if_neg hname

/-- Of the shares of an address, the pod's own entry gets the one the pod's address has. -/
theorem endpointShares_pod (h : index.OneToOne)
    (hpod : index.podIpToName.lookup ip = some name) (ip' : String) (swapped : Bool)
    (v : FlowStats) :
    ((sharesOf (endpointShares index ip' swapped) .pod ⟨(name, "")⟩).map fun sh => sh.part v).sum
      = if ip' = ip then (if swapped then v.swap else v) else 0 := by
  by_cases hip : ip' = ip
  · subst hip
    have hisPod : index.isPod ip' = true := by rw [Index.isPod, hpod]; rfl
    have hisSvc : index.isSvc ip' = false := by
      rw [← Bool.not_eq_true]
      exact fun hs => h.1 ip' ⟨hisPod, hs⟩
    have hkey : index.endpointKey ip' = ⟨(name, "")⟩ := by
      rw [Index.endpointKey, endpoint_of_pod h hpod]
    simp [endpointShares, sharesOf, hisPod, hisSvc, hkey, Share.part]
  · rw [if_neg hip]
    have hnone : sharesOf (endpointShares index ip' swapped) .pod ⟨(name, "")⟩ = [] := by
      rw [sharesOf, List.filter_eq_nil_iff]
      intro sh hsh hto
      obtain ⟨htable, hkey⟩ := of_decide_eq_true hto
      rcases List.mem_append.mp hsh with hsh | hsh
      · -- another pod, so another name
        split_ifs at hsh with hisPod
        · rw [List.mem_singleton.mp hsh] at hkey
          obtain ⟨name', hpod'⟩ := Option.isSome_iff_exists.mp hisPod
          rw [Index.endpointKey, endpoint_of_pod h hpod'] at hkey
          have hname : name' = name := by simpa using hkey
          refine hip (h.2.1 ip' ?_ ip ?_ (by rw [hpod', hpod, hname]))
          · exact Finmap.mem_keys.mpr (Finmap.lookup_isSome.mp (by rw [hpod']; rfl))
          · exact Finmap.mem_keys.mpr (Finmap.lookup_isSome.mp (by rw [hpod]; rfl))
        · exact absurd hsh List.not_mem_nil
      · split_ifs at hsh
        · rw [List.mem_singleton.mp hsh] at htable
          exact absurd htable (by simp)
        · exact absurd hsh List.not_mem_nil
    rw [hnone]
    rfl

/-- **What a flow adds to a pod's entry.** -/
theorem entryShare_pod (h : index.OneToOne)
    (hpod : index.podIpToName.lookup ip = some name) (K : InetV4Flow) (v : FlowStats) :
    entryShare index K .pod ⟨(name, "")⟩ v = podShare ip K v := by
  have hpair : sharesOf (if index.mixed K then [⟨.known, index.pairKey K, true⟩] else []) .pod
      ⟨(name, "")⟩ = [] := by
    split_ifs <;> simp [sharesOf]
  have happend : ∀ l l' : List Share, sharesOf (l ++ l') .pod ⟨(name, "")⟩
      = sharesOf l .pod ⟨(name, "")⟩ ++ sharesOf l' .pod ⟨(name, "")⟩ :=
    fun l l' => List.filter_append ..
  rw [entryShare, flowShares_eq h.1, happend, happend, hpair, List.append_nil, List.map_append,
    List.sum_append, endpointShares_pod h hpod, endpointShares_pod h hpod, podShare_apply]
  rfl

end OnePod

/-! ## What a pod's entry gains from a packet -/

/-- Packets on either side of a total. -/
def trafficTotals (sent received : SkBuff × CgroupDirection → Prop) [DecidablePred sent]
    [DecidablePred received] (pkts : List (SkBuff × CgroupDirection)) : FlowStatsOf Nat where
  outBytes := ((pkts.filter fun p => sent p).map fun p => p.1.len.toNat).sum
  outPackets := (pkts.filter fun p => sent p).length
  inBytes := ((pkts.filter fun p => received p).map fun p => p.1.len.toNat).sum
  inPackets := (pkts.filter fun p => received p).length

/-- What a pod sends and receives: packets from it at egress, and to it at ingress. -/
def podTotals (ip : String) (pkts : List (SkBuff × CgroupDirection)) : FlowStatsOf Nat :=
  trafficTotals (fun p => p.2 = .egress ∧ headerSrc p.1 = ip)
    (fun p => p.2 = .ingress ∧ headerDst p.1 = ip) pkts

/-- The same traffic seen at other pods: packets from the pod at ingress, and to it at egress. -/
def peerTotals (ip : String) (pkts : List (SkBuff × CgroupDirection)) : FlowStatsOf Nat :=
  trafficTotals (fun p => p.2 = .ingress ∧ headerSrc p.1 = ip)
    (fun p => p.2 = .egress ∧ headerDst p.1 = ip) pkts

theorem trafficTotals_cons (sent received : SkBuff × CgroupDirection → Prop)
    [DecidablePred sent] [DecidablePred received] (p : SkBuff × CgroupDirection)
    (ps : List (SkBuff × CgroupDirection)) :
    trafficTotals sent received (p :: ps)
      = (if sent p then packetStats p.1.len .ingress else 0)
        + (if received p then packetStats p.1.len .egress else 0)
        + trafficTotals sent received ps := by
  by_cases hs : sent p <;> by_cases hr : received p <;> ext <;>
    simp [trafficTotals, packetStats, hs, hr, Nat.add_comm]

/-- **A packet counts for its source and for its destination**, whichever side it is seen on. -/
theorem podShare_packet (ip : String) (skb : SkBuff) (dir : CgroupDirection) :
    podShare ip (v4Key skb dir) (packetStats skb.len dir)
      = (if headerSrc skb = ip then packetStats skb.len .ingress else 0)
        + (if headerDst skb = ip then packetStats skb.len .egress else 0) := by
  rw [podShare_apply, getSrcIp_v4Key, getDstIp_v4Key]
  cases dir with
  | ingress => rfl
  | egress => exact add_comm _ _

/-- Seen on its own side, or on its peer's. -/
theorem sum_podShare (ip : String) (pkts : List (SkBuff × CgroupDirection)) :
    (pkts.map fun p => podShare ip (v4Key p.1 p.2) (packetStats p.1.len p.2)).sum
      = podTotals ip pkts + peerTotals ip pkts := by
  induction pkts with
  | nil => rfl
  | cons p ps ih =>
      obtain ⟨skb, dir⟩ := p
      rw [List.map_cons, List.sum_cons, ih, podShare_packet]
      cases dir with
      | ingress =>
          simp only [podTotals, peerTotals, trafficTotals_cons, reduceCtorEq, true_and, false_and,
            if_false, zero_add, add_zero]
          rw [add_comm (ite _ _ _), add_add_add_comm]
      | egress =>
          simp only [podTotals, peerTotals, trafficTotals_cons, reduceCtorEq, true_and, false_and,
            if_false, zero_add, add_zero]
          exact add_add_add_comm ..

/-! ## One scan after the packets -/

/-- The packets as steps of the world. -/
def packetLabels (pkts : List (SkBuff × CgroupDirection)) : List Label :=
  pkts.map fun p => .packet p.1 p.2

theorem run_packetLabels (pkts : List (SkBuff × CgroupDirection)) (w : World) :
    ∃ trace, run World.step w (packetLabels pkts) = some
      { maps := readPackets pkts w.maps, agent := { w.agent with trace := trace } } := by
  induction pkts generalizing w with
  | nil => exact ⟨w.agent.trace, rfl⟩
  | cons p ps ih =>
      obtain ⟨trace, htrace⟩ := ih
        { maps := bpfFlowReader p.1 p.2 w.maps
          agent := { w.agent with trace := countedBy w.maps p.1 p.2 ++ w.agent.trace } }
      exact ⟨trace, htrace⟩

section OneScan

variable {index : Index} {pkts : List (SkBuff × CgroupDirection)} {input : ScanInput} {w : World}

/-- **The first scan** reads the map the packets have left, and every entry holds its shares of
what is read. -/
theorem first_scan
    (hrun : run World.step (World.init index) (packetLabels pkts ++ [.scan input]) = some w) :
    ReadsMap (readPackets pkts FlowMaps.empty).v4FlowMap input.reports ∧
    ∀ T k, w.agent.metric.statsOf T k
      = (input.reports.map fun r => entryShare index r.1 T k r.2).sum := by
  obtain ⟨w₁, hpackets, hrest⟩ := run_append_eq_some hrun
  obtain ⟨trace, htrace⟩ := run_packetLabels pkts (World.init index)
  have hw₁ := Option.some.inj (hpackets.symm.trans htrace)
  subst hw₁
  obtain ⟨w₂, hscan, hnil⟩ := run_cons_eq_some hrest
  rw [run_nil] at hnil
  have hw₂ := Option.some.inj hnil
  subst hw₂
  cases World.step_inv hscan with
  | scan _ hreads horder =>
      refine ⟨hreads, fun T k => ?_⟩
      have hzero : (freshAgent index).metric.statsOf T k = 0 := by cases T <;> rfl
      refine (statsOf_finishScan horder T k).trans ?_
      refine (statsOf_scanFlows hreads.1 (fun r _ => PtrMap.val_empty r.1) T k).trans ?_
      exact (congrArg (· + _) hzero).trans (zero_add _)

/-- What the scan is told of a flow is what its packets add up to. -/
theorem report_eq_tally {m : BpfHash InetV4Flow FlowStats}
    {h : List (InetV4Flow × FlowStatsOf Nat)} (ht : Tracks m h)
    {reports : List (InetV4Flow × FlowStats)} (hreads : ReadsMap m reports)
    {r : InetV4Flow × FlowStats} (hr : r ∈ reports) : r.2 = FlowStatsOf.ofNat (tally h r.1) := by
  have hval := (ht r.1).symm.trans (hreads.2.1 r hr)
  rw [tallied] at hval
  split_ifs at hval
  · exact (Option.some.inj hval).symm
  · exact absurd hval (by simp)

theorem inScope_of_counted (hcounted : ∀ p ∈ pkts, CountedV4 p.1) :
    ∀ p ∈ pkts, InScope p.1 := fun p hp => Or.inl (hcounted p hp).1

/-- Nothing is counted but the packets' own IPv4 keys, and these fit. -/
theorem neverFull_of_room (hcounted : ∀ p ∈ pkts, CountedV4 p.1)
    (hroom : (keysOf CountedV4 v4Key pkts).card ≤ v4FlowMapSize) : NeverFull pkts := by
  refine ⟨?_, ?_⟩
  · rw [v4History_eq (inScope_of_counted hcounted), historyKeys, List.map_map]
    exact hroom
  · have hnone : v6History pkts = [] := by
      rw [v6History, history, List.filterMap_eq_nil_iff]
      intro p hp
      rw [flowKey_v4 (hcounted p hp)]
      rfl
    rw [hnone]
    exact Nat.zero_le _

/-- The history of the IPv4 map is the list of packets. -/
theorem v4History_of_counted (hcounted : ∀ p ∈ pkts, CountedV4 p.1) :
    v4History pkts = pkts.map fun p => (v4Key p.1 p.2, packetStats p.1.len p.2) := by
  rw [v4History_eq (inScope_of_counted hcounted), List.filter_eq_self.mpr]
  intro p hp
  exact decide_eq_true (hcounted p hp)

/-- **A pod's entry after the first scan**: what the pod sent and received, and the same traffic
once more as its local peers saw it. -/
theorem statsOf_pod (hindex : index.OneToOne) (hcounted : ∀ p ∈ pkts, CountedV4 p.1)
    (hroom : (keysOf CountedV4 v4Key pkts).card ≤ v4FlowMapSize)
    (hrun : run World.step (World.init index) (packetLabels pkts ++ [.scan input]) = some w)
    {ip name : String} (hpod : index.podIpToName.lookup ip = some name) :
    w.agent.metric.statsOf .pod ⟨(name, "")⟩
      = FlowStatsOf.ofNat (podTotals ip pkts + peerTotals ip pkts) := by
  obtain ⟨hreads, hstats⟩ := first_scan hrun
  have htracks := (readPackets_tracks (neverFull_of_room hcounted hroom)).v4
  have hcover : ∀ e ∈ v4History pkts, e.1 ∈ input.reports.map Prod.fst := by
    intro e he
    refine hreads.2.2 e.1 ?_
    rw [htracks.keys, historyKeys, List.mem_toFinset]
    exact List.mem_map_of_mem he
  calc w.agent.metric.statsOf .pod ⟨(name, "")⟩
      = (input.reports.map fun r => entryShare index r.1 .pod ⟨(name, "")⟩ r.2).sum :=
        hstats .pod ⟨(name, "")⟩
    _ = (input.reports.map fun r =>
          FlowStatsOf.ofNat (podShare ip r.1 (tally (v4History pkts) r.1))).sum := by
        refine congrArg List.sum (List.map_congr_left fun r hr => ?_)
        rw [entryShare_pod hindex hpod, ofNat_podShare, report_eq_tally htracks hreads hr]
    _ = FlowStatsOf.ofNat ((input.reports.map Prod.fst).map fun K =>
          podShare ip K (tally (v4History pkts) K)).sum := by
        rw [FlowStatsOf.ofNat_sum, List.map_map, List.map_map]
        simp only [Function.comp_def]
    _ = FlowStatsOf.ofNat ((v4History pkts).map fun e => podShare ip e.1 e.2).sum := by
        rw [sum_tally (podShare ip) (v4History pkts) hreads.1 hcover]
    _ = FlowStatsOf.ofNat (podTotals ip pkts + peerTotals ip pkts) := by
        rw [v4History_of_counted hcounted, List.map_map]
        simp only [Function.comp_def]
        rw [sum_podShare]

end OneScan

/-! ## When the totals are right -/

/-- No packet of the pod's is seen at another pod: none from it at ingress, none to it at
egress. -/
def NoLocalPeer (ip : String) (pkts : List (SkBuff × CgroupDirection)) : Prop :=
  ∀ p ∈ pkts, ¬ (p.2 = .ingress ∧ headerSrc p.1 = ip) ∧ ¬ (p.2 = .egress ∧ headerDst p.1 = ip)

instance (ip : String) (pkts : List (SkBuff × CgroupDirection)) :
    Decidable (NoLocalPeer ip pkts) :=
  inferInstanceAs (Decidable (∀ p ∈ pkts, _ ∧ _))

/-- The pod's entry holds these totals in 64-bit counters, hence exactly if they fit. -/
def CountsPod (w : World) (name : String) (total : FlowStatsOf Nat) : Prop :=
  w.agent.metric.statsOf .pod ⟨(name, "")⟩ = FlowStatsOf.ofNat total ∧
  (total.Fits → (w.agent.metric.statsOf .pod ⟨(name, "")⟩).toNat = total)

theorem peerTotals_packets (ip : String) (pkts : List (SkBuff × CgroupDirection)) :
    FlowStatsOf.packets (peerTotals ip pkts) ≤ pkts.length ∧
    (FlowStatsOf.packets (peerTotals ip pkts) = 0 ↔ NoLocalPeer ip pkts) := by
  induction pkts with
  | nil => exact ⟨Nat.le_refl _, fun _ p hp => absurd hp List.not_mem_nil, fun _ => rfl⟩
  | cons p ps ih =>
      obtain ⟨hle, hzero⟩ := ih
      have hnone : FlowStatsOf.packets 0 = 0 := rfl
      have hcons : NoLocalPeer ip (p :: ps)
          ↔ (¬ (p.2 = .ingress ∧ headerSrc p.1 = ip) ∧ ¬ (p.2 = .egress ∧ headerDst p.1 = ip))
            ∧ NoLocalPeer ip ps := List.forall_mem_cons
      rw [hcons, ← hzero, List.length_cons]
      have hsplit := trafficTotals_cons (fun p => p.2 = .ingress ∧ headerSrc p.1 = ip)
        (fun p => p.2 = .egress ∧ headerDst p.1 = ip) p ps
      rw [← peerTotals, ← peerTotals] at hsplit
      rw [hsplit, FlowStatsOf.packets_add, FlowStatsOf.packets_add]
      -- a packet has one direction, so it is on one of the two sides at most
      by_cases hin : p.2 = .ingress ∧ headerSrc p.1 = ip
      · have hout : ¬ (p.2 = .egress ∧ headerDst p.1 = ip) := by
          rw [hin.1]
          simp
        rw [if_pos hin, if_neg hout, packets_packetStats, hnone]
        exact ⟨by omega, by omega, fun h => absurd hin h.1.1⟩
      · rw [if_neg hin]
        by_cases hout : p.2 = .egress ∧ headerDst p.1 = ip
        · rw [if_pos hout, packets_packetStats, hnone]
          exact ⟨by omega, by omega, fun h => absurd hout h.1.2⟩
        · rw [if_neg hout, hnone]
          exact ⟨by omega, fun h => ⟨⟨hin, hout⟩, by omega⟩, fun h => by omega⟩

/-- Traffic without a packet is nothing. -/
theorem peerTotals_eq_zero {ip : String} {pkts : List (SkBuff × CgroupDirection)}
    (h : NoLocalPeer ip pkts) : peerTotals ip pkts = 0 := by
  have hs : (pkts.filter fun p => p.2 = .ingress ∧ headerSrc p.1 = ip) = [] := by
    rw [List.filter_eq_nil_iff]
    exact fun p hp hto => (h p hp).1 (of_decide_eq_true hto)
  have hr : (pkts.filter fun p => p.2 = .egress ∧ headerDst p.1 = ip) = [] := by
    rw [List.filter_eq_nil_iff]
    exact fun p hp hto => (h p hp).2 (of_decide_eq_true hto)
  rw [peerTotals, trafficTotals, hs, hr]
  rfl

/--
**A pod's totals are right exactly when it has no local peer.**

Any IPv4 packets the program counts, in any order and on either side, from empty
maps with room for their keys; then one scan by a new agent. If no packet of the
pod's is seen at another pod, its entry holds what it sent at egress and received
at ingress; and with fewer than `2 ^ 64` packets, only then.
-/
theorem pod_totals_correct_iff (index : Index) (hindex : index.OneToOne)
    (pkts : List (SkBuff × CgroupDirection)) (hcounted : ∀ p ∈ pkts, CountedV4 p.1)
    (hroom : (keysOf CountedV4 v4Key pkts).card ≤ v4FlowMapSize) (input : ScanInput) (w : World)
    (hrun : run World.step (World.init index) (packetLabels pkts ++ [.scan input]) = some w)
    (ip name : String) (hpod : index.podIpToName.lookup ip = some name) :
    (NoLocalPeer ip pkts → CountsPod w name (podTotals ip pkts)) ∧
    (pkts.length < 2 ^ 64 → CountsPod w name (podTotals ip pkts) → NoLocalPeer ip pkts) := by
  have hstats := statsOf_pod hindex hcounted hroom hrun hpod
  refine ⟨?_, ?_⟩
  · intro halone
    rw [peerTotals_eq_zero halone, add_zero] at hstats
    exact ⟨hstats, fun hfits => by rw [hstats]; exact FlowStatsOf.toNat_ofNat hfits⟩
  · intro hfew hcount
    obtain ⟨hle, hiff⟩ := peerTotals_packets ip pkts
    -- what the peers saw is nothing modulo 2 ^ 64, and there are too few packets for more
    rw [FlowStatsOf.ofNat_add] at hstats
    exact hiff.mp (FlowStatsOf.packets_eq_zero_of_add_eq (hcount.1.symm.trans hstats) (by omega))

/-- A question to the name server and its answer, as the asking pod sees them. -/
def questionAndAnswer : List (SkBuff × CgroupDirection) :=
  [(udpPacket [10, 244, 0, 5] [10, 96, 0, 10] [0xc0, 0, 0, 53] 60, .egress),
   (udpPacket [10, 96, 0, 10] [10, 244, 0, 5] [0, 53, 0xc0, 0] 92, .ingress)]

/-- The scan that finds them. -/
def questionScan : ScanInput where
  t := 1
  reports := [(answerFlow, ⟨92, 1, 60, 1⟩)]
  podOrder := [⟨("default/client", "")⟩]
  svcOrder := [⟨("kube-system/dns/clusterIp", "")⟩]
  knownOrder := [⟨("kube-system/dns/clusterIp", "default/client")⟩]

theorem pod_totals_correct_iff_answer :
    ∃ w, run World.step (World.init clientIndex)
        (packetLabels questionAndAnswer ++ [.scan questionScan]) = some w ∧
      CountsPod w "default/client" ⟨60, 1, 92, 1⟩ :=
  ⟨_, rfl, (pod_totals_correct_iff clientIndex (by decide) questionAndAnswer (by decide)
    (by decide) questionScan _ rfl "10.244.0.5" "default/client" rfl).1 (by decide)⟩

/-- Two local pods. -/
def twoPods : Index where
  podInfo := ∅
  podIpToName := (Finmap.singleton "10.244.0.5" "default/client").insert "10.244.0.6" "default/server"
  svcInfo := ∅
  svcIpToName := ∅

/-- One packet from the one to the other, seen where it leaves and where it arrives. -/
def localPacket : List (SkBuff × CgroupDirection) :=
  [(udpPacket [10, 244, 0, 5] [10, 244, 0, 6] [0xc0, 0, 0, 53] 60, .egress),
   (udpPacket [10, 244, 0, 5] [10, 244, 0, 6] [0xc0, 0, 0, 53] 60, .ingress)]

/-- The scan that finds it under two keys. -/
def localScan : ScanInput where
  t := 1
  reports := [(⟨0x0600f40a, 0x0500f40a, ⟨17, .replicate 3 0, 0x3500, 0x00c0⟩⟩, ⟨0, 0, 60, 1⟩),
    (⟨0x0500f40a, 0x0600f40a, ⟨17, .replicate 3 0, 0x00c0, 0x3500⟩⟩, ⟨60, 1, 0, 0⟩)]
  podOrder := [⟨("default/client", "")⟩, ⟨("default/server", "")⟩]
  svcOrder := []
  knownOrder := []

/-- It counts twice for the sender. -/
theorem local_packet_counted_twice :
    twoPods.OneToOne ∧ (∀ p ∈ localPacket, CountedV4 p.1) ∧
    podTotals "10.244.0.5" localPacket = ⟨60, 1, 0, 0⟩ ∧
    ∃ w, run World.step (World.init twoPods) (packetLabels localPacket ++ [.scan localScan])
        = some w ∧
      w.agent.metric.statsOf .pod ⟨("default/client", "")⟩ = ⟨120, 2, 0, 0⟩ :=
  ⟨by decide, by decide, by decide, _, rfl, by decide⟩

end Kubpf
