import Kubpf.Lib.Pruning
import Kubpf.Kernel.FlowStore

/-!
# Flows deleted while packets are counted

The agent deletes idle flows from the IPv4 map one call at a time, and the kernel
program goes on counting: packets of flows that are gone, of flows that go next,
and of new flows that take the room of the deleted ones. Each of the two maps is
a hash map with packets for events, so that the deletions come to one moment
(`deletions_at_once`). The IPv6 map has no part in them, but the packets of its
flows must keep their order too.
-/

namespace Kubpf.Kernel

open Lib

/-! ## Each map on its own -/

section

variable {K : Type} [DecidableEq K]

/-- A flow map, with packets for events; `proj` picks its keys. -/
def flowWriter (proj : FlowMapKey → Option K) :
    MapWriter (SkBuff × CgroupDirection) K FlowStats where
  act m p :=
    match (flowKey p.1 p.2).bind proj with
    | none => m
    | some key => countPacket m key p.1.len p.2
  key p := (flowKey p.1 p.2).bind proj
  write p v := v.getD 0 + FlowStatsOf.ofNat (packetStats p.1.len p.2)
  act_none h := by simp only [h]
  act_full h hfull := by
    simp only [h]
    exact countPacket_of_full hfull _ _
  maxEntries_act m p := by
    split
    · rfl
    · exact maxEntries_countPacket ..
  val_act h hroom := by
    simp only [h]
    exact val_countPacket hroom

abbrev v4Writer : MapWriter (SkBuff × CgroupDirection) InetV4Flow FlowStats :=
  flowWriter Sum.getLeft?

abbrev v6Writer : MapWriter (SkBuff × CgroupDirection) InetV6Flow FlowStats :=
  flowWriter Sum.getRight?

end

/-- The kernel program writes one map or the other, or neither. -/
theorem bpfFlowReader_eq (maps : FlowMaps) (p : SkBuff × CgroupDirection) :
    bpfFlowReader p.1 p.2 maps = ⟨v4Writer.act maps.v4FlowMap p, v6Writer.act maps.v6FlowMap p⟩ := by
  unfold bpfFlowReader v4Writer v6Writer flowWriter
  dsimp only
  cases flowKey p.1 p.2 with
  | none => rfl
  | some key => cases key <;> rfl

theorem readPackets_eq (maps : FlowMaps) (pkts : List (SkBuff × CgroupDirection)) :
    readPackets pkts maps
      = ⟨v4Writer.acts maps.v4FlowMap pkts, v6Writer.acts maps.v6FlowMap pkts⟩ := by
  induction pkts generalizing maps with
  | nil => rfl
  | cons p pkts ih =>
      have hcons : readPackets (p :: pkts) maps = readPackets pkts (bpfFlowReader p.1 p.2 maps) := rfl
      rw [hcons, bpfFlowReader_eq]
      exact ih _

/-! ## Both maps -/

/-- What happens to the maps: a packet is counted, or an IPv4 flow is deleted. -/
abbrev MapOp := MapWriter.Op (SkBuff × CgroupDirection) InetV4Flow

/-- One operation. -/
def FlowMaps.op (maps : FlowMaps) : MapOp → FlowMaps
  | .event p => bpfFlowReader p.1 p.2 maps
  | .delete key => { maps with v4FlowMap := maps.v4FlowMap.deleteElem key }

/-- One operation after another. -/
def FlowMaps.ops (maps : FlowMaps) (os : List MapOp) : FlowMaps := os.foldl FlowMaps.op maps

/-- The packets among the operations. -/
def opPackets (os : List MapOp) : List (SkBuff × CgroupDirection) :=
  os.filterMap MapWriter.Op.event?

theorem ops_eq (maps : FlowMaps) (os : List MapOp) :
    maps.ops os
      = ⟨v4Writer.ops maps.v4FlowMap os, v6Writer.acts maps.v6FlowMap (opPackets os)⟩ := by
  induction os generalizing maps with
  | nil => rfl
  | cons o os ih =>
      have hops : maps.ops (o :: os) = (maps.op o).ops os := rfl
      rw [hops]
      cases o with
      | event p =>
          rw [FlowMaps.op, bpfFlowReader_eq]
          exact ih _
      | delete key => exact ih _

/-- The IPv6 map goes by the packets that are not counted under IPv4. -/
theorem v6_acts_filter (m : BpfHash InetV6Flow FlowStats)
    (pkts : List (SkBuff × CgroupDirection)) :
    v6Writer.acts m (pkts.filter fun p => v4Writer.key p = none) = v6Writer.acts m pkts := by
  induction pkts generalizing m with
  | nil => rfl
  | cons p pkts ih =>
      rw [List.filter_cons, MapWriter.acts_cons]
      split_ifs with hp
      · exact ih _
      · have hnone : v6Writer.key p = none := by
          rw [decide_eq_true_eq] at hp
          unfold v4Writer flowWriter at hp
          unfold v6Writer flowWriter
          dsimp only at hp ⊢
          cases hkey : flowKey p.1 p.2 with
          | none => rfl
          | some key =>
              rw [hkey] at hp
              cases key with
              | inl v4Key => rfl
              | inr v6Key => exact absurd rfl hp
        rw [v6Writer.act_none hnone]
        exact ih m

/-- Packets in the same order for each IPv4 flow, and for all others together, are so for each
flow. -/
theorem filter_flowKey {pkts pkts' : List (SkBuff × CgroupDirection)}
    (h : ∀ o, pkts.filter (fun p => v4Writer.key p = o)
      = pkts'.filter fun p => v4Writer.key p = o) (o : Option FlowMapKey) :
    pkts.filter (fun p => flowKey p.1 p.2 = o) = pkts'.filter fun p => flowKey p.1 p.2 = o := by
  have hsub : ∀ p : SkBuff × CgroupDirection,
      decide (flowKey p.1 p.2 = o)
        = (decide (flowKey p.1 p.2 = o) && decide (v4Writer.key p = o.bind Sum.getLeft?)) := by
    intro p
    by_cases hp : flowKey p.1 p.2 = o
    · have hkey : v4Writer.key p = o.bind Sum.getLeft? := congrArg (Option.bind · Sum.getLeft?) hp
      rw [decide_eq_true hkey, Bool.and_true]
    · rw [decide_eq_false hp, Bool.false_and]
  simp only [funext hsub]
  rw [← List.filter_filter, ← List.filter_filter, h]

/-- **Deletions of flows, one at a time alongside packets, come to one moment.** The packets that
come before it and those that come after are those counted, each flow's in the same order. -/
theorem deletions_at_once (maps : FlowMaps) (os : List MapOp) :
    ∃ (before after : List (SkBuff × CgroupDirection)) (ks : List InetV4Flow),
      (∀ k ∈ ks, .delete k ∈ os) ∧
      (∀ o, (before ++ after).filter (fun p => flowKey p.1 p.2 = o)
        = (opPackets os).filter fun p => flowKey p.1 p.2 = o) ∧
      (maps.ops os).Same (readPackets after
        { readPackets before maps with
          v4FlowMap := (readPackets before maps).v4FlowMap.deleteElems ks }) := by
  obtain ⟨before, after, ks, hks, hfilter, hsame⟩ := v4Writer.exists_moment maps.v4FlowMap os
  refine ⟨before, after, ks, hks, filter_flowKey hfilter, ?_⟩
  rw [ops_eq, readPackets_eq, readPackets_eq]
  refine ⟨hsame, ?_⟩
  dsimp only
  rw [← MapWriter.acts_append, ← v6_acts_filter, ← v6_acts_filter _ (before ++ after), hfilter none]
  exact BpfHash.same_equiv.refl _

end Kubpf.Kernel
