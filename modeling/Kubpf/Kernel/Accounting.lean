import Kubpf.Lib.Tally
import Kubpf.Kernel.Formats

/-!
# The maps hold exactly the traffic

The entry of a key adds up the packets that have it, ingress on one side and
egress on the other. The invariant is `Tracks`: a map holds the totals of the
history of counted packets, key by key, and has entries for those keys only.
Insert and increment need no separate treatment, since `val_countPacket` already
says they do the same thing; what remains is that a map whose keys fit is never
full when a counted packet arrives.
-/

namespace Kubpf.Kernel

open Lib

/-! ## Every counted packet extends the history of its map -/

/-- A map holds the 64-bit totals of a history, and entries for the keys it mentions only. -/
def Tracks {K : Type} [DecidableEq K] (m : BpfHash K FlowStats) (h : List (K × FlowStatsOf Nat)) :
    Prop :=
  ∀ k, m.val k = (tallied h k).map FlowStatsOf.ofNat

/-- The packets counted under one family's keys, `sel` picking the family. -/
def history {K : Type} (sel : InetV4Flow ⊕ InetV6Flow → Option K)
    (pkts : List (SkBuff × CgroupDirection)) : List (K × FlowStatsOf Nat) :=
  pkts.filterMap fun p =>
    ((flowKey p.1 p.2).bind sel).map fun k => (k, packetStats p.1.len p.2)

/-- The history of `v4_flow_map`. -/
abbrev v4History (pkts : List (SkBuff × CgroupDirection)) : List (InetV4Flow × FlowStatsOf Nat) :=
  history Sum.getLeft? pkts

/-- The history of `v6_flow_map`. -/
abbrev v6History (pkts : List (SkBuff × CgroupDirection)) : List (InetV6Flow × FlowStatsOf Nat) :=
  history Sum.getRight? pkts

theorem v4History_append (ps qs : List (SkBuff × CgroupDirection)) :
    v4History (ps ++ qs) = v4History ps ++ v4History qs := List.filterMap_append ..

theorem v6History_append (ps qs : List (SkBuff × CgroupDirection)) :
    v6History (ps ++ qs) = v6History ps ++ v6History qs := List.filterMap_append ..

section

variable {K : Type} [DecidableEq K]

/-- The distinct keys of a history. -/
def historyKeys (h : List (K × FlowStatsOf Nat)) : Finset K := (h.map Prod.fst).toFinset

theorem Tracks.keys {m : BpfHash K FlowStats} {h : List (K × FlowStatsOf Nat)} (ht : Tracks m h) :
    m.table.keys = historyKeys h := by
  ext k
  rw [BpfHash.mem_keys, ht k, Option.isSome_map, historyKeys, List.mem_toFinset, tallied]
  by_cases hk : k ∈ h.map Prod.fst <;> simp [hk]

/-- **One counted packet.** As long as the longer history still fits, so does its key. -/
theorem Tracks.countPacket {m : BpfHash K FlowStats} {h : List (K × FlowStatsOf Nat)}
    (ht : Tracks m h) {key : K} {len : UInt32} {dir : CgroupDirection}
    (hfit : (historyKeys (h ++ [(key, packetStats len dir)])).card ≤ m.maxEntries) :
    Tracks (countPacket m key len dir) (h ++ [(key, packetStats len dir)]) := by
  have hfull : ¬ m.Full key := by
    -- the keys present, and the new one, are among those that fit
    refine BpfHash.not_full_of_subset ?_ ?_ hfit
    · rw [ht.keys]
      intro k hk
      simp only [historyKeys, List.map_append, List.mem_toFinset, List.mem_append] at hk ⊢
      exact Or.inl hk
    · simp [historyKeys]
  intro k
  rw [val_countPacket hfull, tallied_snoc]
  by_cases hk : k = key
  · subst hk
    rw [Function.update_self, Function.update_self, ht k]
    cases tallied h k <;> simp
  · rw [Function.update_of_ne hk, Function.update_of_ne hk]
    exact ht k

theorem historyKeys_mono {h h' : List (K × FlowStatsOf Nat)} :
    (historyKeys h).card ≤ (historyKeys (h ++ h')).card := by
  refine Finset.card_le_card ?_
  intro k hk
  simp only [historyKeys, List.map_append, List.mem_toFinset, List.mem_append] at hk ⊢
  exact Or.inl hk

end

/-- Both maps track what has been presented so far. -/
structure TracksBoth (maps : FlowMaps) (pkts : List (SkBuff × CgroupDirection)) : Prop where
  v4 : Tracks maps.v4FlowMap (v4History pkts)
  v6 : Tracks maps.v6FlowMap (v6History pkts)
  size4 : maps.v4FlowMap.maxEntries = v4FlowMapSize
  size6 : maps.v6FlowMap.maxEntries = v6FlowMapSize

theorem tracksBoth_empty : TracksBoth FlowMaps.empty [] where
  v4 := fun k => BpfHash.val_empty _ k
  v6 := fun k => BpfHash.val_empty _ k
  size4 := rfl
  size6 := rfl

/-- The histories never outgrow the maps. -/
def NeverFull (pkts : List (SkBuff × CgroupDirection)) : Prop :=
  (historyKeys (v4History pkts)).card ≤ v4FlowMapSize
    ∧ (historyKeys (v6History pkts)).card ≤ v6FlowMapSize

instance (pkts : List (SkBuff × CgroupDirection)) : Decidable (NeverFull pkts) :=
  inferInstanceAs (Decidable (_ ∧ _))

theorem NeverFull.prefix {ps qs : List (SkBuff × CgroupDirection)} (h : NeverFull (ps ++ qs)) :
    NeverFull ps := by
  obtain ⟨h4, h6⟩ := h
  rw [v4History_append] at h4
  rw [v6History_append] at h6
  exact ⟨Nat.le_trans historyKeys_mono h4, Nat.le_trans historyKeys_mono h6⟩

/-- **One invocation of the program extends the histories by its packet.** -/
theorem tracksBoth_step {maps : FlowMaps} {pkts : List (SkBuff × CgroupDirection)}
    (ht : TracksBoth maps pkts) {skb : SkBuff} {dir : CgroupDirection}
    (hfit : NeverFull (pkts ++ [(skb, dir)])) :
    TracksBoth (bpfFlowReader skb dir maps) (pkts ++ [(skb, dir)]) := by
  obtain ⟨hfit4, hfit6⟩ := hfit
  rw [v4History_append] at hfit4
  rw [v6History_append] at hfit6
  unfold bpfFlowReader
  cases hkey : flowKey skb dir with
  | none =>
      have h4 : v4History [(skb, dir)] = [] := by simp [history, hkey]
      have h6 : v6History [(skb, dir)] = [] := by simp [history, hkey]
      refine ⟨?_, ?_, ht.size4, ht.size6⟩
      · rw [v4History_append, h4, List.append_nil]; exact ht.v4
      · rw [v6History_append, h6, List.append_nil]; exact ht.v6
  | some key =>
      -- one map is extended, and the other history gains nothing
      cases key with
      | inl key4 =>
          have h4 : v4History [(skb, dir)] = [(key4, packetStats skb.len dir)] := by
            simp [history, hkey]
          have h6 : v6History [(skb, dir)] = [] := by simp [history, hkey]
          rw [h4, ← ht.size4] at hfit4
          refine ⟨?_, ?_, ?_, ht.size6⟩
          · rw [v4History_append, h4]; exact ht.v4.countPacket hfit4
          · rw [v6History_append, h6, List.append_nil]; exact ht.v6
          · exact (maxEntries_countPacket ..).trans ht.size4
      | inr key6 =>
          have h4 : v4History [(skb, dir)] = [] := by simp [history, hkey]
          have h6 : v6History [(skb, dir)] = [(key6, packetStats skb.len dir)] := by
            simp [history, hkey]
          rw [h6, ← ht.size6] at hfit6
          refine ⟨?_, ?_, ht.size4, ?_⟩
          · rw [v4History_append, h4, List.append_nil]; exact ht.v4
          · rw [v6History_append, h6]; exact ht.v6.countPacket hfit6
          · exact (maxEntries_countPacket ..).trans ht.size6

theorem tracksBoth_run (qs : List (SkBuff × CgroupDirection)) :
    ∀ {maps : FlowMaps} {ps : List (SkBuff × CgroupDirection)}, TracksBoth maps ps →
      NeverFull (ps ++ qs) → TracksBoth (readPackets qs maps) (ps ++ qs) := by
  induction qs with
  | nil => intro maps ps ht _; rw [List.append_nil]; exact ht
  | cons p qs ih =>
      intro maps ps ht hfit
      have hsplit : ps ++ p :: qs = (ps ++ [p]) ++ qs := by simp
      rw [hsplit] at hfit ⊢
      exact ih (tracksBoth_step ht hfit.prefix) hfit

/-- **From empty maps that never fill up, the maps tally the packets presented.** -/
theorem readPackets_tracks {pkts : List (SkBuff × CgroupDirection)} (hfit : NeverFull pkts) :
    TracksBoth (readPackets pkts FlowMaps.empty) pkts :=
  tracksBoth_run pkts tracksBoth_empty hfit

/-! ## The histories, by the packet formats -/

/-- What packets add up to: ingress on the out side, egress on the in side. -/
def totals (pkts : List (SkBuff × CgroupDirection)) : FlowStatsOf Nat where
  outBytes := ((pkts.filter (fun p => p.2 = .ingress)).map (fun p => p.1.len.toNat)).sum
  outPackets := (pkts.filter (fun p => p.2 = .ingress)).length
  inBytes := ((pkts.filter (fun p => p.2 = .egress)).map (fun p => p.1.len.toNat)).sum
  inPackets := (pkts.filter (fun p => p.2 = .egress)).length

theorem totals_eq_sum (pkts : List (SkBuff × CgroupDirection)) :
    totals pkts = (pkts.map (fun p => packetStats p.1.len p.2)).sum := by
  induction pkts with
  | nil => rfl
  | cons p ps ih =>
      obtain ⟨skb, dir⟩ := p
      rw [List.map_cons, List.sum_cons, ← ih]
      cases dir <;> ext <;> simp [totals, packetStats, Nat.add_comm]

/-- A well-formed IPv4 or IPv6 packet, or one that fails a bounds check of the program. -/
def InScope (skb : SkBuff) : Prop := WellFormedV4 skb ∨ WellFormedV6 skb ∨ FailsBounds skb

instance (skb : SkBuff) : Decidable (InScope skb) := inferInstanceAs (Decidable (_ ∨ _))

/-- A packet in scope is counted as IPv4, counted as IPv6, or gets no key. -/
theorem InScope.cases {skb : SkBuff} (h : InScope skb) :
    CountedV4 skb ∨ CountedV6 skb ∨ ∀ dir, flowKey skb dir = none := by
  rcases h with h4 | h6 | hf
  · by_cases hl : LoopbackV4 skb
    · exact Or.inr (Or.inr (flowKey_none (Or.inr (Or.inl hl))))
    · exact Or.inl ⟨h4, hl⟩
  · by_cases hl : LoopbackV6 skb
    · exact Or.inr (Or.inr (flowKey_none (Or.inr (Or.inr hl))))
    · exact Or.inr (Or.inl ⟨h6, hl⟩)
  · exact Or.inr (Or.inr (flowKey_none (Or.inl hf)))

section

variable {K : Type} [DecidableEq K]

/-- The packets among `pkts` that satisfy `C` and have the key `key`. -/
def havingKey (C : SkBuff → Prop) [DecidablePred C] (keyOf : SkBuff → CgroupDirection → K)
    (pkts : List (SkBuff × CgroupDirection)) (key : K) : List (SkBuff × CgroupDirection) :=
  pkts.filter fun p => C p.1 ∧ keyOf p.1 p.2 = key

/-- The distinct keys of the packets among `pkts` that satisfy `C`. -/
def keysOf (C : SkBuff → Prop) [DecidablePred C] (keyOf : SkBuff → CgroupDirection → K)
    (pkts : List (SkBuff × CgroupDirection)) : Finset K :=
  ((pkts.filter fun p => C p.1).map fun p => keyOf p.1 p.2).toFinset

/-- **What it is for a map to account exactly** for the packets satisfying `C`: an entry
exists for the keys of those packets only, and holds what the packets with its key add up to,
in 64-bit counters, hence exactly as long as nothing has wrapped. -/
def AccountsFor (m : BpfHash K FlowStats) (C : SkBuff → Prop) [DecidablePred C]
    (keyOf : SkBuff → CgroupDirection → K) (pkts : List (SkBuff × CgroupDirection)) : Prop :=
  ∀ key,
    ((m.val key).isSome ↔ ∃ p ∈ pkts, C p.1 ∧ keyOf p.1 p.2 = key) ∧
    ∀ value, m.val key = some value →
      value = FlowStatsOf.ofNat (totals (havingKey C keyOf pkts key)) ∧
      ((totals (havingKey C keyOf pkts key)).Fits →
        value.toNat = totals (havingKey C keyOf pkts key))

/-- A history that lists the packets satisfying `C` in order. -/
theorem accountsFor_of_tracks {m : BpfHash K FlowStats} {C : SkBuff → Prop} [DecidablePred C]
    {keyOf : SkBuff → CgroupDirection → K} {pkts : List (SkBuff × CgroupDirection)}
    (ht : Tracks m ((pkts.filter fun p => C p.1).map
      fun p => (keyOf p.1 p.2, packetStats p.1.len p.2))) :
    AccountsFor m C keyOf pkts := by
  intro key
  have hmem : key ∈ ((pkts.filter fun p => C p.1).map
      fun p => (keyOf p.1 p.2, packetStats p.1.len p.2)).map Prod.fst
        ↔ ∃ p ∈ pkts, C p.1 ∧ keyOf p.1 p.2 = key := by
    simp only [List.map_map, List.mem_map, List.mem_filter, decide_eq_true_eq,
      Function.comp_apply, and_assoc]
  have htally : tally ((pkts.filter fun p => C p.1).map
      fun p => (keyOf p.1 p.2, packetStats p.1.len p.2)) key
        = totals (havingKey C keyOf pkts key) := by
    rw [totals_eq_sum, tally, havingKey, List.filter_map, List.map_map, List.filter_filter]
    congr 2
    refine List.filter_congr (fun p _ => ?_)
    simp [Function.comp_apply, Bool.decide_and, Bool.and_comm]
  refine ⟨?_, ?_⟩
  · rw [ht key, Option.isSome_map, tallied, ← hmem]
    split <;> simp_all
  · intro value hv
    rw [ht key, tallied] at hv
    split at hv
    · rw [htally, Option.map_some] at hv
      have hval := (Option.some.inj hv).symm
      exact ⟨hval, fun hfits => by rw [hval]; exact FlowStatsOf.toNat_ofNat hfits⟩
    · exact absurd hv (by simp)

end

/-- The history of `v4_flow_map`, by the packet formats. -/
theorem v4History_eq {pkts : List (SkBuff × CgroupDirection)} (hs : ∀ p ∈ pkts, InScope p.1) :
    v4History pkts = (pkts.filter fun p => CountedV4 p.1).map
      fun p => (v4Key p.1 p.2, packetStats p.1.len p.2) := by
  induction pkts with
  | nil => rfl
  | cons p ps ih =>
      have hps := ih (fun q hq => hs q (List.mem_cons_of_mem _ hq))
      have hsplit : v4History (p :: ps) = v4History [p] ++ v4History ps := v4History_append [p] ps
      rw [hsplit, hps]
      rcases (hs p (List.mem_cons_self ..)).cases with h4 | h6 | hn
      · simp [history, flowKey_v4 h4 p.2, h4]
      · have h4 : ¬ CountedV4 p.1 := by
          intro h4
          have := (flowKey_v4 h4 p.2).symm.trans (flowKey_v6 h6 p.2)
          exact absurd this (by simp)
        simp [history, flowKey_v6 h6 p.2, h4]
      · have h4 : ¬ CountedV4 p.1 := by
          intro h4
          exact absurd ((flowKey_v4 h4 p.2).symm.trans (hn p.2)) (by simp)
        simp [history, hn p.2, h4]

/-- The history of `v6_flow_map`, by the packet formats. -/
theorem v6History_eq {pkts : List (SkBuff × CgroupDirection)} (hs : ∀ p ∈ pkts, InScope p.1) :
    v6History pkts = (pkts.filter fun p => CountedV6 p.1).map
      fun p => (v6Key p.1 p.2, packetStats p.1.len p.2) := by
  induction pkts with
  | nil => rfl
  | cons p ps ih =>
      have hps := ih (fun q hq => hs q (List.mem_cons_of_mem _ hq))
      have hsplit : v6History (p :: ps) = v6History [p] ++ v6History ps := v6History_append [p] ps
      rw [hsplit, hps]
      rcases (hs p (List.mem_cons_self ..)).cases with h4 | h6 | hn
      · have h6 : ¬ CountedV6 p.1 := by
          intro h6
          have := (flowKey_v4 h4 p.2).symm.trans (flowKey_v6 h6 p.2)
          exact absurd this (by simp)
        simp [history, flowKey_v4 h4 p.2, h6]
      · simp [history, flowKey_v6 h6 p.2, h6]
      · have h6 : ¬ CountedV6 p.1 := by
          intro h6
          exact absurd ((flowKey_v6 h6 p.2).symm.trans (hn p.2)) (by simp)
        simp [history, hn p.2, h6]

/-- What one packet in scope may touch. -/
def TouchesOnly (skb : SkBuff) (dir : CgroupDirection) (maps : FlowMaps) : Prop :=
  (CountedV4 skb → (bpfFlowReader skb dir maps).v6FlowMap = maps.v6FlowMap) ∧
  (CountedV6 skb → (bpfFlowReader skb dir maps).v4FlowMap = maps.v4FlowMap) ∧
  (FailsBounds skb ∨ LoopbackV4 skb ∨ LoopbackV6 skb → bpfFlowReader skb dir maps = maps)

theorem bpfFlowReader_touchesOnly (skb : SkBuff) (dir : CgroupDirection) (maps : FlowMaps) :
    TouchesOnly skb dir maps := by
  refine ⟨fun h => ?_, fun h => ?_, fun h => ?_⟩
  · rw [bpfFlowReader, flowKey_v4 h]
  · rw [bpfFlowReader, flowKey_v6 h]
  · rw [bpfFlowReader, flowKey_none h]

/--
**Kernel flow accounting is exact.**

However many packets are presented, in whatever order and direction, from empty
maps that have room for the keys that occur: each packet touches the map of its
family only, or nothing, and each map accounts exactly for the packets of its
family.
-/
theorem flow_accounting_exact (pkts : List (SkBuff × CgroupDirection))
    (hscope : ∀ p ∈ pkts, InScope p.1)
    (hroom4 : (keysOf CountedV4 v4Key pkts).card ≤ v4FlowMapSize)
    (hroom6 : (keysOf CountedV6 v6Key pkts).card ≤ v6FlowMapSize) :
    (∀ p ∈ pkts, ∀ maps, TouchesOnly p.1 p.2 maps) ∧
    AccountsFor (readPackets pkts FlowMaps.empty).v4FlowMap CountedV4 v4Key pkts ∧
    AccountsFor (readPackets pkts FlowMaps.empty).v6FlowMap CountedV6 v6Key pkts := by
  have h4 := v4History_eq hscope
  have h6 := v6History_eq hscope
  have hfit : NeverFull pkts := by
    refine ⟨?_, ?_⟩
    · rw [h4, historyKeys, List.map_map]; exact hroom4
    · rw [h6, historyKeys, List.map_map]; exact hroom6
  have ht := readPackets_tracks hfit
  refine ⟨fun p _ maps => bpfFlowReader_touchesOnly p.1 p.2 maps, ?_, ?_⟩
  · exact accountsFor_of_tracks (h4 ▸ ht.v4)
  · exact accountsFor_of_tracks (h6 ▸ ht.v6)

/-- A name lookup seen from the asking pod, with a runt and a loopback packet between. -/
def nameLookup : List (SkBuff × CgroupDirection) :=
  [(udpPacket [10, 244, 0, 5] [10, 96, 0, 10] [0xc0, 0, 0, 53] 60, .egress),
   (⟨12, [0x45, 0, 0]⟩, .ingress),
   (udpPacket [127, 0, 0, 1] [127, 0, 0, 1] [0, 53, 0, 53] 40, .ingress),
   (udpPacket [10, 96, 0, 10] [10, 244, 0, 5] [0, 53, 0xc0, 0] 92, .ingress)]

theorem flow_accounting_exact_nameLookup :
    (∀ p ∈ nameLookup, InScope p.1) ∧
    (keysOf CountedV4 v4Key nameLookup).card = 1 ∧
    AccountsFor (readPackets nameLookup FlowMaps.empty).v4FlowMap CountedV4 v4Key nameLookup := by
  refine ⟨by decide, by decide, ?_⟩
  exact (flow_accounting_exact nameLookup (by decide) (by decide) (by decide)).2.1

end Kubpf.Kernel
