import Kubpf.Lib.Snapshot
import Kubpf.Kernel.Microsteps

/-!
# The flow maps as a store of keys

What the agent can see of a map is its contents; two maps with the same contents
and the same size go through the same packets alike. Packets of different flows
change places where there is room for both, and a map that refuses a flow goes on
refusing it until something is deleted. Together these make the flow maps a
`KeyedStore`, with packets for events.
-/

namespace Kubpf.Kernel

open Lib

/-! ## One map -/

section

variable {K : Type} [DecidableEq K] {m m' : BpfHash K FlowStats}

theorem countPacket_of_full {key : K} (h : m.Full key) (len : UInt32) (dir : CgroupDirection) :
    countPacket m key len dir = m := by
  have hp : m.lookupElem key = none := by
    rw [← BpfHash.val_eq_none, ← Option.not_isSome_iff_eq_none, ← BpfHash.mem_keys]
    exact h.1
  rw [countPacket, hp]
  dsimp only
  rw [BpfHash.updateElem_of_full h]

/-- Counting a packet of a flow there is room for adds the flow. -/
theorem keys_countPacket {key : K} (h : ¬ m.Full key) (len : UInt32) (dir : CgroupDirection) :
    (countPacket m key len dir).table.keys = insert key m.table.keys := by
  ext k
  rw [BpfHash.mem_keys, val_countPacket h, Finset.mem_insert, BpfHash.mem_keys]
  by_cases hk : k = key
  · subst hk; simp
  · simp [hk]

theorem same_countPacket (h : m.Same m') (key : K) (len : UInt32) (dir : CgroupDirection) :
    (countPacket m key len dir).Same (countPacket m' key len dir) := by
  by_cases hfull : m.Full key
  · rw [countPacket_of_full hfull, countPacket_of_full ((h.full_iff key).mp hfull)]
    exact h
  · refine ⟨?_, ?_⟩
    · rw [maxEntries_countPacket, maxEntries_countPacket, h.maxEntries]
    · rw [val_countPacket hfull, val_countPacket fun hf => hfull ((h.full_iff key).mpr hf), h.val]

/-- Another flow's packet leaves an entry alone. -/
theorem val_countPacket_of_ne {key key' : K} (hne : key ≠ key') (len : UInt32)
    (dir : CgroupDirection) : (countPacket m key len dir).val key' = m.val key' := by
  by_cases hfull : m.Full key
  · rw [countPacket_of_full hfull]
  · rw [val_countPacket hfull, Function.update_of_ne (Ne.symm hne)]

/-- **Room does not come back** by counting. -/
theorem full_countPacket {key : K} (h : m.Full key) (key' : K) (len : UInt32)
    (dir : CgroupDirection) : (countPacket m key' len dir).Full key := by
  by_cases hfull : m.Full key'
  · rw [countPacket_of_full hfull]
    exact h
  · -- the other flow is in the map already
    have hmem : key' ∈ m.table.keys := h.mem_keys_of_not_full hfull
    rw [BpfHash.Full, keys_countPacket hfull, maxEntries_countPacket,
      Finset.insert_eq_of_mem hmem]
    exact h

/-- **Packets of two flows change places**, where the second found room after the first. -/
theorem countPacket_comm {key key' : K} (hne : key ≠ key') {len len' : UInt32}
    {dir dir' : CgroupDirection} (hroom : ¬ (countPacket m key len dir).Full key') :
    (countPacket (countPacket m key len dir) key' len' dir').Same
      (countPacket (countPacket m key' len' dir') key len dir) := by
  have hroom' : ¬ m.Full key' := fun h => hroom (full_countPacket h key len dir)
  by_cases hfull : m.Full key
  · -- the first is refused in either place
    rw [countPacket_of_full hfull, countPacket_of_full (full_countPacket hfull key' len' dir')]
    exact BpfHash.same_equiv.refl _
  · have hfirst : ¬ (countPacket m key' len' dir').Full key := by
      rintro ⟨hnot, hle⟩
      rw [keys_countPacket hroom', Finset.mem_insert, not_or] at hnot
      rw [keys_countPacket hroom', maxEntries_countPacket] at hle
      refine hroom ⟨?_, ?_⟩
      · rw [keys_countPacket hfull, Finset.mem_insert, not_or]
        refine ⟨Ne.symm hne, fun hmem => ?_⟩
        rw [Finset.insert_eq_of_mem hmem] at hle
        exact hfull ⟨hnot.2, hle⟩
      · rw [keys_countPacket hfull, maxEntries_countPacket, Finset.card_insert_of_notMem hnot.2]
        exact hle.trans (Finset.card_insert_le _ _)
    refine ⟨?_, ?_⟩
    · simp only [maxEntries_countPacket]
    · rw [val_countPacket hroom, val_countPacket hfull, val_countPacket hfirst,
        val_countPacket hroom', Function.update_of_ne (Ne.symm hne), Function.update_of_ne hne,
        Function.update_comm hne]

end

/-! ## Both maps -/

namespace FlowMaps

/-- The same contents, map by map. -/
structure Same (maps maps' : FlowMaps) : Prop where
  v4 : maps.v4FlowMap.Same maps'.v4FlowMap
  v6 : maps.v6FlowMap.Same maps'.v6FlowMap

theorem same_equiv : Equivalence Same where
  refl _ := ⟨BpfHash.same_equiv.refl _, BpfHash.same_equiv.refl _⟩
  symm h := ⟨BpfHash.same_equiv.symm h.v4, BpfHash.same_equiv.symm h.v6⟩
  trans h h' := ⟨BpfHash.same_equiv.trans h.v4 h'.v4, BpfHash.same_equiv.trans h.v6 h'.v6⟩

theorem Same.val_eq {maps maps' : FlowMaps} (h : maps.Same maps') (key : FlowMapKey) :
    maps.val key = maps'.val key := by
  cases key with
  | inl v4Key => exact congrFun h.v4.val v4Key
  | inr v6Key => exact congrFun h.v6.val v6Key

theorem Same.full_iff {maps maps' : FlowMaps} (h : maps.Same maps') (key : FlowMapKey) :
    maps.Full key ↔ maps'.Full key := by
  cases key with
  | inl v4Key => exact h.v4.full_iff v4Key
  | inr v6Key => exact h.v6.full_iff v6Key

theorem val_of_full {maps : FlowMaps} {key : FlowMapKey} (h : maps.Full key) :
    maps.val key = none :=
  Option.eq_none_iff_forall_ne_some.mpr fun _ hv => not_full_of_val hv h

end FlowMaps

section

variable {maps maps' : FlowMaps}

theorem same_bpfFlowReader (h : maps.Same maps') (skb : SkBuff) (dir : CgroupDirection) :
    (bpfFlowReader skb dir maps).Same (bpfFlowReader skb dir maps') := by
  unfold bpfFlowReader
  cases flowKey skb dir with
  | none => exact h
  | some key =>
      cases key with
      | inl v4Key => exact ⟨same_countPacket h.v4 _ _ _, h.v6⟩
      | inr v6Key => exact ⟨h.v4, same_countPacket h.v6 _ _ _⟩

theorem val_bpfFlowReader_of_ne {skb : SkBuff} {dir : CgroupDirection} {key : FlowMapKey}
    (h : flowKey skb dir ≠ some key) : (bpfFlowReader skb dir maps).val key = maps.val key := by
  unfold bpfFlowReader
  cases hkey : flowKey skb dir with
  | none => rfl
  | some key' =>
      have hne : key' ≠ key := fun he => h (by rw [hkey, he])
      cases key' with
      | inl v4Key' =>
          cases key with
          | inl v4Key => exact val_countPacket_of_ne (fun he => hne (congrArg Sum.inl he)) _ _
          | inr v6Key => rfl
      | inr v6Key' =>
          cases key with
          | inl v4Key => rfl
          | inr v6Key => exact val_countPacket_of_ne (fun he => hne (congrArg Sum.inr he)) _ _

/-- A packet of a flow there is room for. -/
theorem val_bpfFlowReader {skb : SkBuff} {dir : CgroupDirection} {key : FlowMapKey}
    (h : flowKey skb dir = some key) (hroom : ¬ maps.Full key) :
    (bpfFlowReader skb dir maps).val key
      = some ((maps.val key).getD 0 + FlowStatsOf.ofNat (packetStats skb.len dir)) := by
  unfold bpfFlowReader
  rw [h]
  cases key with
  | inl v4Key => exact (congrFun (val_countPacket hroom) v4Key).trans (Function.update_self ..)
  | inr v6Key => exact (congrFun (val_countPacket hroom) v6Key).trans (Function.update_self ..)

/-- A packet of a flow there is no room for. -/
theorem bpfFlowReader_of_full {skb : SkBuff} {dir : CgroupDirection} {key : FlowMapKey}
    (h : flowKey skb dir = some key) (hfull : maps.Full key) :
    bpfFlowReader skb dir maps = maps := by
  unfold bpfFlowReader
  rw [h]
  cases key with
  | inl v4Key => exact congrArg (FlowMaps.mk · _) (countPacket_of_full hfull _ _)
  | inr v6Key => exact congrArg (FlowMaps.mk _ ·) (countPacket_of_full hfull _ _)

theorem full_bpfFlowReader {key : FlowMapKey} (h : maps.Full key) (skb : SkBuff)
    (dir : CgroupDirection) : (bpfFlowReader skb dir maps).Full key := by
  unfold bpfFlowReader
  cases flowKey skb dir with
  | none => exact h
  | some key' =>
      cases key' with
      | inl v4Key' =>
          cases key with
          | inl v4Key => exact full_countPacket h _ _ _
          | inr v6Key => exact h
      | inr v6Key' =>
          cases key with
          | inl v4Key => exact h
          | inr v6Key => exact full_countPacket h _ _ _

/-- **Two packets of different flows change places.** -/
theorem bpfFlowReader_comm {p q : SkBuff × CgroupDirection} {key : FlowMapKey}
    (hq : flowKey q.1 q.2 = some key) (hp : flowKey p.1 p.2 ≠ some key)
    (hroom : ¬ (bpfFlowReader p.1 p.2 maps).Full key) :
    (bpfFlowReader q.1 q.2 (bpfFlowReader p.1 p.2 maps)).Same
      (bpfFlowReader p.1 p.2 (bpfFlowReader q.1 q.2 maps)) := by
  cases hkey : flowKey p.1 p.2 with
  | none =>
      have hid : ∀ maps : FlowMaps, bpfFlowReader p.1 p.2 maps = maps := by
        intro maps
        rw [bpfFlowReader, hkey]
      rw [hid, hid]
      exact FlowMaps.same_equiv.refl _
  | some key' =>
      have hne : key' ≠ key := fun he => hp (by rw [hkey, he])
      unfold bpfFlowReader at hroom ⊢
      rw [hkey] at hroom
      rw [hq, hkey]
      cases key' with
      | inl v4Key' =>
          cases key with
          | inl v4Key =>
              exact ⟨countPacket_comm (fun he => hne (congrArg Sum.inl he)) hroom,
                BpfHash.same_equiv.refl _⟩
          | inr v6Key => exact FlowMaps.same_equiv.refl _
      | inr v6Key' =>
          cases key with
          | inl v4Key => exact FlowMaps.same_equiv.refl _
          | inr v6Key =>
              exact ⟨BpfHash.same_equiv.refl _,
                countPacket_comm (fun he => hne (congrArg Sum.inr he)) hroom⟩

end

/-! ## Sizes -/

/-- Both maps have the sizes of the others. -/
structure SameSize (maps maps' : FlowMaps) : Prop where
  v4 : maps.v4FlowMap.maxEntries = maps'.v4FlowMap.maxEntries
  v6 : maps.v6FlowMap.maxEntries = maps'.v6FlowMap.maxEntries

theorem SameSize.trans {maps maps' maps'' : FlowMaps} (h : SameSize maps maps')
    (h' : SameSize maps' maps'') : SameSize maps maps'' := ⟨h.v4.trans h'.v4, h.v6.trans h'.v6⟩

theorem SameSize.symm {maps maps' : FlowMaps} (h : SameSize maps maps') : SameSize maps' maps :=
  ⟨h.v4.symm, h.v6.symm⟩

theorem sameSize_bpfFlowReader (maps : FlowMaps) (skb : SkBuff) (dir : CgroupDirection) :
    SameSize (bpfFlowReader skb dir maps) maps := by
  unfold bpfFlowReader
  cases flowKey skb dir with
  | none => exact ⟨rfl, rfl⟩
  | some key =>
      cases key with
      | inl v4Key => exact ⟨maxEntries_countPacket .., rfl⟩
      | inr v6Key => exact ⟨rfl, maxEntries_countPacket ..⟩

/-! ## The store -/

/-- The flow maps, with packets for events. -/
def flowStore : KeyedStore FlowMaps (SkBuff × CgroupDirection) FlowMapKey FlowStats where
  act maps p := bpfFlowReader p.1 p.2 maps
  key p := flowKey p.1 p.2
  get := FlowMaps.val
  Refuses := FlowMaps.Full
  Same := FlowMaps.Same
  same_equiv := FlowMaps.same_equiv
  get_congr key h := h.val_eq key
  act_congr p h := same_bpfFlowReader h p.1 p.2
  refuses_congr key h := h.full_iff key
  get_act h := val_bpfFlowReader_of_ne h
  get_refused h := FlowMaps.val_of_full h
  refuses_act p h := full_bpfFlowReader h p.1 p.2
  comm hq hp hroom := bpfFlowReader_comm hq hp hroom

end Kubpf.Kernel
