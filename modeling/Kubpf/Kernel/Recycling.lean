import Kubpf.Lib.ElementPool
import Kubpf.Kernel.Interleaving

/-!
# Elements that are used again

`ebpf_maps.h` asks for no flags, so a map has all its elements from the start. An
element whose key is deleted, or whose value is replaced by an update, is soon
another flow's, and an invocation that looked it up before does not know.

Here packets of any flows arrive at any time, the agent deletes what it likes in
between, and the stock gives out whatever elements it likes. Three things are
kept, each under more than the one before. The maps together never hold more than
the invocations have put in. An entry holds no more than the invocations of its
own flow have, as long as no element is freed under one of them. And it holds
exactly that, as long as none is freed and none refused.
-/

namespace Kubpf.Kernel

open Lib

/-! ## The maps -/

/-- The two maps of `ebpf_maps.h`, with their elements. -/
structure StockMaps where
  v4FlowMap : ElementPool InetV4Flow FlowStats
  v6FlowMap : ElementPool InetV6Flow FlowStats

inductive Family where
  | v4
  | v6
  deriving DecidableEq, Repr

/-- Which of the maps a key belongs to. -/
def family : FlowMapKey → Family
  | .inl _ => .v4
  | .inr _ => .v6

namespace StockMaps

/-- The maps as they are created. -/
def empty : StockMaps where
  v4FlowMap := ElementPool.empty v4FlowMapSize
  v6FlowMap := ElementPool.empty v6FlowMapSize

/-- `bpf_map_lookup_elem` in the map of the key's family. -/
def lookupElem (maps : StockMaps) : FlowMapKey → Option Nat
  | .inl v4Key => maps.v4FlowMap.lookupElem v4Key
  | .inr v6Key => maps.v6FlowMap.lookupElem v6Key

/-- `bpf_map_update_elem` with `BPF_ANY`, where the stock gives out `slot`. -/
def updateElem (maps : StockMaps) (slot : Nat) (key : FlowMapKey) (value : FlowStats) :
    Option StockMaps :=
  match key with
  | .inl v4Key =>
    (maps.v4FlowMap.updateElem slot v4Key value).map fun m => { maps with v4FlowMap := m }
  | .inr v6Key =>
    (maps.v6FlowMap.updateElem slot v6Key value).map fun m => { maps with v6FlowMap := m }

/-- A write through an element pointer. -/
def modify (maps : StockMaps) (key : FlowMapKey) (p : Nat) (f : FlowStats → FlowStats) :
    StockMaps :=
  match key with
  | .inl _ => { maps with v4FlowMap := maps.v4FlowMap.modify p f }
  | .inr _ => { maps with v6FlowMap := maps.v6FlowMap.modify p f }

/-- `bpf_map_delete_elem`. -/
def deleteElem (maps : StockMaps) (key : FlowMapKey) : StockMaps :=
  match key with
  | .inl v4Key => { maps with v4FlowMap := maps.v4FlowMap.deleteElem v4Key }
  | .inr v6Key => { maps with v6FlowMap := maps.v6FlowMap.deleteElem v6Key }

/-- An insert of the key would be refused. -/
def Full (maps : StockMaps) : FlowMapKey → Prop
  | .inl v4Key => maps.v4FlowMap.Full v4Key
  | .inr v6Key => maps.v6FlowMap.Full v6Key

instance (maps : StockMaps) : (key : FlowMapKey) → Decidable (maps.Full key)
  | .inl v4Key => inferInstanceAs (Decidable (maps.v4FlowMap.Full v4Key))
  | .inr v6Key => inferInstanceAs (Decidable (maps.v6FlowMap.Full v6Key))

/-- What the map of the key's family holds under it. -/
def val (maps : StockMaps) : FlowMapKey → Option FlowStats
  | .inl v4Key => maps.v4FlowMap.val v4Key
  | .inr v6Key => maps.v6FlowMap.val v6Key

/-- What the map of a family holds altogether. -/
def held (maps : StockMaps) : Family → FlowStatsOf Nat
  | .v4 => maps.v4FlowMap.held FlowStatsOf.toNat
  | .v6 => maps.v6FlowMap.held FlowStatsOf.toNat

section

variable {maps maps' : StockMaps} {slot p : Nat} {key key' : FlowMapKey} {value : FlowStats}

@[simp] theorem lookupElem_empty (key : FlowMapKey) : empty.lookupElem key = none := by
  cases key <;> exact Finmap.lookup_empty _

@[simp] theorem val_empty (key : FlowMapKey) : empty.val key = none := by
  cases key <;> exact ElementPool.val_empty _ _

@[simp] theorem lookupElem_modify (maps : StockMaps) (key key' : FlowMapKey) (p : Nat)
    (f : FlowStats → FlowStats) : (maps.modify key p f).lookupElem key' = maps.lookupElem key' := by
  cases key <;> cases key' <;> rfl

theorem val_eq_none : maps.val key = none ↔ maps.lookupElem key = none := by
  cases key <;> exact Option.map_eq_none_iff

/-- Two keys of one map do not share an element. -/
theorem inj (hfam : family key = family key') (h : maps.lookupElem key = some p)
    (h' : maps.lookupElem key' = some p) : key = key' := by
  cases key with
  | inl v4Key =>
      cases key' with
      | inl v4Key' => exact congrArg Sum.inl (maps.v4FlowMap.inj _ _ p h h')
      | inr v6Key' => cases hfam
  | inr v6Key =>
      cases key' with
      | inl v4Key' => cases hfam
      | inr v6Key' => exact congrArg Sum.inr (maps.v6FlowMap.inj _ _ p h h')

theorem lookupElem_deleteElem (maps : StockMaps) (key key' : FlowMapKey) :
    (maps.deleteElem key).lookupElem key'
      = if key' = key then none else maps.lookupElem key' := by
  cases key <;> cases key' <;>
    simp [deleteElem, lookupElem, ElementPool.lookupElem_deleteElem]

theorem val_deleteElem (maps : StockMaps) (key key' : FlowMapKey) :
    (maps.deleteElem key).val key' = if key' = key then none else maps.val key' := by
  cases key <;> cases key' <;>
    simp [deleteElem, val, ElementPool.val_deleteElem, Function.update_apply]

/-- **An update is refused, or gives its key a new element with the value in it.** -/
theorem updateElem_eq_some (h : maps.updateElem slot key value = some maps') :
    (maps.Full key ∧ maps' = maps) ∨
      (¬ maps.Full key ∧
        (∀ key', maps'.lookupElem key' = if key' = key then some slot else maps.lookupElem key') ∧
        ∀ key', maps'.val key' = if key' = key then some value else maps.val key') := by
  cases key with
  | inl v4Key =>
      obtain ⟨m, hm, rfl⟩ := Option.map_eq_some_iff.mp h
      rcases ElementPool.updateElem_eq_some hm with ⟨hfull, rfl⟩ | ⟨hfree, hroom, rfl⟩
      · exact Or.inl ⟨hfull, rfl⟩
      · refine Or.inr ⟨hroom, fun key' => ?_, fun key' => ?_⟩
        · cases key' <;> simp [lookupElem, ElementPool.lookupElem_place]
        · cases key' <;> simp [val, ElementPool.val_place, Function.update_apply]
  | inr v6Key =>
      obtain ⟨m, hm, rfl⟩ := Option.map_eq_some_iff.mp h
      rcases ElementPool.updateElem_eq_some hm with ⟨hfull, rfl⟩ | ⟨hfree, hroom, rfl⟩
      · exact Or.inl ⟨hfull, rfl⟩
      · refine Or.inr ⟨hroom, fun key' => ?_, fun key' => ?_⟩
        · cases key' <;> simp [lookupElem, ElementPool.lookupElem_place]
        · cases key' <;> simp [val, ElementPool.val_place, Function.update_apply]

/-- **A write lands with whoever holds the element**; where that is the key itself, with nobody
else. -/
theorem val_modify (f : FlowStats → FlowStats) (h : maps.lookupElem key = some p) :
    (maps.modify key p f).val key'
      = if key' = key then (maps.val key).map f else maps.val key' := by
  cases key with
  | inl v4Key =>
      cases key' with
      | inl v4Key' =>
          have hiff : maps.v4FlowMap.lookupElem v4Key' = some p ↔ v4Key' = v4Key :=
            ⟨fun h' => maps.v4FlowMap.inj _ _ p h' h, fun he => he ▸ h⟩
          simp only [modify, val, ElementPool.val_modify, hiff, Sum.inl.injEq]
          split_ifs with he
          · rw [he]
          · rfl
      | inr v6Key' => simp [modify, val]
  | inr v6Key =>
      cases key' with
      | inl v4Key' => simp [modify, val]
      | inr v6Key' =>
          have hiff : maps.v6FlowMap.lookupElem v6Key' = some p ↔ v6Key' = v6Key :=
            ⟨fun h' => maps.v6FlowMap.inj _ _ p h' h, fun he => he ▸ h⟩
          simp only [modify, val, ElementPool.val_modify, hiff, Sum.inr.injEq]
          split_ifs with he
          · rw [he]
          · rfl

/-! What each operation can add to a map -/

theorem held_updateElem_le (h : maps.updateElem slot key value = some maps') (fam : Family) :
    maps'.held fam ≤ maps.held fam + if family key = fam then value.toNat else 0 := by
  have hpos : ∀ v : FlowStats, 0 ≤ v.toNat := fun v => FlowStatsOf.zero_le_nat _
  cases key with
  | inl v4Key =>
      obtain ⟨m, hm, rfl⟩ := Option.map_eq_some_iff.mp h
      cases fam with
      | v4 => exact ElementPool.held_updateElem_le hpos hm
      | v6 => exact le_of_eq (add_zero _).symm
  | inr v6Key =>
      obtain ⟨m, hm, rfl⟩ := Option.map_eq_some_iff.mp h
      cases fam with
      | v4 => exact le_of_eq (add_zero _).symm
      | v6 => exact ElementPool.held_updateElem_le hpos hm

theorem held_modify_le (maps : StockMaps) (key : FlowMapKey) (p : Nat) {f : FlowStats → FlowStats}
    {d : FlowStatsOf Nat} (hf : ∀ v, (f v).toNat ≤ v.toNat + d) (fam : Family) :
    (maps.modify key p f).held fam ≤ maps.held fam + if family key = fam then d else 0 := by
  cases key with
  | inl v4Key =>
      cases fam with
      | v4 => exact maps.v4FlowMap.held_modify_le p (FlowStatsOf.zero_le_nat d) hf
      | v6 => exact le_of_eq (add_zero _).symm
  | inr v6Key =>
      cases fam with
      | v4 => exact le_of_eq (add_zero _).symm
      | v6 => exact maps.v6FlowMap.held_modify_le p (FlowStatsOf.zero_le_nat d) hf

theorem held_deleteElem_le (maps : StockMaps) (key : FlowMapKey) (fam : Family) :
    (maps.deleteElem key).held fam ≤ maps.held fam := by
  have hpos : ∀ v : FlowStats, 0 ≤ v.toNat := fun v => FlowStatsOf.zero_le_nat _
  cases key with
  | inl v4Key =>
      cases fam with
      | v4 => exact maps.v4FlowMap.held_deleteElem_le hpos v4Key
      | v6 => exact le_refl _
  | inr v6Key =>
      cases fam with
      | v4 => exact le_refl _
      | v6 => exact maps.v6FlowMap.held_deleteElem_le hpos v6Key

end

end StockMaps

/-! ## Packets, invocations and deletions -/

/-- Invocations in flight over the maps they share with the agent. -/
structure Overlap where
  maps : StockMaps
  invocations : List Invocation

/-- The programs have just been attached. -/
def Overlap.init : Overlap where
  maps := StockMaps.empty
  invocations := []

inductive OverlapLabel where
  /-- A packet passes a hook. -/
  | arrive (skb : SkBuff) (dir : CgroupDirection)
  /-- The `i`-th invocation performs its next map operation; `slot` is what the stock gives out. -/
  | operate (i slot : Nat)
  /-- The agent deletes a key. -/
  | delete (key : FlowMapKey)

/-- The next map operation of an invocation that counts a packet under `key`. -/
def stockOp (maps : StockMaps) (slot : Nat) (key : FlowMapKey) (len : UInt32)
    (dir : CgroupDirection) : Pc → Option (StockMaps × Pc)
  | .start =>
    match maps.lookupElem key with
    | none => some (maps, .missed)
    | some value => some (maps, .hit value)
  | .missed => (maps.updateElem slot key (initStats len dir)).map fun maps => (maps, .inserted)
  | .hit value => some (maps.modify key value (addBytes len dir), .added value)
  | .added value => some (maps.modify key value (addPacket dir), .counted)
  | .inserted | .counted | .ignored => none

/-- The `i`-th invocation is where `pc` says, over these maps. -/
def Overlap.move (s : Overlap) (i : Nat) (inv : Invocation) (maps : StockMaps) (pc : Pc) :
    Overlap where
  maps := maps
  invocations := s.invocations.set i { inv with pc }

def Overlap.step (s : Overlap) : OverlapLabel → Option Overlap
  | .arrive skb dir => some { s with invocations := s.invocations ++ [⟨skb, dir, .start⟩] }
  | .operate i slot =>
    match s.invocations[i]? with
    | none => none
    | some inv =>
      match flowKey inv.skb inv.dir with
      | none => if inv.pc = .start then some (s.move i inv s.maps .ignored) else none
      | some key =>
        (stockOp s.maps slot key inv.skb.len inv.dir inv.pc).map fun r => s.move i inv r.1 r.2
  | .delete key => some { s with maps := s.maps.deleteElem key }

/-! ## What a step can be -/

/-- The operations of an invocation, taken apart. -/
inductive StockMove (maps : StockMaps) (slot : Nat) (key : FlowMapKey) (inv : Invocation) :
    StockMaps → Pc → Prop
  | miss (hpc : inv.pc = .start) (hp : maps.lookupElem key = none) :
      StockMove maps slot key inv maps .missed
  | find (p : Nat) (hpc : inv.pc = .start) (hp : maps.lookupElem key = some p) :
      StockMove maps slot key inv maps (.hit p)
  | insert (maps' : StockMaps) (hpc : inv.pc = .missed)
      (hup : maps.updateElem slot key (initStats inv.skb.len inv.dir) = some maps') :
      StockMove maps slot key inv maps' .inserted
  | bytes (p : Nat) (hpc : inv.pc = .hit p) :
      StockMove maps slot key inv (maps.modify key p (addBytes inv.skb.len inv.dir)) (.added p)
  | packet (p : Nat) (hpc : inv.pc = .added p) :
      StockMove maps slot key inv (maps.modify key p (addPacket inv.dir)) .counted

theorem stockOp_moves {maps : StockMaps} {slot : Nat} {key : FlowMapKey} {inv : Invocation}
    {r : StockMaps × Pc} (h : stockOp maps slot key inv.skb.len inv.dir inv.pc = some r) :
    StockMove maps slot key inv r.1 r.2 := by
  cases hpc : inv.pc with
  | start =>
      rw [hpc, stockOp] at h
      cases hp : maps.lookupElem key with
      | none => rw [hp] at h; cases h; exact .miss hpc hp
      | some p => rw [hp] at h; cases h; exact .find p hpc hp
  | missed =>
      rw [hpc, stockOp] at h
      obtain ⟨maps', hup, rfl⟩ := Option.map_eq_some_iff.mp h
      exact .insert maps' hpc hup
  | hit p => rw [hpc] at h; cases h; exact .bytes p hpc
  | added p => rw [hpc] at h; cases h; exact .packet p hpc
  | inserted => rw [hpc] at h; cases h
  | counted => rw [hpc] at h; cases h
  | ignored => rw [hpc] at h; cases h

/-- The steps, taken apart. -/
inductive OverlapStep (s : Overlap) : OverlapLabel → Overlap → Prop
  | arrive (skb : SkBuff) (dir : CgroupDirection) :
      OverlapStep s (.arrive skb dir)
        { s with invocations := s.invocations ++ [⟨skb, dir, .start⟩] }
  | ignore (i slot : Nat) (inv : Invocation) (hi : s.invocations[i]? = some inv)
      (hkey : flowKey inv.skb inv.dir = none) (hpc : inv.pc = .start) :
      OverlapStep s (.operate i slot) (s.move i inv s.maps .ignored)
  | operate (i slot : Nat) (inv : Invocation) (key : FlowMapKey) (maps : StockMaps) (pc : Pc)
      (hi : s.invocations[i]? = some inv) (hkey : flowKey inv.skb inv.dir = some key)
      (hmove : StockMove s.maps slot key inv maps pc) :
      OverlapStep s (.operate i slot) (s.move i inv maps pc)
  | delete (key : FlowMapKey) :
      OverlapStep s (.delete key) { s with maps := s.maps.deleteElem key }

theorem Overlap.step_inv {s s' : Overlap} {l : OverlapLabel} (h : s.step l = some s') :
    OverlapStep s l s' := by
  cases l with
  | arrive skb dir => cases h; exact .arrive skb dir
  | delete key => cases h; exact .delete key
  | operate i slot =>
      rw [Overlap.step] at h
      cases hi : s.invocations[i]? with
      | none => rw [hi] at h; cases h
      | some inv =>
          rw [hi] at h
          dsimp only at h
          cases hkey : flowKey inv.skb inv.dir with
          | none =>
              rw [hkey] at h
              dsimp only at h
              split_ifs at h with hpc
              cases h
              exact .ignore i slot inv hi hkey hpc
          | some key =>
              rw [hkey] at h
              obtain ⟨r, hr, rfl⟩ := Option.map_eq_some_iff.mp h
              exact .operate i slot inv key r.1 r.2 hi hkey (stockOp_moves hr)

/-! ## What the invocations have put in -/

/-- What the invocations with a key in `P` have put in so far. -/
def Overlap.putIn (P : FlowMapKey → Bool) (s : Overlap) : FlowStatsOf Nat :=
  (s.invocations.map fun inv => if (flowKey inv.skb inv.dir).any P then inv.done else 0).sum

section PutIn

variable {s : Overlap} {i : Nat} {inv : Invocation} {maps : StockMaps} {pc : Pc}

theorem putIn_arrive (P : FlowMapKey → Bool) (s : Overlap) (skb : SkBuff) (dir : CgroupDirection) :
    Overlap.putIn P { s with invocations := s.invocations ++ [⟨skb, dir, .start⟩] } = s.putIn P := by
  rw [Overlap.putIn, List.map_append, List.sum_append]
  simp [Overlap.putIn, Invocation.done]

theorem putIn_ignore (P : FlowMapKey → Bool) (hi : s.invocations[i]? = some inv)
    (hkey : flowKey inv.skb inv.dir = none) : (s.move i inv maps pc).putIn P = s.putIn P := by
  have hsum := sum_map_set (y := { inv with pc }) (d := 0)
    (f := fun inv => if (flowKey inv.skb inv.dir).any P then inv.done else 0) hi (by simp [hkey])
  rw [add_zero] at hsum
  exact hsum

theorem putIn_move (P : FlowMapKey → Bool) {key : FlowMapKey} {d : FlowStatsOf Nat}
    (hi : s.invocations[i]? = some inv) (hkey : flowKey inv.skb inv.dir = some key)
    (hd : ({ inv with pc } : Invocation).done = inv.done + d) :
    (s.move i inv maps pc).putIn P = s.putIn P + if P key then d else 0 := by
  refine sum_map_set hi ?_
  simp only [hkey, Option.any_some]
  split_ifs
  · exact hd
  · exact (add_zero _).symm

end PutIn

/-- The record of a new element is the packet's. -/
theorem toNat_initStats_le (len : UInt32) (dir : CgroupDirection) :
    (initStats len dir).toNat ≤ packetStats len dir := by
  have h := FlowStatsOf.toNat_add_le 0 (packetStats len dir)
  rw [zero_add, ← initStats_eq] at h
  exact h.trans (le_of_eq (zero_add _))

theorem toNat_addBytes_le (len : UInt32) (dir : CgroupDirection) (v : FlowStats) :
    (addBytes len dir v).toNat ≤ v.toNat + byteStats len dir := by
  rw [addBytes_eq]
  exact FlowStatsOf.toNat_add_le v _

theorem toNat_addPacket_le (dir : CgroupDirection) (v : FlowStats) :
    (addPacket dir v).toNat ≤ v.toNat + oneStats dir := by
  rw [addPacket_eq]
  exact FlowStatsOf.toNat_add_le v _

/-! ## Nothing is made up -/

/-- The map of each family holds at most what invocations of the family have put in. -/
def Conserves (s : Overlap) : Prop := ∀ fam, s.maps.held fam ≤ s.putIn fun key => family key = fam

/-- **One operation** puts in what it adds to the map, or more. -/
theorem held_stockMove {maps maps' : StockMaps} {slot : Nat} {key : FlowMapKey} {inv : Invocation}
    {pc : Pc} (h : StockMove maps slot key inv maps' pc) :
    ∃ d, ({ inv with pc } : Invocation).done = inv.done + d ∧
      ∀ fam, maps'.held fam ≤ maps.held fam + if family key = fam then d else 0 := by
  cases h with
  | miss hpc hp => exact ⟨0, by simp [Invocation.done, hpc], fun fam => by simp⟩
  | find p hpc hp => exact ⟨0, by simp [Invocation.done, hpc], fun fam => by simp⟩
  | insert _ hpc hup =>
      refine ⟨packetStats inv.skb.len inv.dir, by simp [Invocation.done, hpc], fun fam => ?_⟩
      refine (StockMaps.held_updateElem_le hup fam).trans (add_le_add_right ?_ _)
      split_ifs
      · exact toNat_initStats_le _ _
      · exact le_refl _
  | bytes p hpc =>
      exact ⟨byteStats inv.skb.len inv.dir, by simp [Invocation.done, hpc],
        fun fam => maps.held_modify_le key p (toNat_addBytes_le _ _) fam⟩
  | packet p hpc =>
      exact ⟨oneStats inv.dir, by simp [Invocation.done, hpc, packetStats_eq],
        fun fam => maps.held_modify_le key p (toNat_addPacket_le _) fam⟩

theorem conserves_init : Conserves Overlap.init := by
  intro fam
  cases fam <;> exact le_refl _

/-- **No step makes anything up**, whoever its pointer belongs to by now. -/
theorem conserves_step {s s' : Overlap} {l : OverlapLabel} (h : Conserves s)
    (hs : s.step l = some s') : Conserves s' := by
  intro fam
  cases Overlap.step_inv hs with
  | arrive skb dir =>
      rw [putIn_arrive]
      exact h fam
  | ignore i slot inv hi hkey hpc =>
      rw [putIn_ignore _ hi hkey]
      exact h fam
  | operate i slot inv key maps pc hi hkey hmove =>
      obtain ⟨d, hd, hheld⟩ := held_stockMove hmove
      rw [putIn_move _ hi hkey hd]
      refine (hheld fam).trans ?_
      simp only [decide_eq_true_eq]
      exact add_le_add_left (h fam) _
  | delete key => exact (s.maps.held_deleteElem_le key fam).trans (h fam)

/-! ## Elements that are in use -/

/-- The element an invocation is at work on. -/
def Pc.pointer : Pc → Option Nat
  | .hit value | .added value => some value
  | _ => none

/-- Every pointer in flight is the one a lookup would return. -/
def Current (s : Overlap) : Prop :=
  ∀ inv ∈ s.invocations, ∀ key, flowKey inv.skb inv.dir = some key →
    ∀ p, inv.pc.pointer = some p → s.maps.lookupElem key = some p

/-- The key a step inserts, if it does. -/
def Overlap.inserts (s : Overlap) : OverlapLabel → Option FlowMapKey
  | .operate i _ =>
    match s.invocations[i]? with
    | none => none
    | some inv => if inv.pc = .missed then flowKey inv.skb inv.dir else none
  | _ => none

/-- The key whose element, if it has one, goes back to the stock. -/
def Overlap.frees (s : Overlap) : OverlapLabel → Option FlowMapKey
  | .delete key => some key
  | .operate i slot => s.inserts (.operate i slot)
  | .arrive _ _ => none

/-- No element is freed that an invocation is at work on. -/
def IdleFreed (s : Overlap) (l : OverlapLabel) : Prop :=
  ∀ key ∈ s.frees l, ∀ inv ∈ s.invocations, flowKey inv.skb inv.dir = some key →
    inv.pc.pointer = none

instance (s : Overlap) (l : OverlapLabel) : Decidable (IdleFreed s l) :=
  inferInstanceAs (Decidable (∀ key ∈ s.frees l, _))

/-- No element is freed at all, and no insert refused. -/
def NothingLost (s : Overlap) (l : OverlapLabel) : Prop :=
  (∀ key ∈ s.frees l, s.maps.val key = none) ∧ ∀ key ∈ s.inserts l, ¬ s.maps.Full key

instance (s : Overlap) (l : OverlapLabel) : Decidable (NothingLost s l) :=
  inferInstanceAs (Decidable (_ ∧ _))

theorem inserts_operate {s : Overlap} {i slot : Nat} {inv : Invocation}
    (hi : s.invocations[i]? = some inv) (hpc : inv.pc = .missed) :
    s.inserts (.operate i slot) = flowKey inv.skb inv.dir := by
  rw [Overlap.inserts, hi]
  exact if_pos hpc

/-- Where pointers are current, a key without an element has none in flight. -/
theorem idleFreed_of_nothingLost {s : Overlap} {l : OverlapLabel} (h : Current s)
    (hl : NothingLost s l) : IdleFreed s l := by
  intro key hkey inv hmem hinv
  cases hp : inv.pc.pointer with
  | none => rfl
  | some p =>
      have hnone := StockMaps.val_eq_none.mp (hl.1 key hkey)
      exact absurd ((h inv hmem key hinv p hp).symm.trans hnone) (by simp)

/-- Moving one invocation keeps pointers current, if its own is and the others' elements stay. -/
theorem current_move {s : Overlap} {i : Nat} {inv : Invocation} {maps : StockMaps} {pc : Pc}
    (h : Current s)
    (hown : ∀ key, flowKey inv.skb inv.dir = some key → ∀ p, pc.pointer = some p →
      maps.lookupElem key = some p)
    (hothers : ∀ inv' ∈ s.invocations, ∀ key, flowKey inv'.skb inv'.dir = some key →
      ∀ p, inv'.pc.pointer = some p → maps.lookupElem key = s.maps.lookupElem key) :
    Current (s.move i inv maps pc) := by
  intro inv' hmem key hkey p hp
  rcases List.mem_or_eq_of_mem_set hmem with hold | rfl
  · exact (hothers inv' hold key hkey p hp).trans (h inv' hold key hkey p hp)
  · exact hown key hkey p hp

/-- **Pointers stay current** while no element is freed under one. -/
theorem current_step {s s' : Overlap} {l : OverlapLabel} (h : Current s) (hl : IdleFreed s l)
    (hs : s.step l = some s') : Current s' := by
  cases Overlap.step_inv hs with
  | arrive skb dir =>
      intro inv hmem key hkey p hp
      rcases List.mem_append.mp hmem with hold | hnew
      · exact h inv hold key hkey p hp
      · rw [List.mem_singleton.mp hnew] at hp
        cases hp
  | ignore i slot inv hi hkey hpc =>
      refine current_move h (fun key hkey' p hp => ?_) fun _ _ _ _ _ _ => rfl
      cases hp
  | operate i slot inv key maps pc hi hkey hmove =>
      have hmem := List.mem_of_getElem? hi
      cases hmove with
      | miss hpc hp =>
          refine current_move h (fun _ _ q hq => ?_) fun _ _ _ _ _ _ => rfl
          cases hq
      | find p hpc hp =>
          refine current_move h (fun key' hkey' q hq => ?_) fun _ _ _ _ _ _ => rfl
          obtain rfl : key' = key := Option.some.inj (hkey'.symm.trans hkey)
          rw [hp]
          exact hq
      | insert _ hpc hup =>
          refine current_move h (fun _ _ q hq => by cases hq) fun inv' hmem' key' hkey' q hq => ?_
          rcases StockMaps.updateElem_eq_some hup with ⟨-, rfl⟩ | ⟨-, hlookup, -⟩
          · rfl
          · -- the element replaced, if there was one, had nobody at work on it
            have hne : key' ≠ key := by
              rintro rfl
              have hfrees : s.frees (.operate i slot) = some key' := by
                rw [Overlap.frees, inserts_operate hi hpc, hkey]
              have hnone := hl key' hfrees inv' hmem' hkey'
              exact absurd (hnone.symm.trans hq) (by simp)
            rw [hlookup, if_neg hne]
      | bytes p hpc =>
          refine current_move h (fun key' hkey' q hq => ?_) fun _ _ _ _ _ _ => ?_
          · rw [StockMaps.lookupElem_modify]
            exact h inv hmem key' hkey' q (by rw [hpc]; exact hq)
          · rw [StockMaps.lookupElem_modify]
      | packet p hpc =>
          refine current_move h (fun _ _ q hq => by cases hq) fun _ _ _ _ _ _ => ?_
          rw [StockMaps.lookupElem_modify]
  | delete key =>
      intro inv hmem key' hkey' p hp
      have hne : key' ≠ key := by
        rintro rfl
        exact absurd ((hl key' rfl inv hmem hkey').symm.trans hp) (by simp)
      rw [StockMaps.lookupElem_deleteElem, if_neg hne]
      exact h inv hmem key' hkey' p hp

/-! ## What an entry gains -/

/-- **One operation through a current pointer**: the entry of the invocation's key gains at most
what is put in, all of it if no element is replaced and no insert refused, and the other entries
stay as they are. -/
theorem val_stockMove {maps maps' : StockMaps} {slot : Nat} {key : FlowMapKey} {inv : Invocation}
    {pc : Pc} (h : StockMove maps slot key inv maps' pc)
    (hcur : ∀ p, inv.pc.pointer = some p → maps.lookupElem key = some p) :
    ∃ d, ({ inv with pc } : Invocation).done = inv.done + d ∧
      ((maps'.val key).getD 0).toNat ≤ ((maps.val key).getD 0).toNat + d ∧
      ((inv.pc = .missed → maps.val key = none ∧ ¬ maps.Full key) →
        (maps'.val key).getD 0 = (maps.val key).getD 0 + FlowStatsOf.ofNat d) ∧
      ∀ key', key' ≠ key → maps'.val key' = maps.val key' := by
  -- a write through the key's own pointer
  have hwrite : ∀ (p : Nat) (f : FlowStats → FlowStats) (d : FlowStatsOf Nat),
      inv.pc.pointer = some p → (∀ v, f v = v + FlowStatsOf.ofNat d) →
      ((maps.modify key p f).val key).getD 0 = (maps.val key).getD 0 + FlowStatsOf.ofNat d ∧
        ∀ key', key' ≠ key → (maps.modify key p f).val key' = maps.val key' := by
    intro p f d hp hf
    have hlookup := hcur p hp
    refine ⟨?_, fun key' hne => ?_⟩
    · rw [StockMaps.val_modify f hlookup, if_pos rfl]
      cases hv : maps.val key with
      | none => exact absurd (StockMaps.val_eq_none.mp hv) (by rw [hlookup]; simp)
      | some v => exact hf v
    · rw [StockMaps.val_modify f hlookup, if_neg hne]
  cases h with
  | miss hpc hp =>
      exact ⟨0, by simp [Invocation.done, hpc], le_of_eq (add_zero _).symm,
        fun _ => (add_zero _).symm, fun _ _ => rfl⟩
  | find p hpc hp =>
      exact ⟨0, by simp [Invocation.done, hpc], le_of_eq (add_zero _).symm,
        fun _ => (add_zero _).symm, fun _ _ => rfl⟩
  | insert _ hpc hup =>
      refine ⟨packetStats inv.skb.len inv.dir, by simp [Invocation.done, hpc], ?_⟩
      rcases StockMaps.updateElem_eq_some hup with ⟨hfull, rfl⟩ | ⟨-, -, hval⟩
      · exact ⟨le_add_of_nonneg_right (FlowStatsOf.zero_le_nat _),
          fun hlost => absurd hfull (hlost hpc).2, fun _ _ => rfl⟩
      · refine ⟨?_, fun hlost => ?_, fun key' hne => ?_⟩
        · rw [hval, if_pos rfl]
          exact (toNat_initStats_le _ _).trans
            (le_add_of_nonneg_left (FlowStatsOf.zero_le_nat _))
        · rw [hval, if_pos rfl, (hlost hpc).1, initStats_eq]
          exact (zero_add _).symm
        · rw [hval, if_neg hne]
  | bytes p hpc =>
      obtain ⟨hsame, hother⟩ := hwrite p _ _ (by rw [hpc]; rfl) (addBytes_eq inv.skb.len inv.dir)
      refine ⟨byteStats inv.skb.len inv.dir, by simp [Invocation.done, hpc], ?_, fun _ => hsame,
        hother⟩
      rw [hsame]
      exact FlowStatsOf.toNat_add_le _ _
  | packet p hpc =>
      obtain ⟨hsame, hother⟩ := hwrite p _ _ (by rw [hpc]; rfl) (addPacket_eq inv.dir)
      refine ⟨oneStats inv.dir, by simp [Invocation.done, hpc, packetStats_eq], ?_, fun _ => hsame,
        hother⟩
      rw [hsame]
      exact FlowStatsOf.toNat_add_le _ _

/-- **One step**, seen by one entry. -/
theorem gain_step {s s' : Overlap} {l : OverlapLabel} (h : Current s) (hs : s.step l = some s')
    (key : FlowMapKey) :
    ∃ d, s'.putIn (· = key) = s.putIn (· = key) + d ∧
      ((s'.maps.val key).getD 0).toNat ≤ ((s.maps.val key).getD 0).toNat + d ∧
      (NothingLost s l →
        (s'.maps.val key).getD 0 = (s.maps.val key).getD 0 + FlowStatsOf.ofNat d) := by
  cases Overlap.step_inv hs with
  | arrive skb dir =>
      exact ⟨0, (putIn_arrive _ s skb dir).trans (add_zero _).symm, le_of_eq (add_zero _).symm,
        fun _ => (add_zero _).symm⟩
  | ignore i slot inv hi hkey hpc =>
      exact ⟨0, (putIn_ignore _ hi hkey).trans (add_zero _).symm, le_of_eq (add_zero _).symm,
        fun _ => (add_zero _).symm⟩
  | operate i slot inv key' maps pc hi hkey hmove =>
      obtain ⟨d, hd, hle, heq, hother⟩ := val_stockMove hmove
        fun p hp => h inv (List.mem_of_getElem? hi) key' hkey p hp
      have hput : (s.move i inv maps pc).putIn (· = key) = _ := putIn_move (· = key) hi hkey hd
      by_cases hsame : key' = key
      · subst hsame
        rw [if_pos (decide_eq_true rfl)] at hput
        refine ⟨d, hput, hle, fun hlost => heq fun hpc => ?_⟩
        have hins : s.inserts (.operate i slot) = some key' := (inserts_operate hi hpc).trans hkey
        exact ⟨hlost.1 key' hins, hlost.2 key' hins⟩
      · rw [if_neg (by simpa using hsame)] at hput
        have hval : (s.move i inv maps pc).maps.val key = s.maps.val key :=
          hother key (Ne.symm hsame)
        refine ⟨0, hput, ?_, fun _ => ?_⟩
        · rw [hval, add_zero]
        · rw [hval]
          exact (add_zero _).symm
  | delete key' =>
      refine ⟨0, (add_zero _).symm, ?_, fun hlost => ?_⟩
      · rw [StockMaps.val_deleteElem, add_zero]
        split_ifs
        · exact FlowStatsOf.zero_le_nat _
        · exact le_refl _
      · have hnone := hlost.1 key' rfl
        rw [StockMaps.val_deleteElem]
        split_ifs with hkey
        · rw [hkey, hnone]
          rfl
        · exact (add_zero _).symm

/-- Pointers are current, and no entry holds more than its own packets. -/
structure Attributed (s : Overlap) : Prop where
  current : Current s
  bound : ∀ key, ((s.maps.val key).getD 0).toNat ≤ s.putIn (· = key)

/-- Pointers are current, and every entry holds its packets. -/
structure Exact (s : Overlap) : Prop where
  current : Current s
  exact : ∀ key, (s.maps.val key).getD 0 = FlowStatsOf.ofNat (s.putIn (· = key))

theorem current_init : Current Overlap.init := by
  intro inv hmem
  cases hmem

theorem attributed_init : Attributed Overlap.init where
  current := current_init
  bound := by
    intro key
    rw [Overlap.init, StockMaps.val_empty]
    exact le_refl _

theorem exact_init : Exact Overlap.init where
  current := current_init
  exact := by
    intro key
    rw [Overlap.init, StockMaps.val_empty]
    rfl

theorem attributed_step {s s' : Overlap} {l : OverlapLabel} (h : Attributed s)
    (hl : IdleFreed s l) (hs : s.step l = some s') : Attributed s' where
  current := current_step h.current hl hs
  bound := by
    intro key
    obtain ⟨d, hput, hle, -⟩ := gain_step h.current hs key
    rw [hput]
    exact hle.trans (add_le_add_left (h.bound key) d)

theorem exact_step {s s' : Overlap} {l : OverlapLabel} (h : Exact s) (hl : NothingLost s l)
    (hs : s.step l = some s') : Exact s' where
  current := current_step h.current (idleFreed_of_nothingLost h.current hl) hs
  exact := by
    intro key
    obtain ⟨d, hput, -, heq⟩ := gain_step h.current hs key
    rw [hput, heq hl, h.exact key, FlowStatsOf.ofNat_add]

/--
**Overlapping packets are never counted twice, and are charged to their own flow unless an
element is freed under them.**

For packets of any flows arriving at any time, their map operations interleaved
with each other and with deletions in any way, and elements used again in any
way: what a map holds altogether is at most what packets of its family have put
in; if no element is freed while an invocation is at work on it, each entry holds
at most what packets of its own flow have; and if no element is freed and no
insert refused, it holds exactly that.
-/
theorem overlapping_packets_charged (ls : List OverlapLabel) (s : Overlap)
    (hrun : run Overlap.step Overlap.init ls = some s) :
    (∀ fam, s.maps.held fam ≤ s.putIn fun key => family key = fam) ∧
    (Along Overlap.step IdleFreed Overlap.init ls →
      ∀ key, ((s.maps.val key).getD 0).toNat ≤ s.putIn (· = key)) ∧
    (Along Overlap.step NothingLost Overlap.init ls →
      ∀ key, (s.maps.val key).getD 0 = FlowStatsOf.ofNat (s.putIn (· = key))) := by
  refine ⟨?_, fun hidle => ?_, fun hlost => ?_⟩
  · exact run_inv (I := Conserves) (fun _ _ _ h hs => conserves_step h hs) conserves_init hrun
  · exact (run_inv_along (I := Attributed) (fun _ _ _ h hl hs => attributed_step h hl hs)
      attributed_init hidle hrun).bound
  · exact (run_inv_along (I := Exact) (fun _ _ _ h hl hs => exact_step h hl hs)
      exact_init hlost hrun).exact

/-- A query is inserted, and its answer added to the entry. -/
def answeredQuery : List OverlapLabel :=
  crossingPackets.map (fun p => .arrive p.1 p.2)
    ++ [.operate 0 5, .operate 0 5, .operate 1 0, .operate 1 0, .operate 1 0]

theorem overlapping_packets_charged_answer :
    ∃ s, run Overlap.step Overlap.init answeredQuery = some s ∧
      (s.maps.val crossingKey).getD 0 = ⟨92, 1, 60, 1⟩ := by
  have hrun : (run Overlap.step Overlap.init answeredQuery).isSome = true := by decide +kernel
  obtain ⟨s, hs⟩ := Option.isSome_iff_exists.mp hrun
  have hput : (run Overlap.step Overlap.init answeredQuery).map (Overlap.putIn (· = crossingKey))
      = some ⟨92, 1, 60, 1⟩ := by decide +kernel
  refine ⟨s, hs, ?_⟩
  rw [(overlapping_packets_charged answeredQuery s hs).2.2 (by decide +kernel) crossingKey]
  rw [hs] at hput
  rw [Option.some.inj hput]
  rfl

/-- The answer's entry is deleted while the answer is being added, and the element goes to a query
of another pod. -/
def freedMidway : List OverlapLabel :=
  answeredQuery.take 5 ++
    [.arrive (udpPacket [10, 244, 0, 6] [10, 96, 0, 10] [0xc0, 0, 0, 53] 48) .egress,
      .delete crossingKey, .operate 2 0, .operate 2 5, .operate 1 0]

/-- Then the query's entry has the answer's bytes. -/
theorem freed_element_charged_to_other :
    (run Overlap.step Overlap.init freedMidway).map (fun s =>
        (s.maps.val (.inl (v4Key (udpPacket [10, 244, 0, 6] [10, 96, 0, 10] [0xc0, 0, 0, 53] 48)
          .egress)), s.maps.val crossingKey))
      = some (some ⟨92, 0, 48, 1⟩, none) ∧
    ¬ Along Overlap.step IdleFreed Overlap.init freedMidway := by
  decide +kernel

/-! ## Runs in which nothing is used again

`invoke` takes the same operations over maps whose elements are never used again.
Each of its runs is one of these, with a fresh element wherever one is asked for.
-/

/-- The maps of one model, in the other. -/
structure StockMaps.Models (maps : FlowMaps) (stock : StockMaps) : Prop where
  v4 : ElementPool.Models maps.v4FlowMap stock.v4FlowMap
  v6 : ElementPool.Models maps.v6FlowMap stock.v6FlowMap

/-- The element has been given out at some time. -/
def FlowMaps.GivenOut (maps : FlowMaps) (p : Nat) : FlowMapKey → Prop
  | .inl _ => p < maps.v4FlowMap.table.cells.length
  | .inr _ => p < maps.v6FlowMap.table.cells.length

section Models

variable {maps maps' : FlowMaps} {stock : StockMaps} {key : FlowMapKey} {p : Nat}

theorem StockMaps.Models.lookupElem_eq (h : StockMaps.Models maps stock) (key : FlowMapKey) :
    stock.lookupElem key = maps.lookupElem key := by
  cases key with
  | inl v4Key => exact h.v4.lookupElem_eq v4Key
  | inr v6Key => exact h.v6.lookupElem_eq v6Key

theorem StockMaps.Models.val_eq (h : StockMaps.Models maps stock) (key : FlowMapKey) :
    stock.val key = maps.val key := by
  cases key with
  | inl v4Key => exact h.v4.val_eq v4Key
  | inr v6Key => exact h.v6.val_eq v6Key

theorem StockMaps.Models.updateElem (h : StockMaps.Models maps stock) (key : FlowMapKey)
    (value : FlowStats) :
    ∃ slot stock', stock.updateElem slot key value = some stock' ∧
      StockMaps.Models (maps.updateElem key value) stock' := by
  cases key with
  | inl v4Key =>
      obtain ⟨slot, m, hm, hmodels⟩ := h.v4.updateElem v4Key value
      refine ⟨slot, { stock with v4FlowMap := m }, ?_, hmodels, h.v6⟩
      rw [StockMaps.updateElem, hm, Option.map_some]
  | inr v6Key =>
      obtain ⟨slot, m, hm, hmodels⟩ := h.v6.updateElem v6Key value
      refine ⟨slot, { stock with v6FlowMap := m }, ?_, h.v4, hmodels⟩
      rw [StockMaps.updateElem, hm, Option.map_some]

theorem StockMaps.Models.modify (h : StockMaps.Models maps stock) (hp : maps.GivenOut p key)
    (f : FlowStats → FlowStats) :
    StockMaps.Models (maps.modify key p f) (stock.modify key p f) := by
  cases key with
  | inl v4Key => exact ⟨h.v4.modify hp f, h.v6⟩
  | inr v6Key => exact ⟨h.v4, h.v6.modify hp f⟩

theorem givenOut_of_lookupElem (h : maps.lookupElem key = some p) : maps.GivenOut p key := by
  cases key with
  | inl v4Key => exact maps.v4FlowMap.table.valid v4Key p h
  | inr v6Key => exact maps.v6FlowMap.table.valid v6Key p h

theorem givenOut_updateElem (h : maps.GivenOut p key) (key' : FlowMapKey) (value : FlowStats) :
    (maps.updateElem key' value).GivenOut p key := by
  cases key <;> cases key'
  · exact Nat.lt_of_lt_of_le h (BpfHash.length_cells_updateElem_le _ _ _)
  · exact h
  · exact h
  · exact Nat.lt_of_lt_of_le h (BpfHash.length_cells_updateElem_le _ _ _)

theorem givenOut_modify (h : maps.GivenOut p key) (key' : FlowMapKey) (q : Nat)
    (f : FlowStats → FlowStats) : (maps.modify key' q f).GivenOut p key := by
  cases key <;> cases key'
  · exact Nat.lt_of_lt_of_le h (List.length_modify ..).ge
  · exact h
  · exact h
  · exact Nat.lt_of_lt_of_le h (List.length_modify ..).ge

end Models

/-- The two models are in step, and every pointer in flight has been given out. -/
structure Fresh (s : Concurrent) (t : Overlap) : Prop where
  maps : StockMaps.Models s.maps t.maps
  invocations : t.invocations = s.invocations
  given : ∀ inv ∈ s.invocations, ∀ key, flowKey inv.skb inv.dir = some key →
    ∀ p, inv.pc.pointer = some p → s.maps.GivenOut p key

/-- Moving one invocation in both. -/
theorem Fresh.move {s : Concurrent} {t : Overlap} {i : Nat} {inv : Invocation} {maps : FlowMaps}
    {stock : StockMaps} {pc : Pc} (h : Fresh s t) (hmaps : StockMaps.Models maps stock)
    (hgiven : ∀ key p, s.maps.GivenOut p key → maps.GivenOut p key)
    (hown : ∀ key, flowKey inv.skb inv.dir = some key → ∀ p, pc.pointer = some p →
      maps.GivenOut p key) : Fresh (s.move i inv maps pc) (t.move i inv stock pc) where
  maps := hmaps
  invocations := by rw [Overlap.move, h.invocations]; rfl
  given := by
    intro inv' hmem key hkey p hp
    rcases List.mem_or_eq_of_mem_set hmem with hold | rfl
    · exact hgiven key p (h.given inv' hold key hkey p hp)
    · exact hown key hkey p hp

/-- **One operation of `invoke` is one of these.** -/
theorem fresh_step {s s' : Concurrent} {t : Overlap} {i : Nat} (h : Fresh s t)
    (hs : invoke s i = some s') : ∃ l t', t.step l = some t' ∧ Fresh s' t' := by
  unfold invoke at hs
  cases hi : s.invocations[i]? with
  | none => rw [hi] at hs; cases hs
  | some inv =>
      have hti : t.invocations[i]? = some inv := by rw [h.invocations]; exact hi
      have hmem := List.mem_of_getElem? hi
      rw [hi] at hs
      dsimp only at hs
      cases hkey : flowKey inv.skb inv.dir with
      | none =>
          rw [hkey] at hs
          dsimp only at hs
          split_ifs at hs with hpc
          cases hs
          refine ⟨.operate i 0, t.move i inv t.maps .ignored, ?_,
            h.move h.maps (fun _ _ hp => hp) fun _ _ _ hp => by cases hp⟩
          rw [Overlap.step, hti]
          dsimp only
          rw [hkey]
          exact if_pos hpc
      | some key =>
          rw [hkey] at hs
          obtain ⟨r, hr, rfl⟩ := Option.map_eq_some_iff.mp hs
          -- what is left is the operation itself
          have hstep : ∀ slot stock pc,
              stockOp t.maps slot key inv.skb.len inv.dir inv.pc = some (stock, pc) →
              t.step (.operate i slot) = some (t.move i inv stock pc) := by
            intro slot stock pc hop
            rw [Overlap.step, hti]
            dsimp only
            rw [hkey]
            dsimp only
            rw [hop]
            rfl
          cases hpc : inv.pc with
          | start =>
              rw [hpc, mapOp] at hr
              cases hp : s.maps.lookupElem key with
              | none =>
                  rw [hp] at hr
                  cases hr
                  refine ⟨.operate i 0, _, hstep 0 t.maps .missed ?_,
                    h.move h.maps (fun _ _ hp => hp) fun _ _ _ hp => by cases hp⟩
                  rw [hpc, stockOp, h.maps.lookupElem_eq, hp]
              | some p =>
                  rw [hp] at hr
                  cases hr
                  refine ⟨.operate i 0, _, hstep 0 t.maps (.hit p) ?_,
                    h.move h.maps (fun _ _ hp => hp) fun key' hkey' q hq => ?_⟩
                  · rw [hpc, stockOp, h.maps.lookupElem_eq, hp]
                  · rw [hkey] at hkey'
                    cases hkey'
                    cases hq
                    exact givenOut_of_lookupElem hp
          | missed =>
              rw [hpc] at hr
              cases hr
              obtain ⟨slot, stock, hup, hmodels⟩ :=
                h.maps.updateElem key (initStats inv.skb.len inv.dir)
              refine ⟨.operate i slot, _, hstep slot stock .inserted ?_,
                h.move hmodels (fun _ _ hp => givenOut_updateElem hp _ _)
                  fun _ _ _ hp => by cases hp⟩
              rw [hpc, stockOp, hup, Option.map_some]
          | hit p =>
              rw [hpc] at hr
              cases hr
              have hp := h.given inv hmem key hkey p (by rw [hpc]; rfl)
              refine ⟨.operate i 0, _, hstep 0 _ (.added p) (by rw [hpc, stockOp]),
                h.move (h.maps.modify hp _) (fun _ _ hq => givenOut_modify hq _ _ _)
                  fun key' hkey' q hq => ?_⟩
              rw [hkey] at hkey'
              cases hkey'
              cases hq
              exact givenOut_modify hp _ _ _
          | added p =>
              rw [hpc] at hr
              cases hr
              have hp := h.given inv hmem key hkey p (by rw [hpc]; rfl)
              exact ⟨.operate i 0, _, hstep 0 _ .counted (by rw [hpc, stockOp]),
                h.move (h.maps.modify hp _) (fun _ _ hq => givenOut_modify hq _ _ _)
                  fun _ _ _ hq => by cases hq⟩
          | inserted => rw [hpc] at hr; cases hr
          | counted => rw [hpc] at hr; cases hr
          | ignored => rw [hpc] at hr; cases hr

/-- All packets arrive before anything else happens. -/
theorem run_arrivals (pkts : List (SkBuff × CgroupDirection)) (s : Overlap) :
    run Overlap.step s (pkts.map fun p => .arrive p.1 p.2)
      = some { s with invocations := s.invocations ++ pkts.map fun p => ⟨p.1, p.2, .start⟩ } := by
  induction pkts generalizing s with
  | nil => simp
  | cons p ps ih =>
      have hs : s.step (.arrive p.1 p.2)
          = some { s with invocations := s.invocations ++ [⟨p.1, p.2, .start⟩] } := rfl
      rw [List.map_cons, run_cons hs, ih]
      simp

/-- **Every run of `invoke` from empty maps is a run over elements that may be used again.** -/
theorem invoke_refines_overlap {pkts : List (SkBuff × CgroupDirection)} {sched : List Nat}
    {s : Concurrent} (hrun : run invoke (started FlowMaps.empty pkts) sched = some s) :
    ∃ ls t, run Overlap.step Overlap.init ls = some t ∧ t.invocations = s.invocations ∧
      ∀ key, t.maps.val key = s.maps.val key := by
  have h0 : Fresh (started FlowMaps.empty pkts)
      ⟨StockMaps.empty, pkts.map fun p => ⟨p.1, p.2, .start⟩⟩ := by
    refine ⟨⟨ElementPool.models_empty _, ElementPool.models_empty _⟩, rfl, ?_⟩
    intro inv hmem key _ p hp
    obtain ⟨q, -, rfl⟩ := List.mem_map.mp hmem
    cases hp
  have hsim : ∀ s i s' t, Fresh s t → invoke s i = some s' →
      ∃ ls t', run Overlap.step t ls = some t' ∧ Fresh s' t' := by
    intro s i s' t h hs
    obtain ⟨l, t', hl, h'⟩ := fresh_step h hs
    exact ⟨[l], t', (run_cons hl []).trans rfl, h'⟩
  obtain ⟨ls, t, ht, hfresh⟩ := run_simulate hsim h0 hrun
  have harrive := run_arrivals pkts Overlap.init
  refine ⟨_ ++ ls, t, (run_append harrive).trans ht, hfresh.invocations, hfresh.maps.val_eq⟩

end Kubpf.Kernel
