import Kubpf.Lib.Transition
import Kubpf.Kernel.FlowReader

/-!
# Invocations that overlap

`bpf_flow_reader` runs on every CPU at once, and only its map operations are
atomic: the lookup, the update, and each of the two adds. Here an invocation is
taken apart into those operations, and any number of them run against one pair
of maps in any order.

Both families of keys go through the same operations, so the maps are addressed
by a key of either family. `invoke_alone` puts the pieces together again: an
invocation that nobody interrupts does what `bpfFlowReader` does.
-/

namespace Kubpf.Kernel

open Lib

/-- A normalised key of either family. -/
abbrev FlowMapKey := InetV4Flow ⊕ InetV6Flow

/-! ## The maps, by a key of either family -/

namespace FlowMaps

/-- `bpf_map_lookup_elem` in the map of the key's family. -/
def lookupElem (maps : FlowMaps) : FlowMapKey → Option Nat
  | .inl v4Key => maps.v4FlowMap.lookupElem v4Key
  | .inr v6Key => maps.v6FlowMap.lookupElem v6Key

/-- `bpf_map_update_elem` with `BPF_ANY`. -/
def updateElem (maps : FlowMaps) (key : FlowMapKey) (value : FlowStats) : FlowMaps :=
  match key with
  | .inl v4Key => { maps with v4FlowMap := (maps.v4FlowMap.updateElem v4Key value).2 }
  | .inr v6Key => { maps with v6FlowMap := (maps.v6FlowMap.updateElem v6Key value).2 }

/-- A write through an element pointer. -/
def modify (maps : FlowMaps) (key : FlowMapKey) (p : Nat) (f : FlowStats → FlowStats) : FlowMaps :=
  match key with
  | .inl _ => { maps with v4FlowMap := maps.v4FlowMap.modify p f }
  | .inr _ => { maps with v6FlowMap := maps.v6FlowMap.modify p f }

/-- An insert of the key would be refused. -/
def Full (maps : FlowMaps) : FlowMapKey → Prop
  | .inl v4Key => maps.v4FlowMap.Full v4Key
  | .inr v6Key => maps.v6FlowMap.Full v6Key

instance (maps : FlowMaps) : (key : FlowMapKey) → Decidable (maps.Full key)
  | .inl v4Key => inferInstanceAs (Decidable (maps.v4FlowMap.Full v4Key))
  | .inr v6Key => inferInstanceAs (Decidable (maps.v6FlowMap.Full v6Key))

/-- What the map of the key's family holds under it. -/
def val (maps : FlowMaps) : FlowMapKey → Option FlowStats
  | .inl v4Key => maps.v4FlowMap.val v4Key
  | .inr v6Key => maps.v6FlowMap.val v6Key

theorem val_eq_none {maps : FlowMaps} {key : FlowMapKey} :
    maps.val key = none ↔ maps.lookupElem key = none := by
  cases key <;> exact BpfHash.val_eq_none

@[simp] theorem lookupElem_modify (maps : FlowMaps) (key : FlowMapKey) (p : Nat)
    (f : FlowStats → FlowStats) : (maps.modify key p f).lookupElem key = maps.lookupElem key := by
  cases key <;> rfl

theorem full_modify {maps : FlowMaps} {key : FlowMapKey} {p : Nat} {f : FlowStats → FlowStats} :
    (maps.modify key p f).Full key ↔ maps.Full key := by
  cases key <;> rfl

/-- An update that is not refused leaves its value under the key. -/
theorem val_updateElem {maps : FlowMaps} {key : FlowMapKey} {v : FlowStats}
    (h : ¬ maps.Full key) : (maps.updateElem key v).val key = some v := by
  cases key with
  | inl v4Key =>
      have hv := congrFun (BpfHash.val_updateElem (v := v) h) v4Key
      rw [Function.update_self] at hv
      exact hv
  | inr v6Key =>
      have hv := congrFun (BpfHash.val_updateElem (v := v) h) v6Key
      rw [Function.update_self] at hv
      exact hv

/-- A key that is present can always be updated. -/
theorem not_full_of_val {maps : FlowMaps} {key : FlowMapKey} {value : FlowStats}
    (h : maps.val key = some value) : ¬ maps.Full key := by
  cases key with
  | inl v4Key => exact fun hf => hf.1 (BpfHash.mem_keys.mpr (Option.isSome_of_eq_some h))
  | inr v6Key => exact fun hf => hf.1 (BpfHash.mem_keys.mpr (Option.isSome_of_eq_some h))

/-- A write through the key's own pointer is a write to its value. -/
theorem val_modify {maps : FlowMaps} {key : FlowMapKey} {p : Nat} {value : FlowStats}
    (f : FlowStats → FlowStats) (h : maps.lookupElem key = some p)
    (hv : maps.val key = some value) : (maps.modify key p f).val key = some (f value) := by
  cases key with
  | inl v4Key =>
      have hm := congrFun (BpfHash.val_modify f h) v4Key
      rw [Function.update_self] at hm
      rw [Option.some.inj (hv.symm.trans (BpfHash.val_of_lookupElem h))]
      exact hm
  | inr v6Key =>
      have hm := congrFun (BpfHash.val_modify f h) v6Key
      rw [Function.update_self] at hm
      rw [Option.some.inj (hv.symm.trans (BpfHash.val_of_lookupElem h))]
      exact hm

/-- A write through a pointer that an update has replaced in the meantime is lost. -/
theorem val_modify_of_ne {maps : FlowMaps} {key : FlowMapKey} {p : Nat}
    (f : FlowStats → FlowStats) (h : maps.lookupElem key ≠ some p) :
    (maps.modify key p f).val key = maps.val key := by
  cases key with
  | inl v4Key => exact BpfHash.val_modify_of_ne f h
  | inr v6Key => exact BpfHash.val_modify_of_ne f h

end FlowMaps

/-! ## An invocation, operation by operation -/

/-- How far an invocation has come, with the pointer it holds. -/
inductive Pc where
  | start
  /-- The lookup returned null: the insert is next. -/
  | missed
  /-- The lookup returned an element: the bytes are next. -/
  | hit (value : Nat)
  /-- The bytes are added: the packet is next. -/
  | added (value : Nat)
  | inserted
  | counted
  | ignored
  deriving DecidableEq, Repr

/-- The invocation has returned. -/
def Pc.Returned : Pc → Prop
  | .inserted | .counted | .ignored => True
  | _ => False

instance : DecidablePred Pc.Returned := fun pc => by
  cases pc <;> unfold Pc.Returned <;> infer_instance

structure Invocation where
  skb : SkBuff
  dir : CgroupDirection
  pc : Pc
  deriving DecidableEq, Repr

/-- Invocations in flight over the maps they share. -/
structure Concurrent where
  maps : FlowMaps
  invocations : List Invocation

/-- The next map operation of an invocation that counts a packet under `key`. -/
def mapOp (maps : FlowMaps) (key : FlowMapKey) (len : UInt32) (dir : CgroupDirection) :
    Pc → Option (FlowMaps × Pc)
  | .start =>
    match maps.lookupElem key with
    | none => some (maps, .missed)
    | some value => some (maps, .hit value)
  | .missed => some (maps.updateElem key (initStats len dir), .inserted)
  | .hit value => some (maps.modify key value (addBytes len dir), .added value)
  | .added value => some (maps.modify key value (addPacket dir), .counted)
  | .inserted | .counted | .ignored => none

/-- The `i`-th invocation is where `pc` says, over these maps. -/
def Concurrent.move (s : Concurrent) (i : Nat) (inv : Invocation) (maps : FlowMaps) (pc : Pc) :
    Concurrent where
  maps := maps
  invocations := s.invocations.set i { inv with pc }

/-- The `i`-th invocation performs its next map operation. A packet without a key is given up
before the first one. -/
def invoke (s : Concurrent) (i : Nat) : Option Concurrent :=
  match s.invocations[i]? with
  | none => none
  | some inv =>
    match flowKey inv.skb inv.dir with
    | none => if inv.pc = .start then some (s.move i inv s.maps .ignored) else none
    | some key =>
      (mapOp s.maps key inv.skb.len inv.dir inv.pc).map fun r => s.move i inv r.1 r.2

/-- All packets have arrived and nothing has been done about them. -/
def started (maps : FlowMaps) (pkts : List (SkBuff × CgroupDirection)) : Concurrent where
  maps := maps
  invocations := pkts.map fun p => ⟨p.1, p.2, .start⟩

/-! ## What one operation can do -/

/-- The five ways an invocation with a key can move. -/
inductive Moves (key : FlowMapKey) (s : Concurrent) (i : Nat) (inv : Invocation) :
    Concurrent → Prop
  | miss (hpc : inv.pc = .start) (hp : s.maps.lookupElem key = none) :
      Moves key s i inv (s.move i inv s.maps .missed)
  | find (p : Nat) (hpc : inv.pc = .start) (hp : s.maps.lookupElem key = some p) :
      Moves key s i inv (s.move i inv s.maps (.hit p))
  | insert (hpc : inv.pc = .missed) :
      Moves key s i inv
        (s.move i inv (s.maps.updateElem key (initStats inv.skb.len inv.dir)) .inserted)
  | bytes (p : Nat) (hpc : inv.pc = .hit p) :
      Moves key s i inv
        (s.move i inv (s.maps.modify key p (addBytes inv.skb.len inv.dir)) (.added p))
  | packet (p : Nat) (hpc : inv.pc = .added p) :
      Moves key s i inv (s.move i inv (s.maps.modify key p (addPacket inv.dir)) .counted)

theorem mapOp_moves {key : FlowMapKey} {s : Concurrent} {i : Nat} {inv : Invocation}
    {r : FlowMaps × Pc} (h : mapOp s.maps key inv.skb.len inv.dir inv.pc = some r) :
    Moves key s i inv (s.move i inv r.1 r.2) := by
  cases hpc : inv.pc with
  | start =>
      rw [hpc, mapOp] at h
      cases hp : s.maps.lookupElem key with
      | none => rw [hp] at h; cases h; exact .miss hpc hp
      | some p => rw [hp] at h; cases h; exact .find p hpc hp
  | missed => rw [hpc] at h; cases h; exact .insert hpc
  | hit p => rw [hpc] at h; cases h; exact .bytes p hpc
  | added p => rw [hpc] at h; cases h; exact .packet p hpc
  | inserted => rw [hpc] at h; cases h
  | counted => rw [hpc] at h; cases h
  | ignored => rw [hpc] at h; cases h

/-- **Every step moves one invocation, in one of the five ways.** -/
theorem invoke_moves {key : FlowMapKey} {s s' : Concurrent} {i : Nat}
    (hkey : ∀ inv ∈ s.invocations, flowKey inv.skb inv.dir = some key)
    (h : invoke s i = some s') : ∃ inv, s.invocations[i]? = some inv ∧ Moves key s i inv s' := by
  unfold invoke at h
  cases hi : s.invocations[i]? with
  | none => rw [hi] at h; exact absurd h (by simp)
  | some inv =>
      rw [hi] at h
      dsimp only at h
      rw [hkey inv (List.mem_of_getElem? hi)] at h
      obtain ⟨r, hr, rfl⟩ := Option.map_eq_some_iff.mp h
      exact ⟨inv, rfl, mapOp_moves hr⟩

/-- One operation of the only invocation. -/
theorem invoke_single {maps maps' : FlowMaps} {skb : SkBuff} {dir : CgroupDirection}
    {key : FlowMapKey} {pc pc' : Pc} (hkey : flowKey skb dir = some key)
    (h : mapOp maps key skb.len dir pc = some (maps', pc')) :
    invoke ⟨maps, [⟨skb, dir, pc⟩]⟩ 0 = some ⟨maps', [⟨skb, dir, pc'⟩]⟩ := by
  have h0 : [(⟨skb, dir, pc⟩ : Invocation)][0]? = some ⟨skb, dir, pc⟩ := rfl
  rw [invoke, h0]
  dsimp only
  rw [hkey]
  dsimp only
  rw [h]
  rfl

/-- **An invocation nobody interrupts is `bpf_flow_reader`.** -/
theorem invoke_alone (maps : FlowMaps) (skb : SkBuff) (dir : CgroupDirection) :
    ∃ n pc, pc.Returned ∧ run invoke (started maps [(skb, dir)]) (List.replicate n 0)
      = some ⟨bpfFlowReader skb dir maps, [⟨skb, dir, pc⟩]⟩ := by
  unfold bpfFlowReader
  cases hkey : flowKey skb dir with
  | none =>
      refine ⟨1, .ignored, trivial, ?_⟩
      have h0 : invoke (started maps [(skb, dir)]) 0
          = some ⟨maps, [⟨skb, dir, .ignored⟩]⟩ := by
        simp [invoke, started, hkey, Concurrent.move]
      rw [List.replicate_one, run_cons h0]
      rfl
  | some key =>
      cases hp : maps.lookupElem key with
      | none =>
          refine ⟨2, .inserted, trivial, ?_⟩
          have h0 : mapOp maps key skb.len dir .start = some (maps, .missed) := by
            rw [mapOp, hp]
          have h1 : invoke (started maps [(skb, dir)]) 0 = _ := invoke_single hkey h0
          -- the miss, then the insert
          rw [List.replicate_succ, run_cons h1, List.replicate_one,
            run_cons (invoke_single hkey rfl)]
          cases key with
          | inl v4Key =>
              have hp4 : maps.v4FlowMap.lookupElem v4Key = none := hp
              simp only [run_nil, countPacket, hp4]
              rfl
          | inr v6Key =>
              have hp6 : maps.v6FlowMap.lookupElem v6Key = none := hp
              simp only [run_nil, countPacket, hp6]
              rfl
      | some p =>
          refine ⟨3, .counted, trivial, ?_⟩
          have h0 : mapOp maps key skb.len dir .start = some (maps, .hit p) := by
            rw [mapOp, hp]
          have h1 : invoke (started maps [(skb, dir)]) 0 = _ := invoke_single hkey h0
          -- the find, then the bytes, then the packet
          rw [List.replicate_succ, run_cons h1, List.replicate_succ,
            run_cons (invoke_single hkey rfl), List.replicate_one,
            run_cons (invoke_single hkey rfl)]
          cases key with
          | inl v4Key =>
              have hp4 : maps.v4FlowMap.lookupElem v4Key = some p := hp
              simp only [run_nil, countPacket, hp4]
              rfl
          | inr v6Key =>
              have hp6 : maps.v6FlowMap.lookupElem v6Key = some p := hp
              simp only [run_nil, countPacket, hp6]
              rfl

end Kubpf.Kernel
