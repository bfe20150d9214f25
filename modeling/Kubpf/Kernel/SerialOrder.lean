import Kubpf.Kernel.FlowStore
import Kubpf.Kernel.Recycling

/-!
# Overlapping packets have an order

`bpf_flow_reader` takes up to three map operations for a packet, and other
invocations and the agent's deletions come in between. Unless one of them frees an
element that is in use, or two invocations insert the same flow, this cannot be
told from a run in which every packet is counted at once: there is one order of
packets and deletions that explains the maps at every moment
(`overlaps_serialise`).

A packet takes its place in the order when its element is found, or its record
inserted, or when it is given up. What it has then still to add is `pending`.
-/

namespace Kubpf.Kernel

open Lib

/-! ## One update after another -/

/-- What the serial order is made of. -/
inductive Update where
  /-- A packet is counted, all at once. -/
  | count (skb : SkBuff) (dir : CgroupDirection)
  | delete (key : FlowMapKey)
  deriving DecidableEq

namespace Update

def counted : Update → Option (SkBuff × CgroupDirection)
  | .count skb dir => some (skb, dir)
  | .delete _ => none

def deleted : Update → Option FlowMapKey
  | .count _ _ => none
  | .delete key => some key

end Update

/-- The key a step deletes. -/
def OverlapLabel.deletes : OverlapLabel → Option FlowMapKey
  | .delete key => some key
  | _ => none

/-- `bpf_map_delete_elem`. -/
def FlowMaps.deleteElem (maps : FlowMaps) : FlowMapKey → FlowMaps
  | .inl v4Key => { maps with v4FlowMap := maps.v4FlowMap.deleteElem v4Key }
  | .inr v6Key => { maps with v6FlowMap := maps.v6FlowMap.deleteElem v6Key }

theorem FlowMaps.val_deleteElem (maps : FlowMaps) (key key' : FlowMapKey) :
    (maps.deleteElem key).val key' = if key' = key then none else maps.val key' := by
  cases key <;> cases key' <;> simp [deleteElem, val, Function.update_apply]

/-- One update of the maps. -/
def update (maps : FlowMaps) : Update → FlowMaps
  | .count skb dir => bpfFlowReader skb dir maps
  | .delete key => maps.deleteElem key

/-- The maps after some updates, from when they were made. -/
def serially (us : List Update) : FlowMaps := us.foldl update FlowMaps.empty

theorem serially_concat (us : List Update) (u : Update) :
    serially (us ++ [u]) = update (serially us) u := by
  rw [serially, List.foldl_append]
  rfl

theorem sameSize_update (maps : FlowMaps) (u : Update) : SameSize (update maps u) maps := by
  cases u with
  | count skb dir => exact sameSize_bpfFlowReader maps skb dir
  | delete key => cases key <;> exact ⟨rfl, rfl⟩

/-- The maps keep their sizes. -/
theorem sameSize_serially (us : List Update) : SameSize (serially us) FlowMaps.empty := by
  induction us using List.reverseRecOn with
  | nil => exact ⟨rfl, rfl⟩
  | append_singleton us u ih =>
      rw [serially_concat]
      exact (sameSize_update (serially us) u).trans ih

/-! ## When a packet takes its place -/

/-- The invocation has its element, or needs none any more. -/
def Invocation.placed (inv : Invocation) : Bool :=
  match inv.pc with
  | .start | .missed => false
  | _ => true

/-- Its next operation gets it there. -/
def Invocation.settles (maps : StockMaps) (inv : Invocation) : Bool :=
  match inv.pc with
  | .start =>
    match flowKey inv.skb inv.dir with
    | none => true
    | some key => (maps.lookupElem key).isSome
  | .missed => true
  | _ => false

/-- The updates that take their place in the order with a step. -/
def Overlap.settled (s : Overlap) : OverlapLabel → List Update
  | .arrive _ _ => []
  | .delete key => [.delete key]
  | .operate i _ =>
    match s.invocations[i]? with
    | none => []
    | some inv => if inv.settles s.maps then [.count inv.skb inv.dir] else []

/-- The order of the updates of a run. -/
def serialOrder (ls : List OverlapLabel) : List Update :=
  effects Overlap.step Overlap.settled Overlap.init ls

/-- What an invocation has still to add to its element. -/
def Invocation.pending (inv : Invocation) : FlowStatsOf Nat :=
  match inv.pc with
  | .hit _ => packetStats inv.skb.len inv.dir
  | .added _ => oneStats inv.dir
  | _ => 0

/-- What the element of a key has still to get. -/
def Overlap.pending (s : Overlap) (key : FlowMapKey) : FlowStatsOf Nat :=
  (s.invocations.map fun inv =>
    if flowKey inv.skb inv.dir = some key then inv.pending else 0).sum

/-- The packets that have taken their place. -/
def Overlap.placed (s : Overlap) : Multiset (SkBuff × CgroupDirection) :=
  (s.invocations.map fun inv =>
    if inv.placed then ({(inv.skb, inv.dir)} : Multiset _) else 0).sum

/-- No element is freed that an invocation is at work on, and no update replaces an entry. -/
def Undisturbed (s : Overlap) (l : OverlapLabel) : Prop :=
  IdleFreed s l ∧ ∀ key ∈ s.inserts l, s.maps.val key = none

instance (s : Overlap) (l : OverlapLabel) : Decidable (Undisturbed s l) :=
  inferInstanceAs (Decidable (_ ∧ _))

/-! ## What is pending, and who is placed -/

section Accounts

variable {s : Overlap} {i slot : Nat} {inv : Invocation} {maps : StockMaps} {pc : Pc}
  {key : FlowMapKey}

theorem settled_operate (hi : s.invocations[i]? = some inv) :
    s.settled (.operate i slot) = if inv.settles s.maps then [.count inv.skb inv.dir] else [] := by
  rw [Overlap.settled, hi]

/-- A key without an element has nothing pending. -/
theorem pending_of_absent (h : Current s) (hval : s.maps.val key = none) : s.pending key = 0 := by
  refine List.sum_eq_zero fun x hx => ?_
  obtain ⟨inv, hmem, rfl⟩ := List.mem_map.mp hx
  have hnone := StockMaps.val_eq_none.mp hval
  -- whoever had a pointer would have it from a lookup that returns null
  have habsent : ∀ p, flowKey inv.skb inv.dir = some key → inv.pc.pointer ≠ some p := by
    intro p hkey hp
    have hlookup := h inv hmem key hkey p hp
    rw [hnone] at hlookup
    cases hlookup
  split_ifs with hkey
  · rw [Invocation.pending]
    cases hpc : inv.pc with
    | hit p => exact absurd (by rw [hpc]; rfl) (habsent p hkey)
    | added p => exact absurd (by rw [hpc]; rfl) (habsent p hkey)
    | start | missed | inserted | counted | ignored => rfl
  · rfl

theorem pending_arrive (s : Overlap) (skb : SkBuff) (dir : CgroupDirection) (key : FlowMapKey) :
    Overlap.pending { s with invocations := s.invocations ++ [⟨skb, dir, .start⟩] } key
      = s.pending key := by
  rw [Overlap.pending, List.map_append, List.sum_append]
  simp [Overlap.pending, Invocation.pending]

/-- Moving an invocation changes what is pending for its own key. -/
theorem pending_move {c d : FlowStatsOf Nat} (hi : s.invocations[i]? = some inv)
    (hkey : flowKey inv.skb inv.dir = some key)
    (hpend : ({ inv with pc } : Invocation).pending + c = inv.pending + d) :
    (s.move i inv maps pc).pending key + c = s.pending key + d := by
  refine sum_map_set_add hi ?_
  dsimp only
  rw [if_pos hkey, if_pos hkey]
  exact hpend

theorem pending_move_of_ne (hi : s.invocations[i]? = some inv) {key' : FlowMapKey}
    (hkey : flowKey inv.skb inv.dir ≠ some key') :
    (s.move i inv maps pc).pending key' = s.pending key' := by
  have hsame := sum_map_set (y := { inv with pc }) (d := 0)
    (f := fun inv => if flowKey inv.skb inv.dir = some key' then inv.pending else 0) hi
    (by simp [hkey])
  rw [add_zero] at hsame
  exact hsame

/-- An invocation that moves takes its place with this step, or has it already, or not yet. -/
theorem placed_move (hi : s.invocations[i]? = some inv)
    (hplaced : ({ inv with pc } : Invocation).placed = (inv.placed || inv.settles s.maps))
    (hnew : inv.settles s.maps = true → inv.placed = false) :
    (s.move i inv maps pc).placed
      = s.placed + (((s.settled (.operate i slot)).filterMap Update.counted : List _) :
          Multiset (SkBuff × CgroupDirection)) := by
  refine sum_map_set hi ?_
  rw [settled_operate hi]
  dsimp only
  rw [hplaced]
  cases hsettles : inv.settles s.maps with
  | false =>
      rw [Bool.or_false]
      exact (add_zero _).symm
  | true =>
      rw [hnew hsettles]
      exact (zero_add _).symm

end Accounts

/-! ## One order for all -/

/-- The elements of both maps are as many as `ebpf_maps.h` says. -/
structure StockMaps.Sized (maps : StockMaps) : Prop where
  v4 : maps.v4FlowMap.maxEntries = v4FlowMapSize
  v6 : maps.v6FlowMap.maxEntries = v6FlowMapSize

theorem StockMaps.sized_updateElem {maps maps' : StockMaps} {slot : Nat} {key : FlowMapKey}
    {value : FlowStats} (h : maps.Sized) (hup : maps.updateElem slot key value = some maps') :
    maps'.Sized := by
  cases key with
  | inl v4Key =>
      obtain ⟨m, hm, rfl⟩ := Option.map_eq_some_iff.mp hup
      rcases ElementPool.updateElem_eq_some hm with ⟨-, rfl⟩ | ⟨_, _, rfl⟩
      · exact ⟨h.v4, h.v6⟩
      · exact ⟨h.v4, h.v6⟩
  | inr v6Key =>
      obtain ⟨m, hm, rfl⟩ := Option.map_eq_some_iff.mp hup
      rcases ElementPool.updateElem_eq_some hm with ⟨-, rfl⟩ | ⟨_, _, rfl⟩
      · exact ⟨h.v4, h.v6⟩
      · exact ⟨h.v4, h.v6⟩

theorem StockMaps.sized_modify {maps : StockMaps} (h : maps.Sized) (key : FlowMapKey) (p : Nat)
    (f : FlowStats → FlowStats) : (maps.modify key p f).Sized := by
  cases key <;> exact ⟨h.v4, h.v6⟩

theorem StockMaps.sized_deleteElem {maps : StockMaps} (h : maps.Sized) (key : FlowMapKey) :
    (maps.deleteElem key).Sized := by
  cases key <;> exact ⟨h.v4, h.v6⟩

theorem sized_step {s s' : Overlap} {l : OverlapLabel} (h : s.maps.Sized)
    (hs : s.step l = some s') : s'.maps.Sized := by
  cases Overlap.step_inv hs with
  | arrive skb dir => exact h
  | ignore i slot inv hi hkey hpc => exact h
  | operate i slot inv key maps pc hi hkey hmove =>
      cases hmove with
      | miss hpc hp => exact h
      | find p hpc hp => exact h
      | insert _ hpc hup => exact StockMaps.sized_updateElem h hup
      | bytes p hpc => exact StockMaps.sized_modify h _ _ _
      | packet p hpc => exact StockMaps.sized_modify h _ _ _
  | delete key => exact StockMaps.sized_deleteElem h key

/-- The maps are what the updates so far make of them, less what is pending. -/
structure Serial (s : Overlap) (us : List Update) : Prop where
  current : Current s
  sized : s.maps.Sized
  val : ∀ key,
    (serially us).val key = (s.maps.val key).map (· + FlowStatsOf.ofNat (s.pending key))
  placed : ((us.filterMap Update.counted : List _) : Multiset _) = s.placed

theorem serial_init : Serial Overlap.init [] where
  current := current_init
  sized := ⟨rfl, rfl⟩
  val := by
    intro key
    rw [Overlap.init, StockMaps.val_empty]
    cases key with
    | inl v4Key => exact BpfHash.val_empty _ v4Key
    | inr v6Key => exact BpfHash.val_empty _ v6Key
  placed := rfl

/-- **Both runs refuse the same flows.** -/
theorem Serial.full_iff {s : Overlap} {us : List Update} (h : Serial s us) (key : FlowMapKey) :
    s.maps.Full key ↔ (serially us).Full key := by
  have hsize := sameSize_serially us
  have hsome : ∀ key, (s.maps.val key).isSome = ((serially us).val key).isSome := by
    intro key
    rw [h.val, Option.isSome_map]
  cases key with
  | inl v4Key =>
      exact ElementPool.full_iff (h.sized.v4.trans hsize.v4.symm) (fun k => hsome (.inl k)) v4Key
  | inr v6Key =>
      exact ElementPool.full_iff (h.sized.v6.trans hsize.v6.symm) (fun k => hsome (.inr k)) v6Key

/-- What is put in is no longer pending. -/
theorem add_pending (v : FlowStats) {a c d : FlowStatsOf Nat} (h : a + c = d) :
    v + FlowStatsOf.ofNat c + FlowStatsOf.ofNat a = v + FlowStatsOf.ofNat d := by
  rw [← h, FlowStatsOf.ofNat_add, add_assoc, add_comm (FlowStatsOf.ofNat a)]

section Operation

variable {s : Overlap} {us : List Update} {i slot : Nat} {inv : Invocation} {key : FlowMapKey}
  {maps : StockMaps} {pc : Pc}

theorem serially_settled (hi : s.invocations[i]? = some inv) :
    serially (us ++ s.settled (.operate i slot))
      = if inv.settles s.maps then bpfFlowReader inv.skb inv.dir (serially us)
        else serially us := by
  rw [settled_operate hi]
  split_ifs
  · exact serially_concat us _
  · exact congrArg serially (List.append_nil us)

/-- **One operation**, seen by the entry of its key in both runs: in the one an invocation moves,
in the other its packet is counted if it has now taken its place. -/
theorem val_settled (h : Serial s us) (hi : s.invocations[i]? = some inv)
    (hkey : flowKey inv.skb inv.dir = some key) (hmove : StockMove s.maps slot key inv maps pc)
    (hins : inv.pc = .missed → s.maps.val key = none) :
    (serially (us ++ s.settled (.operate i slot))).val key
      = (maps.val key).map (· + FlowStatsOf.ofNat ((s.move i inv maps pc).pending key)) := by
  have hval := h.val key
  rw [serially_settled hi]
  cases hmove with
  | miss hpc hp =>
      have hnot : inv.settles s.maps = false := by simp [Invocation.settles, hpc, hkey, hp]
      have hpend : (s.move i inv s.maps .missed).pending key + 0 = s.pending key + 0 :=
        pending_move hi hkey (by simp [Invocation.pending, hpc])
      rw [add_zero, add_zero] at hpend
      rw [hnot, if_neg Bool.false_ne_true, hpend]
      exact hval
  | find p hpc hp =>
      have hyes : inv.settles s.maps = true := by simp [Invocation.settles, hpc, hkey, hp]
      have hpend : (s.move i inv s.maps (.hit p)).pending key + 0
          = s.pending key + packetStats inv.skb.len inv.dir :=
        pending_move hi hkey (by simp [Invocation.pending, hpc])
      rw [add_zero] at hpend
      rw [hyes, if_pos rfl, hpend]
      cases hv : s.maps.val key with
      | none => exact absurd (StockMaps.val_eq_none.mp hv) (by rw [hp]; simp)
      | some v =>
          rw [hv, Option.map_some] at hval
          rw [val_bpfFlowReader hkey (FlowMaps.not_full_of_val hval), hval, Option.map_some,
            FlowStatsOf.ofNat_add, ← add_assoc]
          rfl
  | insert _ hpc hup =>
      have hyes : inv.settles s.maps = true := by simp [Invocation.settles, hpc]
      have hpend : (s.move i inv maps .inserted).pending key + 0 = s.pending key + 0 :=
        pending_move hi hkey (by simp [Invocation.pending, hpc])
      have hnone := hins hpc
      rw [add_zero, add_zero, pending_of_absent h.current hnone] at hpend
      rw [hnone, Option.map_none] at hval
      rw [hyes, if_pos rfl, hpend]
      rcases StockMaps.updateElem_eq_some hup with ⟨hfull, rfl⟩ | ⟨hroom, -, hnew⟩
      · rw [bpfFlowReader_of_full hkey ((h.full_iff key).mp hfull), hval, hnone]
        rfl
      · have hroom' : ¬ (serially us).Full key := fun hf => hroom ((h.full_iff key).mpr hf)
        rw [val_bpfFlowReader hkey hroom', hval, hnew, if_pos rfl, initStats_eq]
        simp
  | bytes p hpc =>
      have hnot : inv.settles s.maps = false := by simp [Invocation.settles, hpc]
      have hpend : (s.move i inv (s.maps.modify key p (addBytes inv.skb.len inv.dir))
          (.added p)).pending key + byteStats inv.skb.len inv.dir = s.pending key + 0 :=
        pending_move hi hkey (by simp [Invocation.pending, hpc, packetStats_eq, add_comm])
      have hlookup := h.current inv (List.mem_of_getElem? hi) key hkey p (by rw [hpc]; rfl)
      rw [add_zero] at hpend
      rw [hnot, if_neg Bool.false_ne_true, StockMaps.val_modify _ hlookup, if_pos rfl, hval,
        Option.map_map]
      refine congrArg (Option.map · _) (funext fun v => ?_)
      rw [Function.comp_apply, addBytes_eq, add_pending v hpend]
  | packet p hpc =>
      have hnot : inv.settles s.maps = false := by simp [Invocation.settles, hpc]
      have hpend : (s.move i inv (s.maps.modify key p (addPacket inv.dir))
          .counted).pending key + oneStats inv.dir = s.pending key + 0 :=
        pending_move hi hkey (by simp [Invocation.pending, hpc])
      have hlookup := h.current inv (List.mem_of_getElem? hi) key hkey p (by rw [hpc]; rfl)
      rw [add_zero] at hpend
      rw [hnot, if_neg Bool.false_ne_true, StockMaps.val_modify _ hlookup, if_pos rfl, hval,
        Option.map_map]
      refine congrArg (Option.map · _) (funext fun v => ?_)
      rw [Function.comp_apply, addPacket_eq, add_pending v hpend]

/-- The other entries see nothing of it. -/
theorem val_settled_of_ne (h : Serial s us) (hi : s.invocations[i]? = some inv)
    (hkey : flowKey inv.skb inv.dir = some key) (hmove : StockMove s.maps slot key inv maps pc)
    {key' : FlowMapKey} (hne : key' ≠ key) :
    (serially (us ++ s.settled (.operate i slot))).val key'
      = (maps.val key').map (· + FlowStatsOf.ofNat ((s.move i inv maps pc).pending key')) := by
  have hother : flowKey inv.skb inv.dir ≠ some key' := by
    rw [hkey]
    exact fun he => hne (Option.some.inj he).symm
  obtain ⟨-, -, -, -, hmaps⟩ :=
    val_stockMove hmove (h.current inv (List.mem_of_getElem? hi) key hkey)
  rw [hmaps key' hne, pending_move_of_ne hi hother, ← h.val key', serially_settled hi]
  split_ifs
  · exact val_bpfFlowReader_of_ne hother
  · rfl

/-- An operation places its invocation when it settles it. -/
theorem placed_stockMove (hkey : flowKey inv.skb inv.dir = some key)
    (hmove : StockMove s.maps slot key inv maps pc) :
    ({ inv with pc } : Invocation).placed = (inv.placed || inv.settles s.maps) ∧
      (inv.settles s.maps = true → inv.placed = false) := by
  cases hmove with
  | miss hpc hp => simp [Invocation.placed, Invocation.settles, hpc, hkey, hp]
  | find p hpc hp => simp [Invocation.placed, Invocation.settles, hpc, hkey, hp]
  | insert _ hpc hup => simp [Invocation.placed, Invocation.settles, hpc]
  | bytes p hpc => simp [Invocation.placed, Invocation.settles, hpc]
  | packet p hpc => simp [Invocation.placed, Invocation.settles, hpc]

end Operation

theorem placed_arrive (s : Overlap) (skb : SkBuff) (dir : CgroupDirection) :
    Overlap.placed { s with invocations := s.invocations ++ [⟨skb, dir, .start⟩] } = s.placed := by
  rw [Overlap.placed, List.map_append, List.sum_append]
  simp [Overlap.placed, Invocation.placed]

/-- **One step**, seen by every entry. -/
theorem val_step {s s' : Overlap} {us : List Update} {l : OverlapLabel} (h : Serial s us)
    (hl : Undisturbed s l) (hs : s.step l = some s') (key : FlowMapKey) :
    (serially (us ++ s.settled l)).val key
      = (s'.maps.val key).map (· + FlowStatsOf.ofNat (s'.pending key)) := by
  cases Overlap.step_inv hs with
  | arrive skb dir =>
      rw [pending_arrive, Overlap.settled, List.append_nil]
      exact h.val key
  | ignore i slot inv hi hkey hpc =>
      have hother : flowKey inv.skb inv.dir ≠ some key := by simp [hkey]
      rw [pending_move_of_ne hi hother, serially_settled hi]
      split_ifs
      · exact (val_bpfFlowReader_of_ne hother).trans (h.val key)
      · exact h.val key
  | operate i slot inv key' maps pc hi hkey hmove =>
      by_cases hsame : key = key'
      · subst hsame
        refine val_settled h hi hkey hmove fun hpc => hl.2 key ?_
        rw [inserts_operate hi hpc, hkey]
        rfl
      · exact val_settled_of_ne h hi hkey hmove hsame
  | delete key' =>
      have hdel : serially (us ++ s.settled (.delete key')) = (serially us).deleteElem key' :=
        serially_concat us _
      rw [hdel, FlowMaps.val_deleteElem, StockMaps.val_deleteElem]
      split_ifs
      · rfl
      · exact h.val key

theorem placed_step {s s' : Overlap} {l : OverlapLabel} (hs : s.step l = some s') :
    s'.placed = s.placed + (((s.settled l).filterMap Update.counted : List _) : Multiset _) := by
  cases Overlap.step_inv hs with
  | arrive skb dir => exact (placed_arrive s skb dir).trans (add_zero _).symm
  | ignore i slot inv hi hkey hpc =>
      refine placed_move hi ?_ fun _ => ?_
      · simp [Invocation.placed, Invocation.settles, hpc, hkey]
      · simp [Invocation.placed, hpc]
  | operate i slot inv key maps pc hi hkey hmove =>
      obtain ⟨hplaced, hnew⟩ := placed_stockMove hkey hmove
      exact placed_move hi hplaced hnew
  | delete key => exact (add_zero _).symm

/-- **One step** goes on with the order. -/
theorem serial_step {s s' : Overlap} {us : List Update} {l : OverlapLabel} (h : Serial s us)
    (hl : Undisturbed s l) (hs : s.step l = some s') : Serial s' (us ++ s.settled l) where
  current := current_step h.current hl.1 hs
  sized := sized_step h.sized hs
  val := val_step h hl hs
  placed := by
    rw [List.filterMap_append, ← Multiset.coe_add, h.placed, placed_step hs]

/-! ## Every run -/

/-- The deletions stay in their order. -/
theorem deleted_effects {s t : Overlap} {ls : List OverlapLabel}
    (hrun : run Overlap.step s ls = some t) :
    (effects Overlap.step Overlap.settled s ls).filterMap Update.deleted
      = ls.filterMap OverlapLabel.deletes := by
  induction ls generalizing s with
  | nil => rfl
  | cons l ls ih =>
      obtain ⟨s', hs, hr⟩ := run_cons_eq_some hrun
      rw [effects_cons hs, List.filterMap_append, ih hr]
      cases l with
      | arrive skb dir => rfl
      | delete key => rfl
      | operate i slot =>
          rw [Overlap.settled]
          cases s.invocations[i]? with
          | none => rfl
          | some inv =>
              dsimp only
              split_ifs <;> rfl

/-- Where every invocation has returned, nothing is pending and every packet has its place. -/
theorem of_returned {s : Overlap} (h : ∀ inv ∈ s.invocations, inv.pc.Returned) :
    (∀ key, s.pending key = 0) ∧
      s.placed = ((s.invocations.map fun inv => (inv.skb, inv.dir) : List _) : Multiset _) := by
  have hinv : ∀ inv ∈ s.invocations, inv.pending = 0 ∧ inv.placed = true := by
    intro inv hmem
    have hret := h inv hmem
    rw [Invocation.pending, Invocation.placed]
    cases hpc : inv.pc with
    | start | missed | hit p | added p => rw [hpc] at hret; cases hret
    | inserted | counted | ignored => exact ⟨rfl, rfl⟩
  refine ⟨fun key => List.sum_eq_zero fun x hx => ?_, ?_⟩
  · obtain ⟨inv, hmem, rfl⟩ := List.mem_map.mp hx
    rw [(hinv inv hmem).1, ite_self]
  · have hone : s.placed = ((s.invocations.map fun inv => (inv.skb, inv.dir)).map
        fun p => ({p} : Multiset _)).sum := by
      rw [Overlap.placed, List.map_map]
      refine congrArg List.sum (List.map_congr_left fun inv hmem => ?_)
      rw [if_pos (hinv inv hmem).2]
      rfl
    rw [hone, ← Multiset.sum_coe, ← Multiset.map_coe, Multiset.sum_map_singleton]

/--
**Overlapping packets and deletions have one order.**

For packets of any flows arriving at any time, their map operations interleaved
with each other and with deletions in any way, as long as no element is freed
under an invocation and no insert replaces an entry: at every moment the maps hold
what counting whole packets one after another would make of them, less what is
pending. A packet is in the order once it has its element or its record, every
packet once and nothing else; deletions keep their order; and what is in the order
stays where it is. When all invocations have returned, the maps hold what the
order makes of them, and it has all packets.
-/
theorem overlaps_serialise (ls : List OverlapLabel) (s : Overlap)
    (hrun : run Overlap.step Overlap.init ls = some s)
    (hcalm : Along Overlap.step Undisturbed Overlap.init ls) :
    (∀ key, (serially (serialOrder ls)).val key
      = (s.maps.val key).map (· + FlowStatsOf.ofNat (s.pending key))) ∧
    (((serialOrder ls).filterMap Update.counted : List _) : Multiset _) = s.placed ∧
    (serialOrder ls).filterMap Update.deleted = ls.filterMap OverlapLabel.deletes ∧
    (∀ ls₁, ls₁ <+: ls → serialOrder ls₁ <+: serialOrder ls) ∧
    ((∀ inv ∈ s.invocations, inv.pc.Returned) →
      (∀ key, (serially (serialOrder ls)).val key = s.maps.val key) ∧
      ((serialOrder ls).filterMap Update.counted).Perm
        (s.invocations.map fun inv => (inv.skb, inv.dir))) := by
  have h : Serial s (serialOrder ls) :=
    effects_inv_along (I := Serial) (fun _ _ _ _ h hl hs => serial_step h hl hs) serial_init hcalm
      hrun
  refine ⟨h.val, h.placed, deleted_effects hrun, fun ls₁ hpre => ?_, fun hret => ?_⟩
  · obtain ⟨ls₂, rfl⟩ := hpre
    obtain ⟨s₁, hs₁, -⟩ := run_append_eq_some hrun
    rw [serialOrder, serialOrder, effects_append hs₁]
    exact List.prefix_append ..
  · obtain ⟨hpend, hall⟩ := of_returned hret
    refine ⟨fun key => ?_, Multiset.coe_eq_coe.mp (h.placed.trans hall)⟩
    rw [h.val, hpend, FlowStatsOf.ofNat_zero]
    simp

/-- A query is inserted; its answer and another query find the entry and take turns; then the agent
deletes it, and the query is sent once more. -/
def crossedQueries : List OverlapLabel :=
  (crossingPackets ++ crossingPackets.take 1).map (fun p => .arrive p.1 p.2)
    ++ [.operate 0 5, .operate 0 5, .operate 2 0, .operate 1 0, .operate 1 0, .operate 2 0,
      .operate 1 0, .operate 2 0, .delete crossingKey]
    ++ (crossingPackets.take 1).map (fun p => .arrive p.1 p.2)
    ++ [.operate 3 0, .operate 3 7]

theorem overlaps_serialise_crossed :
    ∃ s, run Overlap.step Overlap.init crossedQueries = some s ∧
      s.maps.val crossingKey = some ⟨0, 0, 60, 1⟩ := by
  have hrun : (run Overlap.step Overlap.init crossedQueries).isSome = true := by decide +kernel
  obtain ⟨s, hs⟩ := Option.isSome_iff_exists.mp hrun
  have hret : (run Overlap.step Overlap.init crossedQueries).map
      (fun s => decide (∀ inv ∈ s.invocations, inv.pc.Returned)) = some true := by decide +kernel
  rw [hs] at hret
  have h := overlaps_serialise crossedQueries s hs (by decide +kernel)
  refine ⟨s, hs, ?_⟩
  rw [← (h.2.2.2.2 (of_decide_eq_true (Option.some.inj hret))).1 crossingKey]
  decide +kernel

end Kubpf.Kernel
