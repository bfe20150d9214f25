import Mathlib.Algebra.Order.BigOperators.Group.List
import Mathlib.Algebra.Order.Group.Nat
import Kubpf.Kernel.Accounting
import Kubpf.Kernel.Microsteps

/-!
# Packets of one flow, all at once

The first packet of a flow is counted by a lookup and then an update that
overwrites whatever is there. Two invocations that both miss therefore both
insert, and the second insert throws the first one away, with everything added
to it in between.

That is the only way to lose a packet. While at most one lookup has missed, every
pointer in flight names the element the map holds, and the element adds up what
the invocations have put in so far (`OneMiss`). As soon as two have missed, the
element is short of a packet for good: it never holds more packets than one
insert and the completed adds can have put there (`Racing.bound`), and the second
miss is not among those.
-/

namespace Kubpf.Kernel

open Lib

/-! ## What an invocation has put into the map -/

/-- The bytes of a packet. -/
def byteStats (len : UInt32) : CgroupDirection → FlowStatsOf Nat
  | .ingress => { (0 : FlowStatsOf Nat) with outBytes := len.toNat }
  | .egress => { (0 : FlowStatsOf Nat) with inBytes := len.toNat }

/-- The packet without its bytes. -/
def oneStats : CgroupDirection → FlowStatsOf Nat
  | .ingress => { (0 : FlowStatsOf Nat) with outPackets := 1 }
  | .egress => { (0 : FlowStatsOf Nat) with inPackets := 1 }

theorem packetStats_eq (len : UInt32) (dir : CgroupDirection) :
    packetStats len dir = byteStats len dir + oneStats dir := by
  cases dir <;> rfl

theorem addBytes_eq (len : UInt32) (dir : CgroupDirection) (value : FlowStats) :
    addBytes len dir value = value + FlowStatsOf.ofNat (byteStats len dir) := by
  cases dir <;> ext <;> simp [addBytes, byteStats, FlowStatsOf.ofNat, FlowStatsOf.map]

theorem addPacket_eq (dir : CgroupDirection) (value : FlowStats) :
    addPacket dir value = value + FlowStatsOf.ofNat (oneStats dir) := by
  cases dir <;> ext <;> simp [addPacket, oneStats, FlowStatsOf.ofNat, FlowStatsOf.map]

/-- What an invocation has contributed so far. -/
def Invocation.done (inv : Invocation) : FlowStatsOf Nat :=
  match inv.pc with
  | .start | .missed | .hit _ | .ignored => 0
  | .added _ => byteStats inv.skb.len inv.dir
  | .inserted | .counted => packetStats inv.skb.len inv.dir

/-- The lookup missed. -/
def Invocation.missedOnce (inv : Invocation) : Nat :=
  match inv.pc with
  | .missed | .inserted => 1
  | _ => 0

/-- Both adds are through. -/
def Invocation.countedOnce (inv : Invocation) : Nat :=
  match inv.pc with
  | .counted => 1
  | _ => 0

def Concurrent.done (s : Concurrent) : FlowStatsOf Nat := (s.invocations.map Invocation.done).sum
def Concurrent.misses (s : Concurrent) : Nat := (s.invocations.map Invocation.missedOnce).sum
def Concurrent.adds (s : Concurrent) : Nat := (s.invocations.map Invocation.countedOnce).sum

/-! ## Moving one invocation -/

section Move

variable {s : Concurrent} {i : Nat} {inv : Invocation} {maps : FlowMaps} {pc : Pc}

/-- After a move the others are where they were. -/
theorem getElem?_move {j : Nat} {inv' : Invocation} (hi : s.invocations[i]? = some inv)
    (h : (s.move i inv maps pc).invocations[j]? = some inv') :
    (j = i ∧ inv' = { inv with pc }) ∨ (j ≠ i ∧ s.invocations[j]? = some inv') := by
  have hlt : i < s.invocations.length := (List.getElem?_eq_some_iff.mp hi).1
  rw [Concurrent.move] at h
  by_cases hji : j = i
  · subst hji
    rw [List.getElem?_set_self hlt] at h
    exact Or.inl ⟨rfl, (Option.some.inj h).symm⟩
  · rw [List.getElem?_set_ne (Ne.symm hji)] at h
    exact Or.inr ⟨hji, h⟩

theorem done_move {d : FlowStatsOf Nat} (hi : s.invocations[i]? = some inv)
    (hd : ({ inv with pc } : Invocation).done = inv.done + d) :
    (s.move i inv maps pc).done = s.done + d := sum_map_set hi hd

theorem misses_move {d : Nat} (hi : s.invocations[i]? = some inv)
    (hd : ({ inv with pc } : Invocation).missedOnce = inv.missedOnce + d) :
    (s.move i inv maps pc).misses = s.misses + d := sum_map_set hi hd

theorem adds_move {d : Nat} (hi : s.invocations[i]? = some inv)
    (hd : ({ inv with pc } : Invocation).countedOnce = inv.countedOnce + d) :
    (s.move i inv maps pc).adds = s.adds + d := sum_map_set hi hd

end Move

/-! ## What holds of every interleaving -/

/-- The packets an element has counted, as a number. -/
def livePackets (value : FlowStats) : Nat := value.outPackets.toNat + value.inPackets.toNat

theorem livePackets_initStats (len : UInt32) (dir : CgroupDirection) :
    livePackets (initStats len dir) = 1 := by
  cases dir <;> rfl

theorem livePackets_addBytes (len : UInt32) (dir : CgroupDirection) (value : FlowStats) :
    livePackets (addBytes len dir value) = livePackets value := by
  cases dir <;> rfl

/-- A 64-bit add raises the number by one at most. -/
theorem livePackets_addPacket_le (dir : CgroupDirection) (value : FlowStats) :
    livePackets (addPacket dir value) ≤ livePackets value + 1 := by
  have hle : ∀ x : UInt64, (x + 1).toNat ≤ x.toNat + 1 := by
    intro x
    rw [UInt64.toNat_add]
    exact Nat.mod_le _ _
  cases dir with
  | ingress =>
      have := hle value.outPackets
      simp only [livePackets, addPacket]
      omega
  | egress =>
      have := hle value.inPackets
      simp only [livePackets, addPacket]
      omega

/-- Holds however the operations are ordered. -/
structure Racing (key : FlowMapKey) (pkts : List (SkBuff × CgroupDirection)) (s : Concurrent) :
    Prop where
  keyed : ∀ inv ∈ s.invocations, flowKey inv.skb inv.dir = some key
  active : ∀ inv ∈ s.invocations, inv.pc ≠ .ignored
  room : ¬ s.maps.Full key
  same : s.invocations.map (fun inv => (inv.skb, inv.dir)) = pkts
  /-- One insert and the completed adds are all an element can hold. -/
  bound : ∀ value, s.maps.val key = some value → livePackets value ≤ 1 + s.adds

/-- The part of `Racing` that does not look at the maps. -/
theorem racing_move {key : FlowMapKey} {pkts : List (SkBuff × CgroupDirection)}
    {s : Concurrent} {i : Nat} {inv : Invocation} {maps : FlowMaps} {pc : Pc}
    (h : Racing key pkts s) (hi : s.invocations[i]? = some inv) (hpc : pc ≠ .ignored)
    (hroom : ¬ maps.Full key)
    (hbound : ∀ value, maps.val key = some value →
      livePackets value ≤ 1 + (s.move i inv maps pc).adds) :
    Racing key pkts (s.move i inv maps pc) := by
  refine ⟨?_, ?_, hroom, ?_, hbound⟩
  · intro inv' hmem
    rcases List.mem_or_eq_of_mem_set hmem with hold | rfl
    · exact h.keyed inv' hold
    · exact h.keyed inv (List.mem_of_getElem? hi)
  · intro inv' hmem
    rcases List.mem_or_eq_of_mem_set hmem with hold | rfl
    · exact h.active inv' hold
    · exact hpc
  · rw [← h.same]
    refine List.ext_getElem? (fun j => ?_)
    rw [List.getElem?_map, List.getElem?_map]
    by_cases hji : i = j
    · subst hji
      rw [Concurrent.move, List.getElem?_set_self (List.getElem?_eq_some_iff.mp hi).1, hi]
      rfl
    · rw [Concurrent.move, List.getElem?_set_ne hji]

theorem racing_init {key : FlowMapKey} {maps : FlowMaps}
    {pkts : List (SkBuff × CgroupDirection)} (hkey : ∀ p ∈ pkts, flowKey p.1 p.2 = some key)
    (habsent : maps.val key = none) (hroom : ¬ maps.Full key) :
    Racing key pkts (started maps pkts) := by
  refine ⟨?_, ?_, hroom, ?_, ?_⟩
  · intro inv hmem
    obtain ⟨p, hp, rfl⟩ := List.mem_map.mp hmem
    exact hkey p hp
  · intro inv hmem
    obtain ⟨p, -, rfl⟩ := List.mem_map.mp hmem
    exact Pc.noConfusion
  · rw [started, List.map_map]
    exact List.map_id pkts
  · intro value hv
    exact absurd (habsent.symm.trans hv) (by simp)

/-- A write through a pointer, whoever the pointer belongs to by now, raises the number by what
it adds at most. -/
theorem livePackets_modify_le {key : FlowMapKey} {maps : FlowMaps} {p m n : Nat}
    {f : FlowStats → FlowStats}
    (hbound : ∀ value, maps.val key = some value → livePackets value ≤ m)
    (hf : ∀ value, livePackets (f value) ≤ livePackets value + n) :
    ∀ value, (maps.modify key p f).val key = some value → livePackets value ≤ m + n := by
  intro value hvalue
  by_cases hp : maps.lookupElem key = some p
  · cases hold : maps.val key with
    | none => exact absurd (FlowMaps.val_eq_none.mp hold) (by rw [hp]; simp)
    | some old =>
        rw [FlowMaps.val_modify _ hp hold] at hvalue
        rw [← Option.some.inj hvalue]
        exact (hf old).trans (Nat.add_le_add_right (hbound old hold) n)
  · -- an update has replaced the element since: the write is lost
    rw [FlowMaps.val_modify_of_ne _ hp] at hvalue
    exact (hbound value hvalue).trans (Nat.le_add_right m n)

theorem racing_step {key : FlowMapKey} {pkts : List (SkBuff × CgroupDirection)}
    {s s' : Concurrent} {i : Nat} (h : Racing key pkts s) (hs : invoke s i = some s') :
    Racing key pkts s' := by
  obtain ⟨inv, hi, hmove⟩ := invoke_moves h.keyed hs
  cases hmove with
  | miss hpc hp =>
      refine racing_move h hi Pc.noConfusion h.room ?_
      rw [adds_move (d := 0) hi (by simp [Invocation.countedOnce, hpc])]
      exact h.bound
  | find p hpc hp =>
      refine racing_move h hi Pc.noConfusion h.room ?_
      rw [adds_move (d := 0) hi (by simp [Invocation.countedOnce, hpc])]
      exact h.bound
  | insert hpc =>
      have hv := FlowMaps.val_updateElem (v := initStats inv.skb.len inv.dir) h.room
      refine racing_move h hi Pc.noConfusion (FlowMaps.not_full_of_val hv) ?_
      -- the element starts over, whatever it held
      intro value hvalue
      rw [← Option.some.inj (hv.symm.trans hvalue), livePackets_initStats]
      omega
  | bytes p hpc =>
      refine racing_move h hi Pc.noConfusion (fun hf => h.room (FlowMaps.full_modify.mp hf)) ?_
      rw [adds_move (d := 0) hi (by simp [Invocation.countedOnce, hpc]), ← Nat.add_assoc]
      exact livePackets_modify_le h.bound (fun v => (livePackets_addBytes ..).le)
  | packet p hpc =>
      refine racing_move h hi Pc.noConfusion (fun hf => h.room (FlowMaps.full_modify.mp hf)) ?_
      rw [adds_move (d := 1) hi (by simp [Invocation.countedOnce, hpc]), ← Nat.add_assoc]
      exact livePackets_modify_le h.bound (livePackets_addPacket_le inv.dir)

/-! ## While at most one lookup has missed -/

/-- A lookup that misses does so while no other insert is outstanding. -/
def MissesAlone (key : FlowMapKey) (s : Concurrent) (i : Nat) : Prop :=
  ∀ inv ∈ s.invocations[i]?, inv.pc = .start → s.maps.val key = none →
    ∀ inv' ∈ s.invocations, inv'.pc ≠ .missed

instance (key : FlowMapKey) (s : Concurrent) (i : Nat) : Decidable (MissesAlone key s i) :=
  inferInstanceAs (Decidable (∀ inv ∈ s.invocations[i]?, _))

/-- Before the insert nobody has got anywhere and one invocation may be about to insert; after
it every pointer is the element's, and the element adds up what has been put in. -/
structure OneMiss (key : FlowMapKey) (s : Concurrent) : Prop where
  before : s.maps.lookupElem key = none → ∀ (j : Nat) (inv : Invocation),
    s.invocations[j]? = some inv → inv.pc = .start ∨ inv.pc = .missed
  alone : s.maps.lookupElem key = none → ∀ (j k : Nat) (inv inv' : Invocation),
    s.invocations[j]? = some inv → s.invocations[k]? = some inv' →
    inv.pc = .missed → inv'.pc = .missed → j = k
  after : ∀ p, s.maps.lookupElem key = some p → ∀ (j : Nat) (inv : Invocation),
    s.invocations[j]? = some inv →
      inv.pc ≠ .missed ∧ ∀ q, inv.pc = .hit q ∨ inv.pc = .added q → q = p
  exact : ∀ p, s.maps.lookupElem key = some p →
    s.maps.val key = some (FlowStatsOf.ofNat s.done)

theorem oneMiss_init {key : FlowMapKey} {maps : FlowMaps}
    {pkts : List (SkBuff × CgroupDirection)} (habsent : maps.val key = none) :
    OneMiss key (started maps pkts) := by
  have hnone : (started maps pkts).maps.lookupElem key = none := FlowMaps.val_eq_none.mp habsent
  have hstart : ∀ (j : Nat) (inv : Invocation), (started maps pkts).invocations[j]? = some inv →
      inv.pc = .start := by
    intro j inv hj
    obtain ⟨p, -, rfl⟩ := List.mem_map.mp (List.mem_of_getElem? hj)
    rfl
  refine ⟨?_, ?_, ?_, ?_⟩
  · intro _ j inv hj
    exact Or.inl (hstart j inv hj)
  · intro _ j k inv inv' hj _ hm _
    rw [hstart j inv hj] at hm
    exact Pc.noConfusion hm
  · intro p hp
    exact absurd (hnone.symm.trans hp) (by simp)
  · intro p hp
    exact absurd (hnone.symm.trans hp) (by simp)

/-- A write through a pointer adds to the element, since the pointer is the element's. -/
theorem oneMiss_modify {key : FlowMapKey} {s : Concurrent} {i p : Nat} {inv : Invocation}
    {f : FlowStats → FlowStats} {pc : Pc} {d : FlowStatsOf Nat} (h : OneMiss key s)
    (hi : s.invocations[i]? = some inv) (hpc : inv.pc = .hit p ∨ inv.pc = .added p)
    (hf : ∀ v, f v = v + FlowStatsOf.ofNat d)
    (hd : ({ inv with pc } : Invocation).done = inv.done + d)
    (hnext : pc ≠ .missed ∧ ∀ q, pc = .hit q ∨ pc = .added q → q = p) :
    OneMiss key (s.move i inv (s.maps.modify key p f) pc) := by
  -- an invocation with a pointer has found an element
  obtain ⟨q, hq⟩ : ∃ q, s.maps.lookupElem key = some q := by
    cases hp : s.maps.lookupElem key with
    | none =>
        rcases h.before hp i inv hi with hst | hm
        · exact absurd hpc (by simp [hst])
        · exact absurd hpc (by simp [hm])
    | some q => exact ⟨q, rfl⟩
  have hpq : p = q := (h.after q hq i inv hi).2 p hpc
  have hv := FlowMaps.val_modify f hq (h.exact q hq)
  have hsome : ¬ (s.move i inv (s.maps.modify key p f) pc).maps.lookupElem key = none := by
    rw [Concurrent.move, FlowMaps.lookupElem_modify, hq]
    simp
  refine ⟨fun hnone => absurd hnone hsome, fun hnone => absurd hnone hsome, ?_, ?_⟩
  · intro r hr j inv' hj
    rw [Concurrent.move, FlowMaps.lookupElem_modify] at hr
    rcases getElem?_move hi hj with ⟨-, rfl⟩ | ⟨-, hj'⟩
    · have hrq : r = q := Option.some.inj (hr.symm.trans hq)
      exact ⟨hnext.1, fun t ht => by rw [hrq, ← hpq]; exact hnext.2 t ht⟩
    · exact h.after r hr j inv' hj'
  · intro r _
    rw [done_move hi hd, FlowStatsOf.ofNat_add, ← hf, hpq]
    exact hv

/-- While one invocation is to insert, the others have not begun. -/
theorem OneMiss.others_start {key : FlowMapKey} {s : Concurrent} {i j : Nat} {inv inv' : Invocation}
    (h : OneMiss key s) (hnone : s.maps.lookupElem key = none) (hi : s.invocations[i]? = some inv)
    (hpc : inv.pc = .missed) (hne : j ≠ i) (hj : s.invocations[j]? = some inv') :
    inv'.pc = .start := by
  rcases h.before hnone j inv' hj with hst | hm
  · exact hst
  · exact absurd (h.alone hnone j i inv' inv hj hi hm hpc) hne

/-- Without an element nothing has been put in. -/
theorem OneMiss.done_eq_zero {key : FlowMapKey} {s : Concurrent} (h : OneMiss key s)
    (hnone : s.maps.lookupElem key = none) : s.done = 0 := by
  refine List.sum_eq_zero (fun d hd => ?_)
  obtain ⟨inv, hmem, rfl⟩ := List.mem_map.mp hd
  obtain ⟨j, hj⟩ := List.mem_iff_getElem?.mp hmem
  rcases h.before hnone j inv hj with hst | hm
  · simp [Invocation.done, hst]
  · simp [Invocation.done, hm]

/-- **One operation, provided it does not miss next to an outstanding insert.** -/
theorem oneMiss_step {key : FlowMapKey} {pkts : List (SkBuff × CgroupDirection)}
    {s s' : Concurrent} {i : Nat} (hr : Racing key pkts s) (h : OneMiss key s)
    (hP : MissesAlone key s i) (hs : invoke s i = some s') : OneMiss key s' := by
  obtain ⟨inv, hi, hmove⟩ := invoke_moves hr.keyed hs
  cases hmove with
  | miss hpc hp =>
      have hothers := hP inv hi hpc (FlowMaps.val_eq_none.mpr hp)
      refine ⟨?_, ?_, ?_, ?_⟩
      · intro hnone j inv' hj
        rcases getElem?_move hi hj with ⟨-, rfl⟩ | ⟨-, hj'⟩
        · exact Or.inr rfl
        · exact h.before hnone j inv' hj'
      · intro _ j k inv₁ inv₂ hj hk hm₁ hm₂
        rcases getElem?_move hi hj with ⟨rfl, -⟩ | ⟨-, hj'⟩
        · rcases getElem?_move hi hk with ⟨rfl, -⟩ | ⟨-, hk'⟩
          · rfl
          · exact absurd hm₂ (hothers inv₂ (List.mem_of_getElem? hk'))
        · exact absurd hm₁ (hothers inv₁ (List.mem_of_getElem? hj'))
      · intro p hp'
        exact absurd (hp.symm.trans hp') (by simp)
      · intro p hp'
        exact absurd (hp.symm.trans hp') (by simp)
  | find p hpc hp =>
      refine ⟨?_, ?_, ?_, ?_⟩
      · intro hnone
        exact absurd (hp.symm.trans hnone) (by simp)
      · intro hnone
        exact absurd (hp.symm.trans hnone) (by simp)
      · intro q hq j inv' hj
        rcases getElem?_move hi hj with ⟨-, rfl⟩ | ⟨-, hj'⟩
        · -- the pointer just read is the element's
          have hqp : q = p := Option.some.inj (hq.symm.trans hp)
          exact ⟨Pc.noConfusion, fun r hr' => by simp at hr'; rw [hqp, hr']⟩
        · exact h.after q hq j inv' hj'
      · intro q hq
        rw [done_move (d := 0) hi (by simp [Invocation.done, hpc]), add_zero]
        exact h.exact q hq
  | insert hpc =>
      -- nobody has inserted yet: a second insert would be the second miss
      have hnone : s.maps.lookupElem key = none := by
        cases hp : s.maps.lookupElem key with
        | none => rfl
        | some p => exact absurd hpc (h.after p hp i inv hi).1
      have hv := FlowMaps.val_updateElem (v := initStats inv.skb.len inv.dir) hr.room
      refine ⟨?_, ?_, ?_, ?_⟩
      · intro hnone'
        exact absurd (FlowMaps.val_eq_none.mpr hnone') (by rw [Concurrent.move, hv]; simp)
      · intro hnone'
        exact absurd (FlowMaps.val_eq_none.mpr hnone') (by rw [Concurrent.move, hv]; simp)
      · intro p _ j inv' hj
        rcases getElem?_move hi hj with ⟨-, rfl⟩ | ⟨hne, hj'⟩
        · exact ⟨Pc.noConfusion, fun q hq => by simp at hq⟩
        · rw [h.others_start hnone hi hpc hne hj']
          exact ⟨Pc.noConfusion, fun q hq => by simp at hq⟩
      · intro p _
        rw [done_move (d := packetStats inv.skb.len inv.dir) hi
          (by simp [Invocation.done, hpc]), h.done_eq_zero hnone, zero_add, ← initStats_eq]
        exact hv
  | bytes p hpc =>
      refine oneMiss_modify h hi (Or.inl hpc) (addBytes_eq inv.skb.len inv.dir)
        (by simp [Invocation.done, hpc]) ⟨Pc.noConfusion, fun q hq => ?_⟩
      simp only [reduceCtorEq, Pc.added.injEq, false_or] at hq
      exact hq.symm
  | packet p hpc =>
      refine oneMiss_modify h hi (Or.inr hpc) (addPacket_eq inv.dir)
        (by simp [Invocation.done, hpc, packetStats_eq]) ⟨Pc.noConfusion, fun q hq => ?_⟩
      simp only [reduceCtorEq, or_self] at hq

/-! ## Once all invocations have returned -/

/-- The entry of `key` is what the packets add up to; without packets there is none. -/
def HoldsAll (maps : FlowMaps) (key : FlowMapKey) (pkts : List (SkBuff × CgroupDirection)) :
    Prop :=
  maps.val key = if pkts = [] then none else some (FlowStatsOf.ofNat (totals pkts))

theorem invoke_nil {s : Concurrent} (h : s.invocations = []) (i : Nat) : invoke s i = none := by
  rw [invoke, h]
  rfl

/-- An invocation that has counted its packet has inserted it or added it. -/
theorem pc_of_returned {inv : Invocation} (hret : inv.pc.Returned) (hact : inv.pc ≠ .ignored) :
    inv.pc = .inserted ∨ inv.pc = .counted := by
  cases hpc : inv.pc with
  | inserted => exact Or.inl rfl
  | counted => exact Or.inr rfl
  | ignored => exact absurd hpc hact
  | start => rw [hpc] at hret; exact hret.elim
  | missed => rw [hpc] at hret; exact hret.elim
  | hit p => rw [hpc] at hret; exact hret.elim
  | added p => rw [hpc] at hret; exact hret.elim

/-- Either way it has put its packet in. -/
theorem done_of_returned {inv : Invocation} (hret : inv.pc.Returned) (hact : inv.pc ≠ .ignored) :
    inv.done = packetStats inv.skb.len inv.dir := by
  rcases pc_of_returned hret hact with hpc | hpc
  · simp [Invocation.done, hpc]
  · simp [Invocation.done, hpc]

/-- It has either missed or added. -/
theorem once_of_returned {inv : Invocation} (hret : inv.pc.Returned) (hact : inv.pc ≠ .ignored) :
    inv.missedOnce + inv.countedOnce = 1 := by
  rcases pc_of_returned hret hact with hpc | hpc
  · simp [Invocation.missedOnce, Invocation.countedOnce, hpc]
  · simp [Invocation.missedOnce, Invocation.countedOnce, hpc]

section Finished

variable {key : FlowMapKey} {pkts : List (SkBuff × CgroupDirection)} {s : Concurrent}

theorem done_of_finished (h : Racing key pkts s) (hret : ∀ inv ∈ s.invocations, inv.pc.Returned) :
    s.done = totals pkts := by
  rw [totals_eq_sum, ← h.same, List.map_map, Concurrent.done]
  congr 1
  exact List.map_congr_left (fun inv hmem => done_of_returned (hret inv hmem) (h.active inv hmem))

theorem misses_add_adds (h : Racing key pkts s)
    (hret : ∀ inv ∈ s.invocations, inv.pc.Returned) : s.misses + s.adds = pkts.length := by
  rw [Concurrent.misses, Concurrent.adds, ← List.sum_map_add, ← h.same, List.length_map]
  have hone : s.invocations.map (fun inv => inv.missedOnce + inv.countedOnce)
      = s.invocations.map (fun _ => 1) :=
    List.map_congr_left (fun inv hmem => once_of_returned (hret inv hmem) (h.active inv hmem))
  rw [hone]
  simp

/-- The packets among `pkts`, by direction. -/
theorem totals_packets (pkts : List (SkBuff × CgroupDirection)) :
    (totals pkts).outPackets + (totals pkts).inPackets = pkts.length := by
  induction pkts with
  | nil => rfl
  | cons p ps ih =>
      obtain ⟨skb, dir⟩ := p
      rw [totals_eq_sum] at ih ⊢
      rw [List.map_cons, List.sum_cons, List.length_cons, ← ih]
      cases dir <;> simp [packetStats] <;> omega

/-- With two misses the element is short of a packet. -/
theorem not_holdsAll_of_two_misses (h : Racing key pkts s)
    (hret : ∀ inv ∈ s.invocations, inv.pc.Returned) (hlen : pkts.length < 2 ^ 64)
    (htwo : 2 ≤ s.misses) : ¬ HoldsAll s.maps key pkts := by
  intro hall
  have hsum := misses_add_adds h hret
  have hpk := totals_packets pkts
  have hne : pkts ≠ [] := by
    rintro rfl
    simp only [List.length_nil] at hsum
    omega
  rw [HoldsAll, if_neg hne] at hall
  have hb := h.bound _ hall
  -- below `2 ^ 64` the counters read back the totals
  have hout : (UInt64.ofNat (totals pkts).outPackets).toNat = (totals pkts).outPackets := by
    rw [UInt64.toNat_ofNat']
    exact Nat.mod_eq_of_lt (by omega)
  have hin : (UInt64.ofNat (totals pkts).inPackets).toNat = (totals pkts).inPackets := by
    rw [UInt64.toNat_ofNat']
    exact Nat.mod_eq_of_lt (by omega)
  simp only [livePackets, FlowStatsOf.ofNat, FlowStatsOf.map, hout, hin] at hb
  omega

end Finished

/-- Misses are never undone. -/
theorem misses_step {key : FlowMapKey} {pkts : List (SkBuff × CgroupDirection)}
    {s s' : Concurrent} {i : Nat} (h : Racing key pkts s) (hs : invoke s i = some s') :
    s.misses ≤ s'.misses := by
  obtain ⟨inv, hi, hmove⟩ := invoke_moves h.keyed hs
  cases hmove with
  | miss hpc hp => rw [misses_move (d := 1) hi (by simp [Invocation.missedOnce, hpc])]; omega
  | find p hpc hp => rw [misses_move (d := 0) hi (by simp [Invocation.missedOnce, hpc])]; omega
  | insert hpc => rw [misses_move (d := 0) hi (by simp [Invocation.missedOnce, hpc])]; omega
  | bytes p hpc => rw [misses_move (d := 0) hi (by simp [Invocation.missedOnce, hpc])]; omega
  | packet p hpc => rw [misses_move (d := 0) hi (by simp [Invocation.missedOnce, hpc])]; omega

/-- A miss next to an outstanding insert makes two. -/
theorem two_misses_of_not_alone {key : FlowMapKey} {pkts : List (SkBuff × CgroupDirection)}
    {s s' : Concurrent} {i : Nat} (h : Racing key pkts s) (hs : invoke s i = some s')
    (hP : ¬ MissesAlone key s i) : 2 ≤ s'.misses := by
  unfold MissesAlone at hP
  push Not at hP
  obtain ⟨inv, hi, hpc, hval, inv', hmem', hm⟩ := hP
  have hone : 1 ≤ s.misses := by
    have hmem : inv'.missedOnce ∈ s.invocations.map Invocation.missedOnce :=
      List.mem_map_of_mem hmem'
    have hle := List.single_le_sum (fun _ _ => Nat.zero_le _) _ hmem
    have h1 : inv'.missedOnce = 1 := by simp [Invocation.missedOnce, hm]
    rw [h1] at hle
    exact hle
  obtain ⟨inv₁, hi₁, hmove⟩ := invoke_moves h.keyed hs
  have he : inv₁ = inv := Option.some.inj (hi₁.symm.trans hi)
  subst he
  cases hmove with
  | miss _ hp => rw [misses_move (d := 1) hi (by simp [Invocation.missedOnce, hpc])]; omega
  | find p _ hp => exact absurd (FlowMaps.val_eq_none.mp hval) (by rw [hp]; simp)
  | insert hpc' => exact absurd (hpc.symm.trans hpc') (by simp)
  | bytes p hpc' => exact absurd (hpc.symm.trans hpc') (by simp)
  | packet p hpc' => exact absurd (hpc.symm.trans hpc') (by simp)

/--
**Concurrent packets of one flow are all counted as long as only one lookup misses.**

For any number of invocations on packets with one key, of either family, and any
order of their map operations: if no lookup misses while another insert is
outstanding, the entry holds every packet once all have returned; and if it does
hold every packet, no lookup did.
-/
theorem concurrent_packets_counted (key : FlowMapKey) (maps : FlowMaps)
    (pkts : List (SkBuff × CgroupDirection)) (hkey : ∀ p ∈ pkts, flowKey p.1 p.2 = some key)
    (habsent : maps.val key = none) (hroom : ¬ maps.Full key) (sched : List Nat) (s : Concurrent)
    (hrun : run invoke (started maps pkts) sched = some s)
    (hret : ∀ inv ∈ s.invocations, inv.pc.Returned) :
    (Along invoke (MissesAlone key) (started maps pkts) sched → HoldsAll s.maps key pkts) ∧
    (pkts.length < 2 ^ 64 → HoldsAll s.maps key pkts →
      Along invoke (MissesAlone key) (started maps pkts) sched) := by
  have hstep := fun s i s' (h : Racing key pkts s) (hs : invoke s i = some s') => racing_step h hs
  have h0 : Racing key pkts (started maps pkts) := racing_init hkey habsent hroom
  have hend : Racing key pkts s := run_inv hstep h0 hrun
  refine ⟨?_, ?_⟩
  · intro halong
    have hone : Racing key pkts s ∧ OneMiss key s :=
      run_inv_along (I := fun s => Racing key pkts s ∧ OneMiss key s)
        (fun s i s' h hP hs => ⟨racing_step h.1 hs, oneMiss_step h.1 h.2 hP hs⟩)
        ⟨h0, oneMiss_init habsent⟩ halong hrun
    by_cases hne : pkts = []
    · -- nobody to run
      subst hne
      cases sched with
      | nil =>
          rw [run_nil] at hrun
          rw [← Option.some.inj hrun, HoldsAll, if_pos rfl]
          exact habsent
      | cons i is =>
          obtain ⟨s', hs', -⟩ := run_cons_eq_some hrun
          exact absurd (invoke_nil (s := started maps []) rfl i) (by rw [hs']; simp)
    · rw [HoldsAll, if_neg hne, ← done_of_finished hend hret]
      cases hp : s.maps.lookupElem key with
      | some p => exact hone.2.exact p hp
      | none =>
          -- some invocation has returned, so the key is there
          obtain ⟨inv, hmem⟩ : ∃ inv, inv ∈ s.invocations := by
            refine List.exists_mem_of_ne_nil _ (fun he => hne ?_)
            rw [← hend.same, he]
            rfl
          obtain ⟨j, hj⟩ := List.mem_iff_getElem?.mp hmem
          have hret' := hret inv hmem
          rcases hone.2.before hp j inv hj with hst | hm
          · rw [hst] at hret'; exact hret'.elim
          · rw [hm] at hret'; exact hret'.elim
  · intro hlen hall
    by_contra hnot
    obtain ⟨is₁, i, is₂, s₁, rfl, hrun₁, hP⟩ := exists_of_not_along hrun hnot
    have h1 : Racing key pkts s₁ := run_inv hstep h0 hrun₁
    rw [run_append hrun₁] at hrun
    obtain ⟨s₂, hs₂, hrun₂⟩ := run_cons_eq_some hrun
    have h2 : Racing key pkts s₂ ∧ 2 ≤ s₂.misses :=
      ⟨racing_step h1 hs₂, two_misses_of_not_alone h1 hs₂ hP⟩
    have h3 : Racing key pkts s ∧ 2 ≤ s.misses :=
      run_inv (I := fun s => Racing key pkts s ∧ 2 ≤ s.misses)
        (fun s i s' h hs => ⟨racing_step h.1 hs, Nat.le_trans h.2 (misses_step h.1 hs)⟩) h2 hrun₂
    exact not_holdsAll_of_two_misses hend hret hlen h3.2 hall

/-- A query leaves a pod while the answer to an earlier one comes in. -/
def crossingPackets : List (SkBuff × CgroupDirection) :=
  [(udpPacket [10, 244, 0, 5] [10, 96, 0, 10] [0xc0, 0, 0, 53] 60, .egress),
   (udpPacket [10, 96, 0, 10] [10, 244, 0, 5] [0, 53, 0xc0, 0] 92, .ingress)]

/-- Their key: the answer's, as it stands. -/
def crossingKey : FlowMapKey :=
  .inl (v4Key (udpPacket [10, 96, 0, 10] [10, 244, 0, 5] [0, 53, 0xc0, 0] 92) .ingress)

/-- One after the other. -/
theorem concurrent_packets_counted_inTurn :
    ∃ s, run invoke (started FlowMaps.empty crossingPackets) [0, 0, 1, 1, 1] = some s ∧
      HoldsAll s.maps crossingKey crossingPackets :=
  ⟨_, rfl, (concurrent_packets_counted crossingKey FlowMaps.empty crossingPackets (by decide)
    (by decide) (by decide) [0, 0, 1, 1, 1] _ rfl (by decide)).1 (by decide)⟩

/-- Both lookups first: both insert, and the query is lost. -/
theorem crossing_packet_lost :
    ∃ s, run invoke (started FlowMaps.empty crossingPackets) [0, 1, 0, 1] = some s ∧
      (∀ inv ∈ s.invocations, inv.pc.Returned) ∧
      s.maps.val crossingKey
        = some { outBytes := 92, outPackets := 1, inBytes := 0, inPackets := 0 } ∧
      ¬ HoldsAll s.maps crossingKey crossingPackets :=
  ⟨_, rfl, by decide, by decide, by unfold HoldsAll; decide⟩

end Kubpf.Kernel
