import Kubpf.Kernel.FlowReader
import Kubpf.Agent.Runs

/-!
# The kernel maps and the agent together

One world: the maps the kernel program counts into, and the agent that reads and
prunes them. Packets, scans, evictions and informer updates follow each other in
any order. A scan reads the map as it stands; an eviction deletes from the map
and from the agent's own table, and each deletion from the map may fail on its
own.
-/

namespace Kubpf

open Lib Kernel Agent

structure World where
  maps : FlowMaps
  agent : AgentWorld

/-- Empty maps and a new agent. -/
def World.init (index : Index) : World where
  maps := FlowMaps.empty
  agent := freshAgent index

inductive Label where
  /-- One invocation of `bpf_flow_reader`, start to finish. -/
  | packet (skb : SkBuff) (dir : CgroupDirection)
  | scan (input : ScanInput)
  /-- The `n`-th outstanding goroutine runs; `m2.Delete` returns an error for the keys in
  `failing`. -/
  | evict (n : Nat) (openErr : Bool) (failing : List InetV4Flow)
  | informer (index : Index)

/-- The iterator delivers every entry once, with its value. -/
def ReadsMap (m : BpfHash InetV4Flow FlowStats) (reports : List (InetV4Flow × FlowStats)) :
    Prop :=
  (reports.map Prod.fst).Nodup ∧ (∀ r ∈ reports, m.val r.1 = some r.2) ∧
    ∀ k ∈ m.table.keys, k ∈ reports.map Prod.fst

instance (m : BpfHash InetV4Flow FlowStats) (reports : List (InetV4Flow × FlowStats)) :
    Decidable (ReadsMap m reports) := inferInstanceAs (Decidable (_ ∧ _))

/-- What there is to see of an invocation: the IPv4 key it counted, unless the map was full. -/
def countedBy (maps : FlowMaps) (skb : SkBuff) (dir : CgroupDirection) : List Event :=
  match flowKey skb dir with
  | some (.inl key) =>
    if maps.v4FlowMap.Full key then [] else [.counted key (packetStats skb.len dir)]
  | _ => []

/-- `m2.Delete(toDelete)`. -/
def deleteFlow (failing : List InetV4Flow) (m : BpfHash InetV4Flow FlowStats)
    (toDelete : InetV4Flow) : BpfHash InetV4Flow FlowStats :=
  if toDelete ∈ failing then m else m.deleteElem toDelete

/-- The entries a failed deletion left in place. -/
def keptBy (failing : List InetV4Flow) (m : BpfHash InetV4Flow FlowStats)
    (toDeleteList : List InetV4Flow) : List Event :=
  (toDeleteList.filter fun k => k ∈ failing ∧ (m.val k).isSome).map .kept

def World.step (w : World) : Label → Option World
  | .packet skb dir =>
    some
      { maps := bpfFlowReader skb dir w.maps
        agent := { w.agent with trace := countedBy w.maps skb dir ++ w.agent.trace } }
  | .scan input =>
    if ReadsMap w.maps.v4FlowMap input.reports then
      (w.agent.step (.scan input)).map fun agent => { w with agent := agent }
    else none
  | .evict n openErr failing =>
    match w.agent.pending[n]? with
    | none => none
    | some ev =>
      (w.agent.step (.evict n openErr)).map fun agent =>
        if openErr then { w with agent := agent }
        else
          { maps := { w.maps with
              v4FlowMap := ev.toDeleteList.foldl (deleteFlow failing) w.maps.v4FlowMap }
            agent := { agent with
              trace := keptBy failing w.maps.v4FlowMap ev.toDeleteList ++ agent.trace } }
  | .informer index =>
    (w.agent.step (.informer index)).map fun agent => { w with agent := agent }

/-! ## What a step can be -/

/-- The steps of the world, taken apart. -/
inductive WorldStep (w : World) : Label → World → Prop
  | packet (skb : SkBuff) (dir : CgroupDirection) :
      WorldStep w (.packet skb dir)
        { maps := bpfFlowReader skb dir w.maps
          agent := { w.agent with trace := countedBy w.maps skb dir ++ w.agent.trace } }
  | scan (input : ScanInput) (hreads : ReadsMap w.maps.v4FlowMap input.reports)
      (horder : input.OrdersOf (w.agent.scanned input).metric) :
      WorldStep w (.scan input)
        { w with
          agent :=
            { metric := (finishScan input (w.agent.scanned input)).1
              pending := w.agent.pending ++ [(finishScan input (w.agent.scanned input)).2]
              trace := .scanned input.t :: (w.agent.scanned input).trace } }
  | evictFails (n : Nat) (failing : List InetV4Flow) (ev : Eviction)
      (hev : w.agent.pending[n]? = some ev) :
      WorldStep w (.evict n true failing)
        { w with agent := { w.agent with pending := w.agent.pending.eraseIdx n } }
  | evict (n : Nat) (failing : List InetV4Flow) (ev : Eviction)
      (hev : w.agent.pending[n]? = some ev) :
      WorldStep w (.evict n false failing)
        { maps := { w.maps with
            v4FlowMap := ev.toDeleteList.foldl (deleteFlow failing) w.maps.v4FlowMap }
          agent :=
            { metric := evictEntries ev w.agent.metric
              pending := w.agent.pending.eraseIdx n
              trace := keptBy failing w.maps.v4FlowMap ev.toDeleteList
                ++ ev.toDeleteList.foldl (fun trace k => .dropped k :: trace) w.agent.trace } }
  | informer (index : Index) :
      WorldStep w (.informer index)
        { w with
          agent := { w.agent with
            metric := { w.agent.metric with
              agent := { index with gauges := w.agent.metric.agent.gauges } } } }

theorem World.step_inv {w w' : World} {l : Label} (h : w.step l = some w') : WorldStep w l w' := by
  cases l with
  | packet skb dir => cases h; exact .packet skb dir
  | scan input =>
      simp only [World.step] at h
      split_ifs at h with hreads
      obtain ⟨agent, hstep, rfl⟩ := Option.map_eq_some_iff.mp h
      cases AgentWorld.step_inv hstep with
      | scan _ horder => exact .scan input hreads horder
  | evict n openErr failing =>
      simp only [World.step] at h
      cases hev : w.agent.pending[n]? with
      | none => rw [hev] at h; cases h
      | some ev =>
          rw [hev] at h
          obtain ⟨agent, hstep, rfl⟩ := Option.map_eq_some_iff.mp h
          cases AgentWorld.step_inv hstep with
          | evictFails _ ev' hev' => exact .evictFails n failing ev hev
          | evict _ ev' hev' =>
              have he : ev' = ev := Option.some.inj (hev'.symm.trans hev)
              subst he
              exact .evict n failing ev' hev
  | informer index => cases h; exact .informer index

/-! ## What deletions do to the map -/

/-- The keys an eviction deletes are those of its list whose deletion does not fail. -/
theorem val_foldl_deleteFlow (failing ks : List InetV4Flow) (m : BpfHash InetV4Flow FlowStats)
    (k : InetV4Flow) :
    (ks.foldl (deleteFlow failing) m).val k
      = if k ∈ ks ∧ k ∉ failing then none else m.val k := by
  induction ks generalizing m with
  | nil => simp
  | cons x xs ih =>
      rw [List.foldl_cons, ih]
      by_cases hfail : x ∈ failing
      · rw [deleteFlow, if_pos hfail]
        by_cases hk : k = x
        · subst hk; simp [hfail]
        · simp [hk]
      · rw [deleteFlow, if_neg hfail, BpfHash.val_deleteElem]
        by_cases hk : k = x
        · subst hk; simp [hfail]
        · simp [hk]

/-! ## What a packet does to the map -/

/-- **A packet bumps the entry of the key it is counted under**, and nothing else in the IPv4
map. -/
theorem val_v4_bpfFlowReader (maps : FlowMaps) (skb : SkBuff) (dir : CgroupDirection) :
    (∃ key, countedBy maps skb dir = [.counted key (packetStats skb.len dir)] ∧
      (bpfFlowReader skb dir maps).v4FlowMap.val = Function.update maps.v4FlowMap.val key
        (some ((maps.v4FlowMap.val key).getD 0
          + FlowStatsOf.ofNat (packetStats skb.len dir)))) ∨
    (countedBy maps skb dir = [] ∧
      (bpfFlowReader skb dir maps).v4FlowMap.val = maps.v4FlowMap.val) := by
  unfold countedBy bpfFlowReader
  cases hkey : flowKey skb dir with
  | none => exact Or.inr ⟨rfl, rfl⟩
  | some key =>
      cases key with
      | inr key6 => exact Or.inr ⟨rfl, rfl⟩
      | inl key4 =>
          dsimp only
          by_cases hfull : maps.v4FlowMap.Full key4
          · -- a refused insert leaves the map as it was
            have hp : maps.v4FlowMap.lookupElem key4 = none := by
              rw [← BpfHash.val_eq_none, ← Option.not_isSome_iff_eq_none, ← BpfHash.mem_keys]
              exact hfull.1
            rw [if_pos hfull, countPacket, hp]
            dsimp only
            rw [BpfHash.updateElem_of_full hfull]
            exact Or.inr ⟨rfl, rfl⟩
          · rw [if_neg hfull]
            exact Or.inl ⟨key4, rfl, val_countPacket hfull⟩

/-! ## The packets of a run -/

/-- A packet and the direction in which the program sees it. -/
abbrev Pkt := SkBuff × CgroupDirection

/-- The packets among the steps. -/
def packetsOf (ls : List Label) : List Pkt :=
  ls.filterMap fun
    | .packet skb dir => some (skb, dir)
    | _ => none

theorem packetsOf_append (ls ls' : List Label) :
    packetsOf (ls ++ ls') = packetsOf ls ++ packetsOf ls' := List.filterMap_append

end Kubpf
