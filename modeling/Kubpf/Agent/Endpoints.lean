import Kubpf.Agent.UpdateStats

/-!
# The entries a flow feeds

`getPodStatsKey` and `mergeStats` together: as long as no address is both a pod's
and a service's, a flow feeds the entry of its source, the entry of its
destination, and the entry of the pair when one is a pod and the other a service,
and nothing else.
-/

namespace Kubpf.Agent

open Lib

/-- The entries a merge for `keyOut` goes to. -/
def flowShares (agent : Index) (keyOut : InetV4Flow) : List Share :=
  shares (getPodStatsKey agent keyOut).2 (getPodStatsKey agent keyOut).1

/-- The key of a flow. -/
def Index.pairKey (agent : Index) (K : InetV4Flow) : PodStatsKey :=
  ⟨(agent.endpoint (getSrcIp K), agent.endpoint (getDstIp K))⟩

/-- The entry of the endpoint at an address. -/
def Index.endpointKey (agent : Index) (ip : String) : PodStatsKey := ⟨(agent.endpoint ip, "")⟩

/-- The shares of an endpoint. -/
def endpointShares (agent : Index) (ip : String) (swapped : Bool) : List Share :=
  (if agent.isPod ip then [⟨.pod, agent.endpointKey ip, swapped⟩] else []) ++
    (if agent.isSvc ip then [⟨.svc, agent.endpointKey ip, swapped⟩] else [])

/-- One end is a pod and the other a service. -/
def Index.mixed (agent : Index) (K : InetV4Flow) : Bool :=
  (agent.isPod (getSrcIp K) && agent.isSvc (getDstIp K)) ||
    (agent.isSvc (getSrcIp K) && agent.isPod (getDstIp K))

theorem Index.NoSharedIp.not_both {agent : Index} (h : agent.NoSharedIp) (ip : String) :
    ¬ (agent.isPod ip = true ∧ agent.isSvc ip = true) := h ip

/-- The same, at the two addresses of one flow. -/
theorem flowShares_eq_of_not_both {agent : Index} {K : InetV4Flow}
    (hsrc : ¬ (agent.isPod (getSrcIp K) = true ∧ agent.isSvc (getSrcIp K) = true))
    (hdst : ¬ (agent.isPod (getDstIp K) = true ∧ agent.isSvc (getDstIp K) = true)) :
    flowShares agent K
      = endpointShares agent (getSrcIp K) false ++ endpointShares agent (getDstIp K) true ++
        (if agent.mixed K then [⟨.known, agent.pairKey K, true⟩] else []) := by
  unfold flowShares endpointShares Index.mixed
  rw [getPodStatsKey_eq]
  dsimp only [Index.keyType, Index.pairKey, Index.endpointKey]
  generalize agent.isPod (getSrcIp K) = srcPod at hsrc ⊢
  generalize agent.isSvc (getSrcIp K) = srcSvc at hsrc ⊢
  generalize agent.isPod (getDstIp K) = dstPod at hdst ⊢
  generalize agent.isSvc (getDstIp K) = dstSvc at hdst ⊢
  -- one case for each type a flow can have
  cases srcPod <;> cases srcSvc <;> cases dstPod <;> cases dstSvc <;>
    first
      | rfl
      | exact absurd ⟨rfl, rfl⟩ hsrc
      | exact absurd ⟨rfl, rfl⟩ hdst

/-- **A flow feeds its source, its destination and the pair.** -/
theorem flowShares_eq {agent : Index} (h : agent.NoSharedIp) (K : InetV4Flow) :
    flowShares agent K
      = endpointShares agent (getSrcIp K) false ++ endpointShares agent (getDstIp K) true ++
        (if agent.mixed K then [⟨.known, agent.pairKey K, true⟩] else []) :=
  flowShares_eq_of_not_both (h.not_both _) (h.not_both _)

/-- Where an address is both a pod's and a service's, nothing is shared out. -/
theorem not_both_of_mem_flowShares {agent : Index} {K : InetV4Flow} {sh : Share}
    (h : sh ∈ flowShares agent K) :
    ¬ (agent.isPod (getSrcIp K) = true ∧ agent.isSvc (getSrcIp K) = true) ∧
      ¬ (agent.isPod (getDstIp K) = true ∧ agent.isSvc (getDstIp K) = true) := by
  rw [flowShares, getPodStatsKey_eq] at h
  dsimp only [Index.keyType] at h
  generalize agent.isPod (getSrcIp K) = srcPod at h ⊢
  generalize agent.isSvc (getSrcIp K) = srcSvc at h ⊢
  generalize agent.isPod (getDstIp K) = dstPod at h ⊢
  generalize agent.isSvc (getDstIp K) = dstSvc at h ⊢
  refine ⟨?_, ?_⟩
  · rintro ⟨rfl, rfl⟩
    cases dstPod <;> cases dstSvc <;> exact absurd h List.not_mem_nil
  · rintro ⟨rfl, rfl⟩
    cases srcPod <;> cases srcSvc <;> exact absurd h List.not_mem_nil

theorem mem_endpointShares {agent : Index} {ip : String} {swapped : Bool} {sh : Share} :
    sh ∈ endpointShares agent ip swapped
      ↔ (agent.isPod ip = true ∧ sh = ⟨.pod, agent.endpointKey ip, swapped⟩) ∨
        (agent.isSvc ip = true ∧ sh = ⟨.svc, agent.endpointKey ip, swapped⟩) := by
  rw [endpointShares, List.mem_append]
  refine or_congr ?_ ?_
  · split_ifs with h
    · rw [List.mem_singleton, and_iff_right h]
    · exact iff_of_false List.not_mem_nil fun hc => h hc.1
  · split_ifs with h
    · rw [List.mem_singleton, and_iff_right h]
    · exact iff_of_false List.not_mem_nil fun hc => h hc.1

/-- Whatever a report turns out to be, it changes the aggregate tables by a merge of the flow's
shares, or not at all. -/
theorem Observation.merges {t : Time} {s s' : Scan} {key : InetV4Flow} {v : FlowStats}
    (h : Observation t s key v s') :
    s'.metric.agent.toIndex = s.metric.agent.toIndex ∧
    ∀ T k, ((s'.metric.table T).val k = (s.metric.table T).val k) ∨
      ((∃ sh ∈ flowShares s.metric.agent.toIndex key, sh.table = T ∧ sh.key = k) ∧
        ∃ e, (s'.metric.table T).val k = some e ∧ e.agingCounter = 0 ∧ e.timeStamp = t) := by
  cases h with
  | new b _ _ =>
      refine ⟨index_mergeStats, fun T k => ?_⟩
      by_cases hsh : ∃ sh ∈ flowShares s.metric.agent.toIndex key, sh.table = T ∧ sh.key = k
      · exact Or.inr ⟨hsh, val_mergeStats_of_mem hsh⟩
      · exact Or.inl ((val_mergeStats_of_not_mem hsh).trans (by rw [table_withBaseMap]))
  | unchanged b e _ _ _ => exact ⟨rfl, fun T k => Or.inl (by rw [table_withBaseMap])⟩
  | changed b e _ _ _ =>
      refine ⟨index_mergeStats, fun T k => ?_⟩
      by_cases hsh : ∃ sh ∈ flowShares s.metric.agent.toIndex key, sh.table = T ∧ sh.key = k
      · exact Or.inr ⟨hsh, val_mergeStats_of_mem hsh⟩
      · exact Or.inl ((val_mergeStats_of_not_mem hsh).trans (by rw [table_withBaseMap]))

/-! ## The entries' contents -/

/-- The part of a flow's counters that goes to one entry. -/
def entryShare (agent : Index) (K : InetV4Flow) (T : Table) (k : PodStatsKey) (v : FlowStats) :
    FlowStats :=
  ((sharesOf (flowShares agent K) T k).map fun sh => sh.part v).sum

/-- **A scan of unknown flows hands out their counters**, every flow's once. -/
theorem statsOf_scanFlows {t : Time} {reports : List (InetV4Flow × FlowStats)} {s : Scan}
    (hnd : (reports.map Prod.fst).Nodup)
    (hnew : ∀ r ∈ reports, s.metric.baseMap.val r.1 = none) (T : Table) (k : PodStatsKey) :
    (scanFlows t reports s).metric.statsOf T k
      = s.metric.statsOf T k
        + (reports.map fun r => entryShare s.metric.agent.toIndex r.1 T k r.2).sum := by
  induction reports generalizing s with
  | nil => exact (add_zero _).symm
  | cons r rs ih =>
      rw [List.map_cons, List.nodup_cons] at hnd
      rw [scanFlows, List.foldl_cons, List.map_cons, List.sum_cons]
      have hobs := scanFlow_observes t s r.1 r.2
      generalize scanFlow t s r.1 r.2 = s' at hobs
      have hnone := hnew r (List.mem_cons_self ..)
      cases hobs with
      | new b _ hb =>
          refine (ih hnd.2 fun r' hr' => ?_).trans ?_
          · have hne : r'.1 ≠ r.1 := fun he => hnd.1 (he ▸ List.mem_map_of_mem hr')
            rw [baseMap_mergeStats, hb, Function.update_of_ne hne]
            exact hnew r' (List.mem_cons_of_mem _ hr')
          · rw [index_mergeStats, InetV4FlowMetricsEntry.mergeStats_eq,
              InetV4FlowMetricsEntry.statsOf_addShares, ← add_assoc]
            have hbefore : ({ s.metric with baseMap := b } : InetV4FlowMetricsEntry).statsOf T k
                = s.metric.statsOf T k := by cases T <;> rfl
            rw [hbefore]
            rfl
      | unchanged b e hval _ _ => exact absurd (hnone.symm.trans hval) (by simp)
      | changed b e hval _ _ => exact absurd (hnone.symm.trans hval) (by simp)

/-- Aging leaves the counters. -/
theorem statsOf_finishScan {input : ScanInput} {s : Scan} (h : input.OrdersOf s.metric) (T : Table)
    (k : PodStatsKey) : (finishScan input s).1.statsOf T k = s.metric.statsOf T k := by
  unfold InetV4FlowMetricsEntry.statsOf
  rw [val_finishScan h]
  cases (s.metric.table T).val k with
  | none => rfl
  | some e =>
      rw [Option.map_some, FlowStatsEntry.aged]
      split_ifs <;> rfl

/-- A pod and the name server it asks. -/
def clientIndex : Index where
  podInfo := Finmap.singleton "default/client" ⟨"10.244.0.5"⟩
  podIpToName := Finmap.singleton "10.244.0.5" "default/client"
  svcInfo := Finmap.singleton "kube-system/dns" ⟨"10.96.0.10", "clusterIp"⟩
  svcIpToName := Finmap.singleton "10.96.0.10" "kube-system/dns"

end Kubpf.Agent
