import Kubpf.Agent.MergeStats

/-!
# The pod/service series

A flow between a pod and a service is recorded in one of two orientations, and
the series of the pair are named after the direction of the traffic. The
directions are exchanged twice on the way from the flow to the series: in
`mergeStats`, for the destination's table, and in `SetPodSvcGauge`, when the key
starts with the service. The pair's own entry is added to after the first
exchange and not turned back, so in either orientation what is published is the
traffic the other way.
-/

namespace Kubpf.Agent

open Lib

/-- Which end of a flow the pod is. -/
inductive Orientation where
  | podToSvc
  | svcToPod
  deriving DecidableEq, Repr

/-- The key of a pair, as `getPodStatsKey` builds it. -/
def pairKey (P : PodName) (S : SvcName) : Orientation → PodStatsKey
  | .podToSvc => ⟨(P.endpoint, S.endpoint)⟩
  | .svcToPod => ⟨(S.endpoint, P.endpoint)⟩

def Orientation.keyType : Orientation → Nat
  | .podToSvc => fromPodKey ||| toSvcKey
  | .svcToPod => fromSvcKey ||| toPodKey

/-- Counters of a flow, turned so that Out is what went from the pod to the service. -/
def Orientation.fromPod (o : Orientation) (stats : FlowStats) : FlowStats :=
  match o with
  | .podToSvc => stats
  | .svcToPod => stats.swap

/-- The labels of a pair. -/
def pairLabels (P : PodName) (S : SvcName) : List (String × String) :=
  [("pod_namespace", P.ns), ("pod_name", P.name), ("svc_namespace", S.ns),
    ("svc_scope", S.scope), ("svc_name", S.name)]

/-- The four counters in the order the gauges take them. -/
def gaugeValues (stats : FlowStats) : List UInt64 :=
  [stats.outBytes, stats.outPackets, stats.inBytes, stats.inPackets]

/-- A sequence of `mergeStats` calls for one key. -/
def mergeCalls (metric : InetV4FlowMetricsEntry) (keyType : Nat) (key : PodStatsKey)
    (calls : List (FlowStats × Time)) : InetV4FlowMetricsEntry :=
  calls.foldl (fun metric c => metric.mergeStats keyType key c.1 c.2) metric

/-! ## The labels and the name of a pair's key -/

section Labels

variable (P : PodName) (S : SvcName)

theorem toPromMetricsKey_pair (o : Orientation) :
    (pairKey P S o).toPromMetricsKey
      = { podNamespace := (P.ns, ""), podName := (P.name, "")
          svcNamespace := (S.ns, ""), svcScope := (S.scope, ""), svcName := (S.name, "")
          metricName := match o with
            | .podToSvc => .podSvcStats
            | .svcToPod => .svcPodStats } := by
  cases o with
  | podToSvc =>
      simp only [PodStatsKey.toPromMetricsKey, PromScan.step, pairKey, splitN_podEndpoint,
        splitN_svcEndpoint, String.ofList_toList, setSlot]
      rfl
  | svcToPod =>
      simp only [PodStatsKey.toPromMetricsKey, PromScan.step, pairKey, splitN_podEndpoint,
        splitN_svcEndpoint, String.ofList_toList, setSlot]
      rfl

/-- **What `SetPodSvcGauge` publishes for a pair**, by orientation. -/
theorem published_setPodSvcGauge (o : Orientation) (stats : FlowStats) (gauges : Gauges) :
    published (setPodSvcGauge (pairKey P S o).toPromMetricsKey stats gauges) "pod_svc_stats"
        podSvcPromMetrics (pairLabels P S)
      = (gaugeValues (o.fromPod stats)).map some := by
  have hlen : ∀ a b c d : UInt64, podSvcPromMetrics.length = [a, b, c, d].length := fun _ _ _ _ => rfl
  rw [toPromMetricsKey_pair]
  cases o with
  | podToSvc => exact published_setGauges (by decide) (hlen ..) gauges
  | svcToPod => exact published_setGauges (by decide) (hlen ..) gauges

end Labels

/-! ## What the pair's entry holds -/

/-- The pair's entry gets every call turned around, whatever the orientation. -/
theorem sharesOf_pair (o : Orientation) (key : PodStatsKey) :
    sharesOf (shares o.keyType key) .known key = [⟨.known, key, true⟩] := by
  cases o with
  | podToSvc =>
      have h : shares Orientation.podToSvc.keyType key
          = [⟨.pod, key.clear 1, false⟩, ⟨.svc, key.swap.clear 1, true⟩, ⟨.known, key, true⟩] := rfl
      rw [h]
      simp [sharesOf]
  | svcToPod =>
      have h : shares Orientation.svcToPod.keyType key
          = [⟨.svc, key.clear 1, false⟩, ⟨.pod, key.swap.clear 1, true⟩, ⟨.known, key, true⟩] := rfl
      rw [h]
      simp [sharesOf]

theorem statsOf_mergeStats_pair (metric : InetV4FlowMetricsEntry) (o : Orientation)
    (key : PodStatsKey) (stats : FlowStats) (t : Time) :
    (metric.mergeStats o.keyType key stats t).statsOf .known key
      = metric.statsOf .known key + stats.swap := by
  rw [InetV4FlowMetricsEntry.mergeStats_eq, InetV4FlowMetricsEntry.statsOf_addShares,
    sharesOf_pair]
  simp [Share.part]

theorem statsOf_mergeCalls_pair (metric : InetV4FlowMetricsEntry) (o : Orientation)
    (key : PodStatsKey) (calls : List (FlowStats × Time)) :
    (mergeCalls metric o.keyType key calls).statsOf .known key
      = metric.statsOf .known key + ((calls.map Prod.fst).sum).swap := by
  induction calls generalizing metric with
  | nil => exact (add_zero _).symm
  | cons c cs ih =>
      have hrest := ih (metric.mergeStats o.keyType key c.1 c.2)
      rw [statsOf_mergeStats_pair, add_assoc] at hrest
      rw [List.map_cons, List.sum_cons, FlowStatsOf.swap_add]
      exact hrest

theorem gauges_addTo_known (metric : InetV4FlowMetricsEntry) (key : PodStatsKey)
    (stats : FlowStats) (t : Time) :
    (metric.addTo .known key stats t).agent.gauges
      = setPodSvcGauge key.toPromMetricsKey ((metric.addTo .known key stats t).statsOf .known key)
          metric.agent.gauges := rfl

/-- The pair's entry is published last. -/
theorem gauges_mergeStats_pair (metric : InetV4FlowMetricsEntry) (o : Orientation)
    (key : PodStatsKey) (stats : FlowStats) (t : Time) :
    ∃ gauges, (metric.mergeStats o.keyType key stats t).agent.gauges
      = setPodSvcGauge key.toPromMetricsKey
          ((metric.mergeStats o.keyType key stats t).statsOf .known key) gauges := by
  cases o with
  | podToSvc => exact ⟨_, gauges_addTo_known _ key stats.swap t⟩
  | svcToPod => exact ⟨_, gauges_addTo_known _ key stats.swap t⟩

/-- **The series of a pair show the traffic the wrong way round.** -/
theorem published_mergeCalls (P : PodName) (S : SvcName) (o : Orientation)
    (metric : InetV4FlowMetricsEntry) (calls : List (FlowStats × Time)) (hne : calls ≠ [])
    (hnew : metric.knownStatsMap.val (pairKey P S o) = none) :
    published (mergeCalls metric o.keyType (pairKey P S o) calls).agent.gauges "pod_svc_stats"
        podSvcPromMetrics (pairLabels P S)
      = (gaugeValues ((calls.map fun c => o.fromPod c.1).sum).swap).map some := by
  obtain ⟨before, last, rfl⟩ := List.eq_nil_or_concat calls |>.resolve_left hne
  have hzero : metric.statsOf .known (pairKey P S o) = 0 := by
    have h : (metric.table .known).val (pairKey P S o) = none := hnew
    rw [InetV4FlowMetricsEntry.statsOf, h]
    rfl
  have hsum := statsOf_mergeCalls_pair metric o (pairKey P S o) (before.concat last)
  rw [hzero, zero_add] at hsum
  -- only the last call shows: it publishes the sums of all of them
  have hlast : mergeCalls metric o.keyType (pairKey P S o) (before.concat last)
      = (mergeCalls metric o.keyType (pairKey P S o) before).mergeStats o.keyType (pairKey P S o)
          last.1 last.2 := by
    rw [List.concat_eq_append, mergeCalls, List.foldl_append]
    rfl
  obtain ⟨gauges, hg⟩ := gauges_mergeStats_pair (mergeCalls metric o.keyType (pairKey P S o) before)
    o (pairKey P S o) last.1 last.2
  rw [← hlast, hsum] at hg
  rw [hg, published_setPodSvcGauge]
  congr 2
  -- turning each call or turning the sum is the same
  cases o with
  | podToSvc => rfl
  | svcToPod =>
      have hmap : (before.concat last).map (fun c => Orientation.svcToPod.fromPod c.1)
          = ((before.concat last).map Prod.fst).map FlowStatsOf.swapHom := by
        rw [List.map_map]
        rfl
      rw [hmap, ← map_list_sum]
      rfl

/--
**The series carry the direction their names say exactly when both directions are equal.**

For any non-empty sequence of merges between a pod and a service, all in one
orientation, on a pair that has no entry yet: the four series are the sums of
what went from the pod to the service and back if and only if the two sums are
the same, in bytes and in packets.
-/
theorem pair_series_correct_iff (P : PodName) (S : SvcName) (o : Orientation)
    (metric : InetV4FlowMetricsEntry) (calls : List (FlowStats × Time)) (hne : calls ≠ [])
    (hnew : metric.knownStatsMap.val (pairKey P S o) = none) :
    published (mergeCalls metric o.keyType (pairKey P S o) calls).agent.gauges "pod_svc_stats"
        podSvcPromMetrics (pairLabels P S)
      = (gaugeValues (calls.map fun c => o.fromPod c.1).sum).map some
    ↔ (calls.map fun c => c.1.outBytes).sum = (calls.map fun c => c.1.inBytes).sum ∧
      (calls.map fun c => c.1.outPackets).sum = (calls.map fun c => c.1.inPackets).sum := by
  rw [published_mergeCalls P S o metric calls hne hnew]
  have hsums : ∀ cs : List (FlowStats × Time),
      (cs.map fun c => o.fromPod c.1).sum = o.fromPod
        ⟨(cs.map fun c => c.1.outBytes).sum, (cs.map fun c => c.1.outPackets).sum,
          (cs.map fun c => c.1.inBytes).sum, (cs.map fun c => c.1.inPackets).sum⟩ := by
    intro cs
    induction cs with
    | nil => cases o <;> rfl
    | cons c cs ih =>
        rw [List.map_cons, List.sum_cons, ih]
        cases o <;> rfl
  rw [hsums]
  cases o with
  | podToSvc =>
      simp only [gaugeValues, Orientation.fromPod, FlowStatsOf.swap, List.map_cons, List.map_nil,
        List.cons.injEq, Option.some.injEq, and_true]
      constructor
      · rintro ⟨hb, hp, -, -⟩
        exact ⟨hb.symm, hp.symm⟩
      · rintro ⟨hb, hp⟩
        exact ⟨hb.symm, hp.symm, hb, hp⟩
  | svcToPod =>
      simp only [gaugeValues, Orientation.fromPod, FlowStatsOf.swap, List.map_cons, List.map_nil,
        List.cons.injEq, Option.some.injEq, and_true]
      constructor
      · rintro ⟨hb, hp, -, -⟩
        exact ⟨hb, hp⟩
      · rintro ⟨hb, hp⟩
        exact ⟨hb, hp, hb.symm, hp.symm⟩

/-- A pod that asks a service. -/
def clientPod : PodName := ⟨"default", "client", by decide, by decide⟩
def dnsService : SvcName := ⟨"kube-system", "dns", "clusterIp", by decide, by decide⟩

/-- As many bytes and packets back as forth. -/
theorem pair_series_correct_iff_balanced :
    published (mergeCalls (newInetV4FlowMetricsEntry newStatsAgent) Orientation.podToSvc.keyType
        (pairKey clientPod dnsService .podToSvc) [(⟨60, 1, 60, 1⟩, 1)]).agent.gauges
        "pod_svc_stats" podSvcPromMetrics (pairLabels clientPod dnsService)
      = [some 60, some 1, some 60, some 1] :=
  (pair_series_correct_iff clientPod dnsService .podToSvc
    (newInetV4FlowMetricsEntry newStatsAgent) [(⟨60, 1, 60, 1⟩, 1)] (by decide) (by decide)).mpr
    (by decide)

/-- 60 bytes in one packet go to the service, 92 in two come back: the series say the
opposite. -/
theorem pair_series_exchanged :
    published (mergeCalls (newInetV4FlowMetricsEntry newStatsAgent) Orientation.podToSvc.keyType
        (pairKey clientPod dnsService .podToSvc) [(⟨60, 1, 92, 2⟩, 1)]).agent.gauges
        "pod_svc_stats" podSvcPromMetrics (pairLabels clientPod dnsService)
      = [some 92, some 2, some 60, some 1] ∧
    [some 92, some 2, some 60, some 1]
      ≠ (gaugeValues ([(⟨60, 1, 92, 2⟩, 1)].map fun c : FlowStats × Time =>
          Orientation.podToSvc.fromPod c.1).sum).map some := by
  decide

end Kubpf.Agent
