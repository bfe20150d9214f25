import Kubpf.Lib.Split
import Kubpf.Agent.Keys
import Kubpf.Agent.Stats

/-!
# Published gauges

How a table entry becomes Prometheus series: the endpoint strings are split again
at their slashes (`toPromMetricsKey`), the number of pieces decides whether an
endpoint is a pod or a service, and the four counters are set under the labels
found. A gauge vector is the map from label values to the value last set.
-/

namespace Kubpf.Agent

open Lib

/-! ## Splitting a key -/

/-- The values `toPromMetricsKey` gives `metricName`; `unset` is Go's empty string. -/
inductive MetricName where
  | unset
  | podSvcStats
  | svcPodStats
  | noExplicitStats
  | podStats
  | svcStats
  deriving DecidableEq, Repr

structure PromMetricsKey where
  podNamespace : String × String := ("", "")
  podName : String × String := ("", "")
  svcNamespace : String × String := ("", "")
  svcScope : String × String := ("", "")
  svcName : String × String := ("", "")
  metricName : MetricName := .unset
  deriving DecidableEq, Repr

/-- `a[i] = s` for a pair. -/
def setSlot (a : String × String) (i : Nat) (s : String) : String × String :=
  if i = 0 then (s, a.2) else (a.1, s)

/-- What the loop of `toPromMetricsKey` carries. -/
structure PromScan where
  key : PromMetricsKey := {}
  keyType : Nat := 0
  svcCount : Nat := 0
  podCount : Nat := 0

/-- One round of the loop, for the endpoint with index `i`: `strings.SplitN(endpoint, "/", 3)`
gives three pieces for a service and two for a pod. -/
def PromScan.step (s : PromScan) (i : Nat) (endpoint : String) : PromScan :=
  match splitN '/' 3 endpoint.toList with
  | [p0, p1, p2] =>
    { s with
      key := { s.key with
        svcNamespace := setSlot s.key.svcNamespace s.svcCount (String.ofList p0)
        svcName := setSlot s.key.svcName s.svcCount (String.ofList p1)
        svcScope := setSlot s.key.svcScope s.svcCount (String.ofList p2) }
      svcCount := s.svcCount + 1
      keyType := s.keyType ||| (if i = 0 then fromSvcKey else toSvcKey) }
  | [p0, p1] =>
    { s with
      key := { s.key with
        podNamespace := setSlot s.key.podNamespace s.podCount (String.ofList p0)
        podName := setSlot s.key.podName s.podCount (String.ofList p1) }
      podCount := s.podCount + 1
      keyType := s.keyType ||| (if i = 0 then fromPodKey else toPodKey) }
  | _ => s

/-- The switch on the key type found. -/
def metricNameOf (keyType : Nat) : MetricName :=
  if keyType = fromPodKey ||| toSvcKey then .podSvcStats
  else if keyType = fromSvcKey ||| toPodKey then .svcPodStats
  else if keyType = fromSvcKey ||| toSvcKey then .noExplicitStats
  else if keyType = fromPodKey ||| toPodKey then .noExplicitStats
  else if keyType = toPodKey ∨ keyType = fromPodKey then .podStats
  else if keyType = fromSvcKey ∨ keyType = toSvcKey then .svcStats
  else .unset

/-- `toPromMetricsKey`. The agent it is given is not looked at. -/
def PodStatsKey.toPromMetricsKey (key : PodStatsKey) : PromMetricsKey :=
  let s := (({} : PromScan).step 0 key.endpoints.1).step 1 key.endpoints.2
  { s.key with metricName := metricNameOf s.keyType }

/-! ## Setting gauges -/

/-- One series: a gauge of a subsystem, under label values. -/
structure Series where
  subsystem : String
  name : String
  labels : List (String × String)
  deriving DecidableEq, Repr

/-- The value last set for each series. -/
abbrev Gauges := Finmap (fun _ : Series => UInt64)

/-- `GetGaugeVec(name).With(labels).Set(value)` for each gauge of a subsystem. -/
def setGauges (subsystem : String) (names : List String) (labels : List (String × String))
    (values : List UInt64) (gauges : Gauges) : Gauges :=
  (names.zip values).foldl (fun gauges nv => gauges.insert ⟨subsystem, nv.1, labels⟩ nv.2) gauges

def podPromMetrics : List String :=
  ["pod_tx_bytes", "pod_tx_packets", "pod_rx_bytes", "pod_rx_packets"]

def svcPromMetrics : List String :=
  ["svc_tx_bytes", "svc_tx_packets", "svc_rx_bytes", "svc_rx_packets"]

def podSvcPromMetrics : List String :=
  ["pod_to_svc_bytes", "pod_to_svc_packets", "svc_to_pod_bytes", "svc_to_pod_packets"]

/-- The labels of `pod_stats`. -/
def PromMetricsKey.podLabels (key : PromMetricsKey) : List (String × String) :=
  [("pod_namespace", key.podNamespace.1), ("pod_name", key.podName.1)]

/-- The labels of `svc_stats`. -/
def PromMetricsKey.svcLabels (key : PromMetricsKey) : List (String × String) :=
  [("svc_namespace", key.svcNamespace.1), ("svc_scope", key.svcScope.1),
    ("svc_name", key.svcName.1)]

/-- `SetPodGauge`. -/
def setPodGauge (key : PromMetricsKey) (stats : FlowStats) (gauges : Gauges) : Gauges :=
  if key.metricName ≠ .podStats then gauges
  else
    setGauges "pod_stats" podPromMetrics key.podLabels
      [stats.outBytes, stats.outPackets, stats.inBytes, stats.inPackets] gauges

/-- `SetSvcGauge`. -/
def setSvcGauge (key : PromMetricsKey) (stats : FlowStats) (gauges : Gauges) : Gauges :=
  if key.metricName ≠ .svcStats then gauges
  else
    setGauges "svc_stats" svcPromMetrics key.svcLabels
      [stats.outBytes, stats.outPackets, stats.inBytes, stats.inPackets] gauges

/-- `SetPodSvcGauge`: the values change places when the key starts with the service. -/
def setPodSvcGauge (key : PromMetricsKey) (stats : FlowStats) (gauges : Gauges) : Gauges :=
  let labels := key.podLabels ++ key.svcLabels
  if key.metricName = .svcPodStats then
    setGauges "pod_svc_stats" podSvcPromMetrics labels
      [stats.inBytes, stats.inPackets, stats.outBytes, stats.outPackets] gauges
  else if key.metricName ≠ .podSvcStats then gauges
  else
    setGauges "pod_svc_stats" podSvcPromMetrics labels
      [stats.outBytes, stats.outPackets, stats.inBytes, stats.inPackets] gauges

/-- The values last set for the gauges of a subsystem under given labels. -/
def published (gauges : Gauges) (subsystem : String) (names : List String)
    (labels : List (String × String)) : List (Option UInt64) :=
  names.map fun name => gauges.lookup ⟨subsystem, name, labels⟩

/-! ## Keys are split into what they were joined from -/

/-- A pod, by namespace and name, neither of which has a slash in it. -/
structure PodName where
  ns : String
  name : String
  ns_plain : '/' ∉ ns.toList
  name_plain : '/' ∉ name.toList

/-- A service, by namespace, name and scope. -/
structure SvcName where
  ns : String
  name : String
  scope : String
  ns_plain : '/' ∉ ns.toList
  name_plain : '/' ∉ name.toList

/-- `fmt.Sprintf("%s/%s", namespace, name)`. -/
def PodName.endpoint (P : PodName) : String := P.ns ++ "/" ++ P.name

/-- The same, and the type behind another slash. -/
def SvcName.endpoint (S : SvcName) : String := S.ns ++ "/" ++ S.name ++ ("/" ++ S.scope)

theorem splitN_podEndpoint (P : PodName) :
    splitN '/' 3 P.endpoint.toList = [P.ns.toList, P.name.toList] := by
  have hjoin : P.endpoint.toList = P.ns.toList ++ '/' :: P.name.toList := by
    simp [PodName.endpoint]
  rw [hjoin, splitN_append P.ns_plain, splitN_of_not_mem P.name_plain]

theorem splitN_svcEndpoint (S : SvcName) :
    splitN '/' 3 S.endpoint.toList = [S.ns.toList, S.name.toList, S.scope.toList] := by
  have hjoin : S.endpoint.toList
      = S.ns.toList ++ '/' :: (S.name.toList ++ '/' :: S.scope.toList) := by
    simp [SvcName.endpoint]
  rw [hjoin, splitN_append S.ns_plain, splitN_append S.name_plain]
  rfl

/-! ## A gauge reads what was last set -/

theorem lookup_foldl_insert_of_not_mem {sub : String} {labels : List (String × String)}
    {nvs : List (String × UInt64)} {name : String} (h : name ∉ nvs.map Prod.fst)
    (gauges : Gauges) :
    (nvs.foldl (fun gauges nv => gauges.insert ⟨sub, nv.1, labels⟩ nv.2) gauges).lookup
        ⟨sub, name, labels⟩ = gauges.lookup ⟨sub, name, labels⟩ := by
  induction nvs generalizing gauges with
  | nil => rfl
  | cons nv nvs ih =>
      rw [List.map_cons, List.mem_cons, not_or] at h
      have hne : (⟨sub, name, labels⟩ : Series) ≠ ⟨sub, nv.1, labels⟩ := by
        intro he
        exact h.1 (Series.mk.inj he).2.1
      rw [List.foldl_cons, ih h.2, Finmap.lookup_insert_of_ne _ hne]

/-- A gauge that is set does not show what it showed before. -/
theorem lookup_foldl_insert_of_mem {sub : String} {labels : List (String × String)}
    {nvs : List (String × UInt64)} {name : String} (h : name ∈ nvs.map Prod.fst)
    (gauges gauges' : Gauges) :
    (nvs.foldl (fun gauges nv => gauges.insert ⟨sub, nv.1, labels⟩ nv.2) gauges).lookup
        ⟨sub, name, labels⟩
      = (nvs.foldl (fun gauges nv => gauges.insert ⟨sub, nv.1, labels⟩ nv.2) gauges').lookup
        ⟨sub, name, labels⟩ := by
  induction nvs generalizing gauges gauges' with
  | nil => exact absurd h List.not_mem_nil
  | cons nv nvs ih =>
      rw [List.foldl_cons, List.foldl_cons]
      by_cases hlater : name ∈ nvs.map Prod.fst
      · exact ih hlater _ _
      · -- this is the last time it is set
        obtain rfl : name = nv.1 := (List.mem_cons.mp h).resolve_right hlater
        rw [lookup_foldl_insert_of_not_mem hlater, lookup_foldl_insert_of_not_mem hlater,
          Finmap.lookup_insert, Finmap.lookup_insert]

/-- **Setting the gauges of a subsystem publishes the values.** -/
theorem published_setGauges {sub : String} {labels : List (String × String)}
    {names : List String} {values : List UInt64} (hnd : names.Nodup)
    (hlen : names.length = values.length) (gauges : Gauges) :
    published (setGauges sub names labels values gauges) sub names labels = values.map some := by
  unfold published setGauges
  induction names generalizing values gauges with
  | nil =>
      cases values with
      | nil => rfl
      | cons v vs => exact absurd hlen (by simp)
  | cons name names ih =>
      cases values with
      | nil => exact absurd hlen (by simp)
      | cons v vs =>
          obtain ⟨hname, hnames⟩ := List.nodup_cons.mp hnd
          -- no later gauge has this name, so its value stays
          have hout : name ∉ (names.zip vs).map Prod.fst := by
            rw [List.map_fst_zip (Nat.le_of_eq (Nat.succ.inj hlen))]
            exact hname
          rw [List.zip_cons_cons, List.foldl_cons, List.map_cons, List.map_cons,
            lookup_foldl_insert_of_not_mem hout, Finmap.lookup_insert,
            ih hnames (Nat.succ.inj hlen)]

/-- Setting gauges leaves every series that is not among them. -/
theorem lookup_setGauges_of_ne {sub : String} {labels : List (String × String)}
    {names : List String} {values : List UInt64} {ser : Series}
    (h : ¬ (ser.subsystem = sub ∧ ser.labels = labels)) (gauges : Gauges) :
    (setGauges sub names labels values gauges).lookup ser = gauges.lookup ser := by
  unfold setGauges
  induction names.zip values generalizing gauges with
  | nil => rfl
  | cons nv nvs ih =>
      have hne : ser ≠ ⟨sub, nv.1, labels⟩ := by
        rintro rfl
        exact h ⟨rfl, rfl⟩
      rw [List.foldl_cons, ih, Finmap.lookup_insert_of_ne _ hne]

end Kubpf.Agent
