import Kubpf.Agent.PodSvcSeries
import Kubpf.Agent.Endpoints
import Kubpf.Agent.Merged

/-!
# From endpoints to labels

An endpoint's kind is found out twice: `getPodStatsKey` looks its address up in
the two indexes, and `toPromMetricsKey` counts the slashes in the string that
came of it. The two agree as long as names have no slashes of their own, and then
the labels of a series are the parts that were joined.

An endpoint string is one of three things, a pod's, a service's or an address.
Everything here is a case analysis over those.
-/

namespace Kubpf.Agent

open Lib

/-! ## Endpoint strings -/

/-- What an endpoint string stands for. -/
inductive EndpointName where
  | pod (P : PodName)
  | svc (S : SvcName)
  /-- Neither: an address, or nothing at all. -/
  | outside (text : String) (plain : '/' ∉ text.toList)

namespace EndpointName

def text : EndpointName → String
  | .pod P => P.endpoint
  | .svc S => S.endpoint
  | .outside text _ => text

def isPod : EndpointName → Bool
  | .pod _ => true
  | _ => false

def isSvc : EndpointName → Bool
  | .svc _ => true
  | _ => false

end EndpointName

/-- The end of a key that `clear` has emptied. -/
def noEndpoint : EndpointName := .outside "" (by decide)

theorem splitN_outside {text : String} (plain : '/' ∉ text.toList) :
    splitN '/' 3 text.toList = [text.toList] := splitN_of_not_mem plain 2

/-- The kinds `toPromMetricsKey` finds in a key. -/
def PodStatsKey.splitKeyType (key : PodStatsKey) : Nat :=
  ((({} : PromScan).step 0 key.endpoints.1).step 1 key.endpoints.2).keyType

/-- The bit an endpoint adds to the kinds found. -/
def EndpointName.keyBit (i : Nat) : EndpointName → Nat
  | .pod _ => if i = 0 then fromPodKey else toPodKey
  | .svc _ => if i = 0 then fromSvcKey else toSvcKey
  | .outside _ _ => 0

theorem keyType_step (s : PromScan) (i : Nat) (a : EndpointName) :
    (s.step i a.text).keyType = s.keyType ||| a.keyBit i := by
  cases a with
  | pod P => rw [EndpointName.text, PromScan.step, splitN_podEndpoint]; rfl
  | svc S => rw [EndpointName.text, PromScan.step, splitN_svcEndpoint]; rfl
  | outside text plain =>
      rw [EndpointName.text, PromScan.step, splitN_outside plain]
      exact (Nat.or_zero _).symm

/-- **The kinds found by splitting are those the endpoints have.** -/
theorem splitKeyType_eq (a b : EndpointName) :
    PodStatsKey.splitKeyType ⟨(a.text, b.text)⟩ = keyTypeOf a.isPod b.isPod a.isSvc b.isSvc := by
  rw [PodStatsKey.splitKeyType, keyType_step, keyType_step]
  cases a <;> cases b <;>
    simp [EndpointName.keyBit, EndpointName.isPod, EndpointName.isSvc, keyTypeOf, fromPodKey,
      toPodKey, fromSvcKey, toSvcKey]

/-- A pod's own key. -/
theorem toPromMetricsKey_pod (P : PodName) :
    PodStatsKey.toPromMetricsKey ⟨(P.endpoint, "")⟩
      = { podNamespace := (P.ns, ""), podName := (P.name, ""), metricName := .podStats } := by
  have hempty : splitN '/' 3 "".toList = ["".toList] := splitN_outside (by decide)
  simp only [PodStatsKey.toPromMetricsKey, PromScan.step, splitN_podEndpoint, hempty,
    String.ofList_toList, setSlot]
  rfl

/-- A service's own key. -/
theorem toPromMetricsKey_svc (S : SvcName) :
    PodStatsKey.toPromMetricsKey ⟨(S.endpoint, "")⟩
      = { svcNamespace := (S.ns, ""), svcScope := (S.scope, ""), svcName := (S.name, "")
          metricName := .svcStats } := by
  have hempty : splitN '/' 3 "".toList = ["".toList] := splitN_outside (by decide)
  simp only [PodStatsKey.toPromMetricsKey, PromScan.step, splitN_svcEndpoint, hempty,
    String.ofList_toList, setSlot]
  rfl

/-! ## Which endpoint string an address gets -/

/-- The names in the indexes are joined from parts without slashes; the scope of a service may be
anything. -/
structure Index.Named (agent : Index) : Prop where
  pods : ∀ ip v, agent.podIpToName.lookup ip = some v → ∃ P : PodName, v = P.endpoint
  services : ∀ ip v, agent.svcIpToName.lookup ip = some v →
    ∃ S : SvcName, v = S.ns ++ "/" ++ S.name ∧ S.scope = agent.svcType v

/-- Addresses are printed with digits and dots. -/
theorem plain_ipString (octets : List UInt8) : '/' ∉ (ipString octets).toList := by
  have hdigits : ∀ n : Nat, '/' ∉ Nat.toDigits 10 n := not_mem_toDigits (by decide)
  unfold ipString
  split
  · simp [hdigits]
  · decide

theorem plain_getSrcIp (K : InetV4Flow) : '/' ∉ (getSrcIp K).toList := plain_ipString _

theorem plain_getDstIp (K : InetV4Flow) : '/' ∉ (getDstIp K).toList := plain_ipString _

/-- What the string of an address stands for: exactly what the indexes have under it. -/
inductive Resolves (agent : Index) (ip : String) : EndpointName → Prop
  | pod (P : PodName) (hpod : agent.podIpToName.lookup ip = some P.endpoint)
      (hsvc : agent.svcIpToName.lookup ip = none) : Resolves agent ip (.pod P)
  | svc (S : SvcName) (hsvc : agent.svcIpToName.lookup ip = some (S.ns ++ "/" ++ S.name))
      (hscope : S.scope = agent.svcType (S.ns ++ "/" ++ S.name)) : Resolves agent ip (.svc S)
  | outside (plain : '/' ∉ ip.toList) (hpod : agent.podIpToName.lookup ip = none)
      (hsvc : agent.svcIpToName.lookup ip = none) : Resolves agent ip (.outside ip plain)

section Resolve

variable {agent : Index} {ip : String}

theorem exists_resolves (h : agent.Named) (plain : '/' ∉ ip.toList) :
    ∃ a, Resolves agent ip a := by
  cases hsvc : agent.svcIpToName.lookup ip with
  | some v =>
      obtain ⟨S, rfl, hscope⟩ := h.services ip v hsvc
      exact ⟨_, .svc S hsvc hscope⟩
  | none =>
      cases hpod : agent.podIpToName.lookup ip with
      | some v =>
          obtain ⟨P, rfl⟩ := h.pods ip v hpod
          exact ⟨_, .pod P hpod hsvc⟩
      | none => exact ⟨_, .outside plain hpod hsvc⟩

theorem PodName.endpoint_ne (P : PodName) : P.endpoint ≠ "" := by
  intro h
  have := congrArg String.length h
  simp [PodName.endpoint] at this

variable {a : EndpointName}

/-- **The endpoint string is the text of what the address stands for.** -/
theorem Resolves.endpoint_eq (h : Resolves agent ip a) : agent.endpoint ip = a.text := by
  unfold Index.endpoint
  cases h with
  | pod P hpod hsvc =>
      rw [hsvc, hpod]
      exact if_neg P.endpoint_ne
  | svc S hsvc hscope =>
      rw [hsvc, EndpointName.text, SvcName.endpoint, hscope]
  | outside plain hpod hsvc =>
      rw [hsvc, hpod]
      rfl

theorem Resolves.isSvc_eq (h : Resolves agent ip a) : agent.isSvc ip = a.isSvc := by
  unfold Index.isSvc
  cases h with
  | pod P hpod hsvc => rw [hsvc]; rfl
  | svc S hsvc hscope => rw [hsvc]; rfl
  | outside plain hpod hsvc => rw [hsvc]; rfl

theorem Resolves.isPod_eq (h : Resolves agent ip a)
    (hnot : ¬ (agent.isPod ip = true ∧ agent.isSvc ip = true)) : agent.isPod ip = a.isPod := by
  cases h with
  | pod P hpod hsvc => rw [Index.isPod, hpod]; rfl
  | svc S hsvc hscope =>
      -- the address is a service's, so not a pod's as well
      rw [Index.isSvc, hsvc, Option.isSome_some, and_iff_left rfl, Bool.not_eq_true] at hnot
      exact hnot
  | outside plain hpod hsvc => rw [Index.isPod, hpod]; rfl

end Resolve

/-! ## The keys of shares -/

/-- An endpoint's own key, or the key of a pair, after the names found at a flow's addresses. -/
inductive NamedShare (agent : Index) (src dst : String) : Share → Prop
  | pod (P : PodName) (swapped : Bool)
      (hpod : agent.podIpToName.lookup (if swapped then dst else src) = some P.endpoint) :
      NamedShare agent src dst ⟨.pod, ⟨(P.endpoint, "")⟩, swapped⟩
  | svc (S : SvcName) (swapped : Bool)
      (hsvc : agent.svcIpToName.lookup (if swapped then dst else src)
        = some (S.ns ++ "/" ++ S.name))
      (hscope : S.scope = agent.svcType (S.ns ++ "/" ++ S.name)) :
      NamedShare agent src dst ⟨.svc, ⟨(S.endpoint, "")⟩, swapped⟩
  | podToSvc (P : PodName) (S : SvcName)
      (hpod : agent.podIpToName.lookup src = some P.endpoint)
      (hsvc : agent.svcIpToName.lookup dst = some (S.ns ++ "/" ++ S.name))
      (hscope : S.scope = agent.svcType (S.ns ++ "/" ++ S.name)) :
      NamedShare agent src dst ⟨.known, pairKey P S .podToSvc, true⟩
  | svcToPod (P : PodName) (S : SvcName)
      (hpod : agent.podIpToName.lookup dst = some P.endpoint)
      (hsvc : agent.svcIpToName.lookup src = some (S.ns ++ "/" ++ S.name))
      (hscope : S.scope = agent.svcType (S.ns ++ "/" ++ S.name)) :
      NamedShare agent src dst ⟨.known, pairKey P S .svcToPod, true⟩

/-- A share of one end goes to the key of the name at its address. -/
theorem namedShare_of_mem_endpointShares {agent : Index} {src dst ip : String} {swapped : Bool}
    {a : EndpointName} {sh : Share} (ha : Resolves agent ip a)
    (hnot : ¬ (agent.isPod ip = true ∧ agent.isSvc ip = true))
    (hip : (if swapped then dst else src) = ip) (h : sh ∈ endpointShares agent ip swapped) :
    NamedShare agent src dst sh := by
  rw [mem_endpointShares, Index.endpointKey, ha.endpoint_eq, ha.isPod_eq hnot, ha.isSvc_eq] at h
  subst hip
  cases ha with
  | pod P hpod hsvc =>
      rcases h with ⟨-, rfl⟩ | ⟨hfalse, -⟩
      · exact .pod P swapped hpod
      · cases hfalse
  | svc S hsvc hscope =>
      rcases h with ⟨hfalse, -⟩ | ⟨-, rfl⟩
      · cases hfalse
      · exact .svc S swapped hsvc hscope
  | outside plain hpod hsvc =>
      rcases h with ⟨hfalse, -⟩ | ⟨hfalse, -⟩
      · cases hfalse
      · cases hfalse

/-- **Every share of a flow goes to a key made of the names at its addresses.** -/
theorem namedShare_of_mem {agent : Index} (hnamed : agent.Named) {K : InetV4Flow} {sh : Share}
    (h : sh ∈ flowShares agent K) : NamedShare agent (getSrcIp K) (getDstIp K) sh := by
  obtain ⟨hsrc, hdst⟩ := not_both_of_mem_flowShares h
  obtain ⟨a, ha⟩ := exists_resolves hnamed (plain_getSrcIp K)
  obtain ⟨b, hb⟩ := exists_resolves hnamed (plain_getDstIp K)
  rw [flowShares_eq_of_not_both hsrc hdst] at h
  rcases List.mem_append.mp h with h | h
  · rcases List.mem_append.mp h with h | h
    · exact namedShare_of_mem_endpointShares ha hsrc rfl h
    · exact namedShare_of_mem_endpointShares hb hdst rfl h
  · split_ifs at h with hmixed
    · obtain rfl := List.mem_singleton.mp h
      rw [Index.pairKey, ha.endpoint_eq, hb.endpoint_eq]
      rw [Index.mixed, ha.isPod_eq hsrc, ha.isSvc_eq, hb.isPod_eq hdst, hb.isSvc_eq] at hmixed
      cases ha with
      | pod P hpod hsvc =>
          cases hb with
          | svc S hsvc' hscope => exact .podToSvc P S hpod hsvc' hscope
          | pod P' hpod' hsvc' => cases hmixed
          | outside plain hpod' hsvc' => cases hmixed
      | svc S hsvc hscope =>
          cases hb with
          | pod P hpod' hsvc' => exact .svcToPod P S hpod' hsvc hscope
          | svc S' hsvc' hscope' => cases hmixed
          | outside plain hpod' hsvc' => cases hmixed
      | outside plain hpod hsvc =>
          cases hb <;> cases hmixed
    · exact absurd h List.not_mem_nil

/-! ## The labels of a key -/

/-- The labels a table's series are set under. -/
def Table.labels : Table → PromMetricsKey → List (String × String)
  | .pod => PromMetricsKey.podLabels
  | .svc => PromMetricsKey.svcLabels
  | .known => fun key => key.podLabels ++ key.svcLabels

/-- The keys a table gets when names have no slashes. -/
inductive Keyed : Table → PodStatsKey → Prop
  | pod (P : PodName) : Keyed .pod ⟨(P.endpoint, "")⟩
  | svc (S : SvcName) : Keyed .svc ⟨(S.endpoint, "")⟩
  | known (P : PodName) (S : SvcName) (o : Orientation) : Keyed .known (pairKey P S o)

theorem NamedShare.keyed {agent : Index} {src dst : String} {sh : Share}
    (h : NamedShare agent src dst sh) : Keyed sh.table sh.key := by
  cases h with
  | pod P swapped hpod => exact .pod P
  | svc S swapped hsvc hscope => exact .svc S
  | podToSvc P S hpod hsvc hscope => exact .known P S .podToSvc
  | svcToPod P S hpod hsvc hscope => exact .known P S .svcToPod

/-- **A pod's or a service's labels are its own.** -/
theorem labels_injective {T : Table} {key key' : PodStatsKey} (hT : T ≠ .known)
    (h : Keyed T key) (h' : Keyed T key')
    (heq : T.labels key.toPromMetricsKey = T.labels key'.toPromMetricsKey) : key = key' := by
  cases h with
  | pod P =>
      cases h' with
      | pod P' =>
          rw [toPromMetricsKey_pod, toPromMetricsKey_pod] at heq
          simp only [Table.labels, PromMetricsKey.podLabels, List.cons.injEq, Prod.mk.injEq,
            true_and, and_true] at heq
          rw [PodName.endpoint, PodName.endpoint, heq.1, heq.2]
  | svc S =>
      cases h' with
      | svc S' =>
          rw [toPromMetricsKey_svc, toPromMetricsKey_svc] at heq
          simp only [Table.labels, PromMetricsKey.svcLabels, List.cons.injEq, Prod.mk.injEq,
            true_and, and_true] at heq
          rw [SvcName.endpoint, SvcName.endpoint, heq.1, heq.2.1, heq.2.2]
  | known P S o => exact absurd rfl hT

/-! ## The series of a key -/

/-- The gauge family of a table. -/
def Table.subsystem : Table → String
  | .pod => "pod_stats"
  | .svc => "svc_stats"
  | .known => "pod_svc_stats"

/-- The gauges of the family. -/
def Table.gaugeNames : Table → List String
  | .pod => podPromMetrics
  | .svc => svcPromMetrics
  | .known => podSvcPromMetrics

section SetGauge

variable {T : Table} {key : PodStatsKey}

/-- A pod's or a service's own key is published with its counters as they are. -/
theorem setGauge_keyed (hT : T ≠ .known) (h : Keyed T key) (stats : FlowStats) (gauges : Gauges) :
    T.setGauge key.toPromMetricsKey stats gauges
      = setGauges T.subsystem T.gaugeNames (T.labels key.toPromMetricsKey) (gaugeValues stats)
          gauges := by
  cases h with
  | pod P => rw [toPromMetricsKey_pod]; rfl
  | svc S => rw [toPromMetricsKey_svc]; rfl
  | known P S o => exact absurd rfl hT

/-- Publishing a key leaves the series of other families and of other labels. -/
theorem lookup_setGauge_of_ne {ser : Series}
    (h : ¬ (ser.subsystem = T.subsystem ∧ ser.labels = T.labels key.toPromMetricsKey))
    (stats : FlowStats) (gauges : Gauges) :
    (T.setGauge key.toPromMetricsKey stats gauges).lookup ser = gauges.lookup ser := by
  cases T with
  | pod =>
      dsimp only [Table.setGauge]
      unfold setPodGauge
      split_ifs
      · rfl
      · exact lookup_setGauges_of_ne h gauges
  | svc =>
      dsimp only [Table.setGauge]
      unfold setSvcGauge
      split_ifs
      · rfl
      · exact lookup_setGauges_of_ne h gauges
  | known =>
      dsimp only [Table.setGauge]
      unfold setPodSvcGauge
      split_ifs
      · exact lookup_setGauges_of_ne h gauges
      · rfl
      · exact lookup_setGauges_of_ne h gauges

theorem subsystem_injective {T' : Table} (h : T.subsystem = T'.subsystem) : T = T' := by
  cases T <;> cases T' <;> first | rfl | exact absurd h (by decide)

theorem nodup_gaugeNames (T : Table) : T.gaugeNames.Nodup := by cases T <;> decide

theorem length_gaugeNames (T : Table) (stats : FlowStats) :
    T.gaugeNames.length = (gaugeValues stats).length := by
  cases T <;> rfl

/-- The gauges set are the four of the family. -/
theorem map_fst_gaugeNames (T : Table) (stats : FlowStats) :
    (T.gaugeNames.zip (gaugeValues stats)).map Prod.fst = T.gaugeNames :=
  List.map_fst_zip (Nat.le_of_eq (length_gaugeNames T stats))

end SetGauge

/-! ## The labels are those of the addresses -/

/-- The end of a flow where the pod of a pair is. -/
def Orientation.podAddr (o : Orientation) (src dst : String) : String :=
  match o with
  | .podToSvc => src
  | .svcToPod => dst

/-- The other one. -/
def Orientation.svcAddr (o : Orientation) (src dst : String) : String :=
  match o with
  | .podToSvc => dst
  | .svcToPod => src

/-- The metric a pair is published as. -/
def Orientation.metricName : Orientation → MetricName
  | .podToSvc => .podSvcStats
  | .svcToPod => .svcPodStats

/-- The name the pod index has for an address, taken apart. -/
def Index.PodAt (agent : Index) (ip : String) (P : PodName) : Prop :=
  agent.podIpToName.lookup ip = some P.endpoint

/-- The name the service index has for an address, taken apart, and the service's type. -/
def Index.SvcAt (agent : Index) (ip : String) (S : SvcName) : Prop :=
  agent.svcIpToName.lookup ip = some (S.ns ++ "/" ++ S.name) ∧
    S.scope = agent.svcType (S.ns ++ "/" ++ S.name)

/-- The key of a share is published under its table's metric, and in the first slots are the
parts that were joined for the address: the source's, or the destination's where the share is
swapped. -/
def Share.Labelled (agent : Index) (src dst : String) (sh : Share) : Prop :=
  let key := sh.key.toPromMetricsKey
  let ip := if sh.swapped then dst else src
  match sh.table with
  | .pod =>
    key.metricName = .podStats ∧ ∃ P, agent.PodAt ip P ∧
      key.podNamespace.1 = P.ns ∧ key.podName.1 = P.name
  | .svc =>
    key.metricName = .svcStats ∧ ∃ S, agent.SvcAt ip S ∧
      key.svcNamespace.1 = S.ns ∧ key.svcName.1 = S.name ∧ key.svcScope.1 = S.scope
  | .known =>
    ∃ o : Orientation, key.metricName = o.metricName ∧
      ∃ P S, agent.PodAt (o.podAddr src dst) P ∧ agent.SvcAt (o.svcAddr src dst) S ∧
        key.podNamespace.1 = P.ns ∧ key.podName.1 = P.name ∧
        key.svcNamespace.1 = S.ns ∧ key.svcName.1 = S.name ∧ key.svcScope.1 = S.scope

theorem NamedShare.labelled {agent : Index} {src dst : String} {sh : Share}
    (h : NamedShare agent src dst sh) : sh.Labelled agent src dst := by
  unfold Share.Labelled
  cases h with
  | pod P swapped hpod =>
      dsimp only
      rw [toPromMetricsKey_pod]
      exact ⟨rfl, P, hpod, rfl, rfl⟩
  | svc S swapped hsvc hscope =>
      dsimp only
      rw [toPromMetricsKey_svc]
      exact ⟨rfl, S, ⟨hsvc, hscope⟩, rfl, rfl, rfl⟩
  | podToSvc P S hpod hsvc hscope =>
      dsimp only
      rw [toPromMetricsKey_pair]
      exact ⟨.podToSvc, rfl, P, S, hpod, ⟨hsvc, hscope⟩, rfl, rfl, rfl, rfl, rfl⟩
  | svcToPod P S hpod hsvc hscope =>
      dsimp only
      rw [toPromMetricsKey_pair]
      exact ⟨.svcToPod, rfl, P, S, hpod, ⟨hsvc, hscope⟩, rfl, rfl, rfl, rfl, rfl⟩

/--
**The kinds read back from a key are the kinds it was made from.**

For any indexes whose names have no slashes in their parts and share no address,
and any flow: splitting the key finds the type `getPodStatsKey` returned; each
key that is published is published as what it is, under the parts its endpoints
were joined from; and two pod keys, or two service keys, with the same labels are
the same key, even where the indexes have changed in between.
-/
theorem endpoint_kinds_agree (agent : Index) (hnamed : agent.Named) (hshared : agent.NoSharedIp)
    (K : InetV4Flow) :
    (getPodStatsKey agent K).1.splitKeyType = (getPodStatsKey agent K).2 ∧
    (∀ sh ∈ flowShares agent K, sh.Labelled agent (getSrcIp K) (getDstIp K)) ∧
    (∀ agent' : Index, agent'.Named → ∀ K' : InetV4Flow,
      ∀ sh ∈ flowShares agent K, ∀ sh' ∈ flowShares agent' K', sh.table = sh'.table →
        sh.table ≠ .known → sh.key ≠ sh'.key →
        sh.table.labels sh.key.toPromMetricsKey ≠ sh.table.labels sh'.key.toPromMetricsKey) := by
  obtain ⟨a, ha⟩ := exists_resolves hnamed (plain_getSrcIp K)
  obtain ⟨b, hb⟩ := exists_resolves hnamed (plain_getDstIp K)
  refine ⟨?_, fun sh hsh => (namedShare_of_mem hnamed hsh).labelled, ?_⟩
  · rw [getPodStatsKey_eq]
    dsimp only [Index.keyType]
    rw [ha.endpoint_eq, hb.endpoint_eq, splitKeyType_eq, ha.isPod_eq (hshared.not_both _),
      hb.isPod_eq (hshared.not_both _), ha.isSvc_eq, hb.isSvc_eq]
  · intro agent' hnamed' K' sh hsh sh' hsh' hT hknown hne heq
    have hkeyed' := (namedShare_of_mem hnamed' hsh').keyed
    rw [← hT] at hkeyed'
    exact hne (labels_injective hknown (namedShare_of_mem hnamed hsh).keyed hkeyed' heq)

theorem named_clientIndex : clientIndex.Named where
  pods := by
    intro ip v h
    by_cases hip : ip = "10.244.0.5"
    · subst hip
      rw [clientIndex, Finmap.lookup_singleton_eq] at h
      exact ⟨clientPod, (Option.some.inj h).symm⟩
    · have hmem : ip ∈ clientIndex.podIpToName := Finmap.mem_of_lookup_eq_some h
      exact absurd ((Finmap.mem_singleton _ _ _).mp hmem) hip
  services := by
    intro ip v h
    by_cases hip : ip = "10.96.0.10"
    · subst hip
      rw [clientIndex, Finmap.lookup_singleton_eq] at h
      obtain rfl := Option.some.inj h
      exact ⟨dnsService, by decide, by decide⟩
    · have hmem : ip ∈ clientIndex.svcIpToName := Finmap.mem_of_lookup_eq_some h
      exact absurd ((Finmap.mem_singleton _ _ _).mp hmem) hip

/-- The name server's answer to the pod. -/
theorem endpoint_kinds_agree_answer :
    (getPodStatsKey clientIndex answerFlow).1.splitKeyType = fromSvcKey ||| toPodKey :=
  (endpoint_kinds_agree clientIndex named_clientIndex (by decide) answerFlow).1.trans (by decide)

end Kubpf.Agent
