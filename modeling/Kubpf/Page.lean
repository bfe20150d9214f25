import Kubpf.Ledger
import Kubpf.PodTotals
import Kubpf.Agent.Registry

/-!
# From the wire to the page

The stages put together: packets are counted in the kernel maps, scans take them
into the aggregates, the aggregates are published by calls of the Prometheus
client, which are rounded on the way. What `/metrics` shows of a pod or a service
is the account of `Ledger`, except that an eviction, which closes the account,
leaves the page.

For a pod without a local peer, one scan after any packets puts on the page what
the pod sent and what it received.
-/

namespace Kubpf

open Lib Kernel Agent

/-! ## What the page says -/

/-- What the page has for an aggregate, from the steps taken, newest first: the account when a
scan last added to it. -/
def lastShown (T : Table) (k : PodStatsKey) : List (World × Label) → Option FlowStats
  | [] => none
  | (w, .scan _) :: past =>
    if Touched w T k then some ((account T k past).getD 0 + newTraffic w T k)
    else lastShown T k past
  | (_, .evict _ _ _) :: past | (_, .packet _ _) :: past | (_, .informer _) :: past =>
    lastShown T k past

/-- **An open account is on the page.** -/
theorem lastShown_of_account {T : Table} {k : PodStatsKey} {past : List (World × Label)}
    {v : FlowStats} (h : account T k past = some v) : lastShown T k past = some v := by
  induction past with
  | nil => cases h
  | cons wl past ih =>
      obtain ⟨w, l⟩ := wl
      cases l with
      | packet skb dir => exact ih h
      | informer index => exact ih h
      | scan input =>
          rw [account] at h
          rw [lastShown]
          split_ifs at h ⊢
          · exact h
          · exact ih h
      | evict n openErr failing =>
          cases openErr with
          | true => exact ih h
          | false =>
              rw [account] at h
              split_ifs at h
              exact ih h

/-- The indexes the informers bring have names without slashes in their parts. -/
def Label.Named : Label → Prop
  | .informer index => index.Named
  | _ => True

/-- The calls of `SetPodGauge`, `SetSvcGauge` and `SetPodSvcGauge` made in these steps, oldest first:
those of the scans. -/
def gaugeCalls : List (World × Label) → List GaugeCall
  | [] => []
  | (w, .scan input) :: past =>
    gaugeCalls past ++ scanFlowsCalls input.t input.reports
      { metric := w.agent.metric, toDeleteList := [], trace := w.agent.trace }
  | (_, .evict _ _ _) :: past | (_, .packet _ _) :: past | (_, .informer _) :: past =>
    gaugeCalls past

/-- The tables keep the account, the series mirror the page, and are what the calls have set. -/
structure Paged (s : World × List (World × Label)) : Prop where
  balanced : Balanced s
  named : s.1.agent.metric.agent.toIndex.Named
  mirrors : Mirrors (fun T k => lastShown T k s.2) s.1.agent.metric.agent.gauges
  calls : s.1.agent.metric.agent.gauges = gaugesAfter (gaugeCalls s.2)

theorem paged_fresh (maps : FlowMaps) {index : Index} (h : index.Named) :
    Paged ({ maps := maps, agent := freshAgent index }, []) where
  balanced := balanced_fresh maps index
  named := h
  mirrors := mirrors_init
  calls := rfl

section Step

variable {w : World} {past : List (World × Label)}

/-- What the tables hold is on the page. -/
theorem Paged.covers (h : Paged (w, past)) :
    History.Covers (fun T k => lastShown T k past) w.agent.metric := by
  intro T k e he
  refine lastShown_of_account ?_
  rw [← h.balanced T k]
  dsimp only
  rw [he]
  rfl

/-- **A scan brings the page up to date.** -/
theorem noting_scanned (h : Paged (w, past)) {input : ScanInput}
    (hreads : ReadsMap w.maps.v4FlowMap input.reports)
    (horder : input.OrdersOf (w.agent.scanned input).metric) :
    History.noting (fun T k => lastShown T k past) (finishScan input (w.agent.scanned input)).1
      = fun T k => lastShown T k ((w, .scan input) :: past) := by
  funext T k
  have hcovers := h.covers T k
  unfold History.noting
  rw [stats_scanned hreads horder, lastShown, ← h.balanced T k]
  split_ifs
  · rfl
  · cases hval : (w.agent.metric.table T).val k with
    | none => rfl
    | some e => exact (hcovers e hval).symm

theorem paged_scan (h : Paged (w, past)) {input : ScanInput}
    (hreads : ReadsMap w.maps.v4FlowMap input.reports)
    (horder : input.OrdersOf (w.agent.scanned input).metric) :
    Mirrors (fun T k => lastShown T k ((w, .scan input) :: past))
      (finishScan input (w.agent.scanned input)).1.agent.gauges := by
  have hbefore : Mirrors (History.noting (fun T k => lastShown T k past) w.agent.metric)
      w.agent.metric.agent.gauges := by
    rw [History.noting_of_covers h.covers]
    exact h.mirrors
  have hscan : Mirrors
      (History.noting (fun T k => lastShown T k past) (w.agent.scanned input).metric)
      (w.agent.scanned input).metric.agent.gauges := Mirrors.scanFlows h.named hbefore
  -- aging leaves the counters alone
  have hsame : History.noting (fun T k => lastShown T k past)
      (finishScan input (w.agent.scanned input)).1
        = History.noting (fun T k => lastShown T k past) (w.agent.scanned input).metric := by
    refine History.noting_congr fun T k => ?_
    rw [val_finishScan horder, Option.map_map]
    exact congrArg (Option.map · _) (funext (FlowStatsEntry.stats_aged input.t))
  rw [← noting_scanned h hreads horder, hsame]
  exact hscan

end Step

theorem paged_step {s s' : World × List (World × Label)} {l : Label} (h : Paged s)
    (hl : l.Named) (hs : recording World.step s l = some s') : Paged s' := by
  have hbalanced := balanced_step h.balanced hs
  obtain ⟨w, past⟩ := s
  obtain ⟨w', hstep, rfl⟩ := recording_eq_some.mp hs
  cases World.step_inv hstep with
  | packet skb dir => exact ⟨hbalanced, h.named, h.mirrors, h.calls⟩
  | scan input hreads horder =>
      have hindex : (w.agent.scanned input).metric.agent.toIndex = w.agent.metric.agent.toIndex :=
        scanFlows_inv (I := fun s => s.metric.agent.toIndex = w.agent.metric.agent.toIndex)
          (fun _ _ _ _ hI hobs => hobs.merges.1.trans hI) rfl
      refine ⟨hbalanced, hindex ▸ h.named, paged_scan h hreads horder, ?_⟩
      rw [gaugeCalls, gaugesAfter, List.foldl_append, ← gaugesAfter, ← h.calls]
      exact gauges_scanFlows ..
  | evictFails n failing ev hev => exact ⟨hbalanced, h.named, h.mirrors, h.calls⟩
  | evict n failing ev hev => exact ⟨hbalanced, h.named, h.mirrors, h.calls⟩
  | informer index => exact ⟨hbalanced, hl, h.mirrors, h.calls⟩

/-! ## What the client makes of it -/

/-- The labels of a pod's or a service's samples: the parts of its name. -/
inductive SampledAs : Table → PodStatsKey → Labels → Prop
  | pod (P : PodName) :
      SampledAs .pod ⟨(P.endpoint, "")⟩ (labelsOf [("pod_namespace", P.ns), ("pod_name", P.name)])
  | svc (S : SvcName) :
      SampledAs .svc ⟨(S.endpoint, "")⟩
        (labelsOf [("svc_namespace", S.ns), ("svc_scope", S.scope), ("svc_name", S.name)])

theorem sampledAs_iff {T : Table} (hT : T ≠ .known) {key : PodStatsKey} {labels : Labels} :
    SampledAs T key labels ↔ Keyed T key ∧ labels = labelsOf (T.labels key.toPromMetricsKey) := by
  constructor
  · intro h
    cases h with
    | pod P => exact ⟨.pod P, by rw [toPromMetricsKey_pod]; rfl⟩
    | svc S => exact ⟨.svc S, by rw [toPromMetricsKey_svc]; rfl⟩
  · rintro ⟨h, rfl⟩
    cases h with
    | pod P => rw [toPromMetricsKey_pod]; exact .pod P
    | svc S => rw [toPromMetricsKey_svc]; exact .svc S
    | known P S o => exact absurd rfl hT

/-- Gauges that show some values show each its own. -/
theorem lookup_of_published {gauges : Gauges} {sub : String} {names : List String}
    {labels : List (String × String)} {values : List UInt64}
    (h : published gauges sub names labels = values.map some) {name : String}
    (hname : name ∈ names) (value : UInt64) :
    gauges.lookup ⟨sub, name, labels⟩ = some value ↔ (name, value) ∈ names.zip values := by
  have hlookup : ∀ i (hi : i < names.length) (hi' : i < values.length),
      gauges.lookup ⟨sub, names[i], labels⟩ = some values[i] := by
    intro i hi hi'
    have hget := congrArg (·[i]?) h
    simpa [published, hi, hi'] using hget
  have hlen : names.length = values.length := by
    have hlen := congrArg List.length h
    simpa [published] using hlen
  constructor
  · intro hval
    obtain ⟨i, hi, rfl⟩ := List.getElem_of_mem hname
    have hi' : i < values.length := hlen ▸ hi
    rw [hlookup i hi hi'] at hval
    rw [← Option.some.inj hval, List.mem_iff_getElem]
    exact ⟨i, by rw [List.length_zip]; omega, List.getElem_zip⟩
  · intro hmem
    obtain ⟨i, hi, heq⟩ := List.getElem_of_mem hmem
    rw [List.length_zip] at hi
    rw [List.getElem_zip] at heq
    obtain ⟨rfl, rfl⟩ := Prod.mk.inj heq
    exact hlookup i (by omega) (by omega)

section Client

variable {client : PromClient Nat}

/-- **The samples of pods and services are those of the page.** -/
theorem Paged.gathers_iff {s : World × List (World × Label)} (h : Paged s)
    (hdoc : client.Documented) {prom : Prom client}
    (hprom : KeepsUp prom s.1.agent.metric.agent.gauges) {T : Table} (hT : T ≠ .known)
    {name : String} (hname : name ∈ T.gaugeNames) (labels : Labels) (x : Nat) :
    ⟨T.fqName client name, labels, x⟩ ∈ client.gather prom.state ↔
      ∃ key v value, SampledAs T key labels ∧ lastShown T key s.2 = some v ∧
        (name, value) ∈ T.gaugeNames.zip (gaugeValues v) ∧ x = float64 value := by
  -- what is shown for a key whose gauges are set
  have hgauge : ∀ key v, Keyed T key → lastShown T key s.2 = some v → ∀ value,
      s.1.agent.metric.agent.gauges.lookup ⟨T.subsystem, name, T.labels key.toPromMetricsKey⟩
        = some value ↔ (name, value) ∈ T.gaugeNames.zip (gaugeValues v) := by
    intro key v hkey hv value
    have hshown := h.mirrors.shown T hT key hkey
    rw [hv] at hshown
    exact lookup_of_published hshown hname value
  rw [hprom.gathers_iff hdoc hname]
  constructor
  · rintro ⟨promKey, value, hvalue, hlabels, rfl⟩
    obtain ⟨-, key, hkey, hsame⟩ := h.mirrors.only T hT _ rfl (Option.isSome_of_eq_some hvalue)
    obtain ⟨v, hv⟩ := Option.isSome_iff_exists.mp hkey
    have hkeyed := h.mirrors.keyed T key hkey
    dsimp only at hsame hv
    rw [hsame, hgauge key v hkeyed hv value] at hvalue
    exact ⟨key, v, value, (sampledAs_iff hT).mpr ⟨hkeyed, hsame ▸ hlabels⟩, hv, hvalue, rfl⟩
  · rintro ⟨key, v, value, hlabels, hv, hmem, rfl⟩
    obtain ⟨hkeyed, rfl⟩ := (sampledAs_iff hT).mp hlabels
    exact ⟨key.toPromMetricsKey, value, (hgauge key v hkeyed hv value).mpr hmem, rfl, rfl⟩

/-- What the client gathers after the calls of a run is on the page. -/
theorem Paged.published {s : World × List (World × Label)} (h : Paged s) (hdoc : client.Documented)
    {state : client.State} (hfree : NamesFree client state) {prom : Prom client}
    (hprom : Published client state (gaugeCalls s.2) prom) :
    KeepsUp prom s.1.agent.metric.agent.gauges := by
  rw [h.calls]
  exact hprom.keepsUp hdoc hfree

end Client

theorem paged_run {maps : FlowMaps} {index : Index} (hindex : index.Named) {ls : List Label}
    (hls : ∀ l ∈ ls, l.Named) {s : World × List (World × Label)}
    (hrun : run (recording World.step) ({ maps := maps, agent := freshAgent index }, []) ls
      = some s) : Paged s :=
  run_inv_along (fun _ _ _ h hl hs => paged_step h hl hs) (paged_fresh maps hindex)
    (along_of_forall hls _) hrun

/--
**`/metrics` shows pods and services what their accounts came to.**

In every run of packets, scans, evictions and informer updates with indexes of
plain names, from any contents of the kernel maps and a new agent, with a client
that does what its documentation says: none of the calls the run makes of the
setters panics, and the samples gathered then under a gauge's name for pods or
services are exactly those of the aggregates some scan has added to, labelled with
the parts of the pod's or service's name, each with the counter the account had
after the last such scan, as a `float64`.
-/
theorem page_shows_account (client : PromClient Nat) (hdoc : client.Documented)
    (state : client.State) (hfree : NamesFree client state) (maps : FlowMaps) (index : Index)
    (hindex : index.Named) (ls : List Label) (hls : ∀ l ∈ ls, l.Named) (w : World)
    (past : List (World × Label))
    (hrun : run (recording World.step) ({ maps := maps, agent := freshAgent index }, []) ls
      = some (w, past)) :
    NeverPanics client state (gaugeCalls past) ∧
    ∀ prom, Published client state (gaugeCalls past) prom →
      ∀ T, T ≠ .known → ∀ name ∈ T.gaugeNames, ∀ labels x,
        ⟨T.fqName client name, labels, x⟩ ∈ client.gather prom.state ↔
          ∃ key v value, SampledAs T key labels ∧ lastShown T key past = some v ∧
            (name, value) ∈ T.gaugeNames.zip (gaugeValues v) ∧ x = float64 value := by
  refine ⟨neverPanics hdoc hfree _, fun prom hprom T hT name hname labels x => ?_⟩
  have hend : Paged (w, past) := paged_run hindex hls hrun
  exact hend.gathers_iff hdoc (hend.published hdoc hfree hprom) hT hname labels x

theorem page_shows_account_answers :
    ∃ w past prom,
      run (recording World.step) (World.init clientIndex, []) twoAnswers = some (w, past) ∧
      Published (tableClient Nat) goRegistry (gaugeCalls past) prom ∧
      ⟨"statsagent_pod_stats_pod_rx_bytes",
        labelsOf [("pod_namespace", "default"), ("pod_name", "client")], 92⟩
          ∈ (tableClient Nat).gather prom.state := by
  have hsome : (run (recording World.step) (World.init clientIndex, []) twoAnswers).isSome := by
    decide +kernel
  obtain ⟨⟨w, past⟩, hrun⟩ := Option.isSome_iff_exists.mp hsome
  have hlast : (run (recording World.step) (World.init clientIndex, []) twoAnswers).map
      (fun s => lastShown .pod ⟨(clientPod.endpoint, "")⟩ s.2) = some (some ⟨0, 0, 92, 1⟩) := by
    decide +kernel
  rw [hrun] at hlast
  have hnamed : ∀ l ∈ twoAnswers, l.Named := by
    intro l hl
    simp only [twoAnswers, answerPacket, List.mem_cons, List.not_mem_nil, or_false] at hl
    rcases hl with rfl | rfl | rfl | rfl <;> trivial
  obtain ⟨hpanics, hshows⟩ := page_shows_account (tableClient Nat) (documented_tableClient Nat)
    goRegistry namesFree_goRegistry FlowMaps.empty clientIndex named_clientIndex twoAnswers hnamed
    w past hrun
  obtain ⟨prom, hprom⟩ := exists_published hpanics
  refine ⟨w, past, prom, hrun, hprom, ?_⟩
  have hname : Table.pod.fqName (tableClient Nat) "pod_rx_bytes"
      = "statsagent_pod_stats_pod_rx_bytes" := by decide +kernel
  rw [← hname]
  exact (hshows prom hprom .pod (by decide) "pod_rx_bytes" (by decide) _ 92).mpr
    ⟨_, _, 92, .pod clientPod, Option.some.inj hlast, by decide, by decide +kernel⟩

/-! ## One scan after the packets -/

/-- Without evictions the page and the account say the same. -/
theorem lastShown_eq_account {T : Table} {k : PodStatsKey} {past : List (World × Label)}
    (h : ∀ l ∈ past.map Prod.snd, ∀ n openErr failing, l ≠ .evict n openErr failing) :
    lastShown T k past = account T k past := by
  induction past with
  | nil => rfl
  | cons wl past ih =>
      obtain ⟨w, l⟩ := wl
      rw [List.map_cons, List.forall_mem_cons] at h
      have hrest := ih h.2
      cases l with
      | packet skb dir => exact hrest
      | informer index => exact hrest
      | scan input => rw [lastShown, account, hrest]
      | evict n openErr failing => exact absurd rfl (h.1 n openErr failing)

section OneScan

variable {index : Index} {pkts : List Pkt} {input : ScanInput} {ip : String} {P : PodName}

/-- A packet that names a pod makes the first scan add to the pod's entry. -/
theorem touched_of_packet (hindex : index.OneToOne) (hcounted : ∀ p ∈ pkts, CountedV4 p.1)
    (hroom : (keysOf CountedV4 v4Key pkts).card ≤ v4FlowMapSize)
    (hpod : index.podIpToName.lookup ip = some P.endpoint) {w : World}
    (hrun : run World.step (World.init index) (packetLabels pkts) = some w)
    (hnames : ∃ p ∈ pkts, headerSrc p.1 = ip ∨ headerDst p.1 = ip) :
    Touched w .pod ⟨(P.endpoint, "")⟩ := by
  obtain ⟨trace, htrace⟩ := run_packetLabels pkts (World.init index)
  obtain rfl := Option.some.inj (hrun.symm.trans htrace)
  obtain ⟨p, hp, hip⟩ := hnames
  have htracks := (readPackets_tracks (neverFull_of_room hcounted hroom)).v4
  have hmem : v4Key p.1 p.2 ∈ (readPackets pkts FlowMaps.empty).v4FlowMap.table.keys := by
    rw [htracks.keys, historyKeys, v4History_of_counted hcounted, List.map_map, List.mem_toFinset]
    exact List.mem_map.mpr ⟨p, hp, rfl⟩
  refine ⟨v4Key p.1 p.2, hmem, ?_, ?_⟩
  · -- a new agent knows no flow
    have hnone : (World.init index).agent.metric.baseMap.val (v4Key p.1 p.2) = none :=
      PtrMap.val_empty _
    obtain ⟨v, hv⟩ := Option.isSome_iff_exists.mp (BpfHash.mem_keys.mp hmem)
    show Option.map _ ((World.init index).agent.metric.baseMap.val _) ≠ _
    rw [hnone]
    exact fun h => Option.some_ne_none v (hv.symm.trans h.symm)
  · have hisPod : index.isPod ip = true := by rw [Index.isPod, hpod]; rfl
    have hkey : index.endpointKey ip = ⟨(P.endpoint, "")⟩ := by
      rw [Index.endpointKey, endpoint_of_pod hindex hpod]
    have hshare : ∀ swapped, ⟨.pod, ⟨(P.endpoint, "")⟩, swapped⟩ ∈ endpointShares index ip swapped :=
      fun swapped => mem_endpointShares.mpr (Or.inl ⟨hisPod, by rw [hkey]⟩)
    have hends : getSrcIp (v4Key p.1 p.2) = ip ∨ getDstIp (v4Key p.1 p.2) = ip := by
      rw [getSrcIp_v4Key, getDstIp_v4Key]
      cases p.2 with
      | ingress => exact hip
      | egress => exact hip.symm
    show ∃ sh ∈ flowShares index (v4Key p.1 p.2), _
    rw [flowShares_eq hindex.1]
    rcases hends with hsrc | hdst
    · refine ⟨⟨.pod, ⟨(P.endpoint, "")⟩, false⟩, ?_, rfl, rfl⟩
      rw [hsrc]
      exact List.mem_append_left _ (List.mem_append_left _ (hshare false))
    · refine ⟨⟨.pod, ⟨(P.endpoint, "")⟩, true⟩, ?_, rfl, rfl⟩
      rw [hdst]
      exact List.mem_append_left _ (List.mem_append_right _ (hshare true))

/-- **The page after the first scan** has the pod's totals, if any packet names the pod. -/
theorem lastShown_pod (hindex : index.OneToOne) (hcounted : ∀ p ∈ pkts, CountedV4 p.1)
    (hroom : (keysOf CountedV4 v4Key pkts).card ≤ v4FlowMapSize)
    (hpod : index.podIpToName.lookup ip = some P.endpoint) {w : World}
    {past : List (World × Label)}
    (hrun : run (recording World.step) (World.init index, [])
      (packetLabels pkts ++ [.scan input]) = some (w, past)) :
    (∀ v, lastShown .pod ⟨(P.endpoint, "")⟩ past = some v →
      v = FlowStatsOf.ofNat (podTotals ip pkts + peerTotals ip pkts)) ∧
    ((∃ p ∈ pkts, headerSrc p.1 = ip ∨ headerDst p.1 = ip) →
      (lastShown .pod ⟨(P.endpoint, "")⟩ past).isSome) := by
  have hplain := exists_run_recording.mp ⟨past, hrun⟩
  have hstats := statsOf_pod hindex hcounted hroom hplain hpod
  have hbalanced : Balanced (w, past) :=
    run_inv (fun _ _ _ h hs => balanced_step h hs) (balanced_fresh FlowMaps.empty index) hrun
  refine ⟨fun v hv => ?_, fun hnames => ?_⟩
  · -- nothing has been evicted, so the entry is there
    have hnone : ∀ l ∈ past.map Prod.snd, ∀ n openErr failing, l ≠ .evict n openErr failing := by
      intro l hl n openErr failing heq
      rw [labels_of_recording hrun, List.map_nil, List.append_nil, List.mem_reverse, heq] at hl
      rcases List.mem_append.mp hl with hl | hl
      · obtain ⟨p, -, hp⟩ := List.mem_map.mp hl
        cases hp
      · cases List.mem_singleton.mp hl
    rw [lastShown_eq_account hnone, ← hbalanced] at hv
    obtain ⟨e, he, rfl⟩ := Option.map_eq_some_iff.mp hv
    rw [← hstats, InetV4FlowMetricsEntry.statsOf, he]
    rfl
  · obtain ⟨s₁, hpackets, hlast⟩ := run_append_eq_some hrun
    obtain ⟨w₁, past₁⟩ := s₁
    obtain ⟨s₂, hscan, hnil⟩ := run_cons_eq_some hlast
    obtain ⟨w₂, -, rfl⟩ := recording_eq_some.mp hscan
    obtain ⟨-, rfl⟩ := Prod.mk.inj (Option.some.inj hnil)
    have htouched : Touched w₁ .pod ⟨(P.endpoint, "")⟩ :=
      touched_of_packet hindex hcounted hroom hpod (exists_run_recording.mp ⟨past₁, hpackets⟩)
        hnames
    dsimp only
    rw [lastShown, if_pos htouched]
    rfl

end OneScan

/-- A pod's labels are its own. -/
theorem key_of_sampledAs_pod {key : PodStatsKey} {P : PodName}
    (h : SampledAs .pod key (labelsOf [("pod_namespace", P.ns), ("pod_name", P.name)])) :
    key = ⟨(P.endpoint, "")⟩ := by
  generalize hlabels : labelsOf [("pod_namespace", P.ns), ("pod_name", P.name)] = labels at h
  cases h with
  | pod P' =>
      have hnd : ([("pod_namespace", P.ns), ("pod_name", P.name)].map Prod.fst).Nodup :=
        (by decide : ["pod_namespace", "pod_name"].Nodup)
      have hsame := labelsOf_inj hnd (by rfl) hlabels
      simp only [List.cons.injEq, Prod.mk.injEq, true_and, and_true] at hsame
      rw [PodName.endpoint, PodName.endpoint, hsame.1, hsame.2]

/-- What a sample of a counter shows: a `float64` nearest to it. -/
theorem nearest_float64 {value : UInt64} {n : Nat} (h : value.toNat = n) :
    Nearest 53 n (float64 value) ∧ (float64 value = n ↔ Representable 53 n) := by
  subst h
  exact ⟨nearest_roundEven (by decide) _, roundEven_eq_self (by decide)⟩

/-- The totals of a pod under the names of its gauges. -/
def podSamples (total : FlowStatsOf Nat) : List (String × Nat) :=
  [("statsagent_pod_stats_pod_tx_bytes", total.outBytes),
    ("statsagent_pod_stats_pod_tx_packets", total.outPackets),
    ("statsagent_pod_stats_pod_rx_bytes", total.inBytes),
    ("statsagent_pod_stats_pod_rx_packets", total.inPackets)]

/-- The names are those the gauges are registered under, and each has its own counter. -/
theorem gauge_of_podSamples {client : PromClient Nat} (hdoc : client.Documented) {v : FlowStats}
    {fqName : String} {n : Nat} (h : (fqName, n) ∈ podSamples v.toNat) :
    ∃ name ∈ podPromMetrics, fqName = Table.pod.fqName client name ∧
      ∃ value : UInt64, value.toNat = n ∧
        ∀ value', (name, value') ∈ podPromMetrics.zip (gaugeValues v) ↔ value' = value := by
  have hjoined : ∀ {name : String}, name ∈ podPromMetrics →
      Table.pod.fqName client name = "statsagent" ++ "_" ++ "pod_stats" ++ "_" ++ name :=
    fun hname => fqName_eq (T := .pod) hdoc hname
  rw [podSamples] at h
  simp only [List.mem_cons, List.not_mem_nil, or_false, Prod.mk.injEq] at h
  rcases h with ⟨rfl, rfl⟩ | ⟨rfl, rfl⟩ | ⟨rfl, rfl⟩ | ⟨rfl, rfl⟩
  · exact ⟨"pod_tx_bytes", by decide, by rw [hjoined (by decide)]; decide +kernel, v.outBytes, rfl,
      fun value' => by simp [podPromMetrics, gaugeValues]⟩
  · exact ⟨"pod_tx_packets", by decide, by rw [hjoined (by decide)]; decide +kernel, v.outPackets,
      rfl, fun value' => by simp [podPromMetrics, gaugeValues]⟩
  · exact ⟨"pod_rx_bytes", by decide, by rw [hjoined (by decide)]; decide +kernel, v.inBytes, rfl,
      fun value' => by simp [podPromMetrics, gaugeValues]⟩
  · exact ⟨"pod_rx_packets", by decide, by rw [hjoined (by decide)]; decide +kernel, v.inPackets,
      rfl, fun value' => by simp [podPromMetrics, gaugeValues]⟩

/--
**What is on the wire is on the page.**

Any IPv4 packets the program counts, in any order and on either side, from empty
maps with room for their keys; then one scan by a new agent whose indexes give
each address one name and each name one address, and know the pod's. If a packet
names the pod and its totals fit in 64 bits, its four samples are gathered for
`/metrics`, labelled with its namespace and name; and each shows a `float64`
nearest to what the pod sent or received, counted once for each side the traffic
was seen on, hence once if the pod has no local peer. The number is exact if 53
bits hold it.
-/
theorem page_shows_traffic (client : PromClient Nat) (hdoc : client.Documented)
    (state : client.State) (hfree : NamesFree client state) (index : Index) (hnamed : index.Named)
    (hindex : index.OneToOne) (pkts : List Pkt) (hcounted : ∀ p ∈ pkts, CountedV4 p.1)
    (hroom : (keysOf CountedV4 v4Key pkts).card ≤ v4FlowMapSize) (input : ScanInput) (w : World)
    (past : List (World × Label))
    (hrun : run (recording World.step) (World.init index, []) (packetLabels pkts ++ [.scan input])
      = some (w, past))
    (ip : String) (P : PodName) (hpod : index.podIpToName.lookup ip = some P.endpoint)
    (hfits : (podTotals ip pkts + peerTotals ip pkts).Fits) :
    NeverPanics client state (gaugeCalls past) ∧
    (∀ prom, Published client state (gaugeCalls past) prom →
      ∀ fqName total, (fqName, total) ∈ podSamples (podTotals ip pkts + peerTotals ip pkts) →
        (∀ x, ⟨fqName, labelsOf [("pod_namespace", P.ns), ("pod_name", P.name)], x⟩
            ∈ client.gather prom.state →
          Nearest 53 total x ∧ (x = total ↔ Representable 53 total)) ∧
        ((∃ p ∈ pkts, headerSrc p.1 = ip ∨ headerDst p.1 = ip) →
          ∃ x, ⟨fqName, labelsOf [("pod_namespace", P.ns), ("pod_name", P.name)], x⟩
            ∈ client.gather prom.state)) ∧
    (NoLocalPeer ip pkts → podTotals ip pkts + peerTotals ip pkts = podTotals ip pkts) := by
  refine ⟨neverPanics hdoc hfree _, fun prom hprom fqName total hmem => ?_,
    fun halone => by rw [peerTotals_eq_zero halone, add_zero]⟩
  have hlabels : ∀ l ∈ packetLabels pkts ++ [.scan input], l.Named := by
    intro l hl
    rcases List.mem_append.mp hl with hl | hl
    · obtain ⟨p, -, rfl⟩ := List.mem_map.mp hl
      trivial
    · rw [List.mem_singleton.mp hl]
      trivial
  have hend : Paged (w, past) := paged_run hnamed hlabels hrun
  obtain ⟨hvalue, hshown⟩ := lastShown_pod hindex hcounted hroom hpod hrun
  rw [← FlowStatsOf.toNat_ofNat hfits] at hmem
  obtain ⟨name, hname, rfl, value, rfl, hzip⟩ := gauge_of_podSamples hdoc hmem
  have hgathers := hend.gathers_iff hdoc (hend.published hdoc hfree hprom) (T := .pod) (by decide)
    hname (labelsOf [("pod_namespace", P.ns), ("pod_name", P.name)])
  refine ⟨fun x hx => ?_, fun hnames => ?_⟩
  · obtain ⟨key, v, value', hlabelled, hv, hmem', rfl⟩ := (hgathers x).mp hx
    obtain rfl := key_of_sampledAs_pod hlabelled
    obtain rfl := hvalue v hv
    obtain rfl := (hzip value').mp hmem'
    exact nearest_float64 rfl
  · obtain ⟨v, hv⟩ := Option.isSome_iff_exists.mp (hshown hnames)
    obtain rfl := hvalue v hv
    exact ⟨float64 value, (hgathers _).mpr ⟨_, _, value, .pod P, hv, (hzip value).mpr rfl, rfl⟩⟩

theorem page_shows_traffic_question :
    ∃ w past prom, run (recording World.step) (World.init clientIndex, [])
        (packetLabels questionAndAnswer ++ [.scan questionScan]) = some (w, past) ∧
      Published (tableClient Nat) goRegistry (gaugeCalls past) prom ∧
      ⟨"statsagent_pod_stats_pod_rx_bytes",
        labelsOf [("pod_namespace", "default"), ("pod_name", "client")], 92⟩
          ∈ (tableClient Nat).gather prom.state := by
  have hsome : (run (recording World.step) (World.init clientIndex, [])
      (packetLabels questionAndAnswer ++ [.scan questionScan])).isSome := by decide +kernel
  obtain ⟨⟨w, past⟩, hrun⟩ := Option.isSome_iff_exists.mp hsome
  obtain ⟨hpanics, hpage, -⟩ := page_shows_traffic (tableClient Nat) (documented_tableClient Nat)
    goRegistry namesFree_goRegistry clientIndex named_clientIndex (by decide) questionAndAnswer
    (by decide) (by decide) questionScan w past hrun "10.244.0.5" clientPod rfl
    (by unfold FlowStatsOf.Fits; decide)
  obtain ⟨prom, hprom⟩ := exists_published hpanics
  obtain ⟨hvalue, hshown⟩ := hpage prom hprom "statsagent_pod_stats_pod_rx_bytes" 92 (by decide)
  obtain ⟨x, hx⟩ := hshown (by decide)
  refine ⟨w, past, prom, hrun, hprom, ?_⟩
  have hexact : x = 92 := (hvalue x hx).2.mpr ⟨92, 0, by decide, rfl⟩
  rw [← hexact]
  exact hx

end Kubpf
