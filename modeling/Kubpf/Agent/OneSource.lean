import Kubpf.Agent.Labels
import Kubpf.Agent.Outlive

/-!
# One series, one source

The pair table has a key for each orientation of a pod and a service, while the
labels of a series say which pod and which service it is and not which way round.
So the two orientations of a pair are published under the same labels, each over
the other, and no other two keys are.

A pair has both orientations in the table as soon as flows of both are merged
while neither entry has been evicted. That is a condition on what a scan reads
and what the table holds before it.
-/

namespace Kubpf.Agent

open Lib

/-! ## Every string is an endpoint -/

/-- Any string is a pod's name, a service's name or neither, by its slashes. -/
theorem exists_endpointName (s : String) : ∃ a : EndpointName, a.text = s := by
  rcases exists_pieces '/' s.toList with h | ⟨p₀, p₁, hs, h₀, h₁⟩ | ⟨p₀, p₁, p₂, hs, h₀, h₁⟩
  · exact ⟨.outside s h, rfl⟩
  · refine ⟨.pod ⟨String.ofList p₀, String.ofList p₁, by simpa using h₀, by simpa using h₁⟩, ?_⟩
    rw [← String.toList_inj, hs]
    simp [EndpointName.text, PodName.endpoint]
  · refine ⟨.svc ⟨String.ofList p₀, String.ofList p₁, String.ofList p₂, by simpa using h₀,
      by simpa using h₁⟩, ?_⟩
    rw [← String.toList_inj, hs]
    simp [EndpointName.text, SvcName.endpoint]

theorem EndpointName.isPod_iff {a : EndpointName} : a.isPod = true ↔ ∃ P, a = .pod P := by
  cases a <;> simp [EndpointName.isPod]

theorem EndpointName.isSvc_iff {a : EndpointName} : a.isSvc = true ↔ ∃ S, a = .svc S := by
  cases a <;> simp [EndpointName.isSvc]

/-- `SetPodSvcGauge` sets gauges for the key. -/
def PodStatsKey.Published (key : PodStatsKey) : Prop :=
  key.toPromMetricsKey.metricName = .podSvcStats ∨ key.toPromMetricsKey.metricName = .svcPodStats

theorem published_pairKey (P : PodName) (S : SvcName) (o : Orientation) :
    (pairKey P S o).Published := by
  unfold PodStatsKey.Published
  rw [toPromMetricsKey_pair]
  cases o with
  | podToSvc => exact Or.inl rfl
  | svcToPod => exact Or.inr rfl

/-- **Only keys of a pod and a service are published.** -/
theorem PodStatsKey.Published.exists_pair {key : PodStatsKey} (h : key.Published) :
    ∃ P S o, key = pairKey P S o := by
  obtain ⟨⟨s₀, s₁⟩⟩ := key
  obtain ⟨a, rfl⟩ := exists_endpointName s₀
  obtain ⟨b, rfl⟩ := exists_endpointName s₁
  have hname : (⟨(a.text, b.text)⟩ : PodStatsKey).toPromMetricsKey.metricName
      = metricNameOf (keyTypeOf a.isPod b.isPod a.isSvc b.isSvc) :=
    congrArg metricNameOf (splitKeyType_eq a b)
  rw [PodStatsKey.Published, hname] at h
  -- of the sixteen types a key can have, two are published
  have htypes : ∀ p q r s : Bool, (metricNameOf (keyTypeOf p q r s) = .podSvcStats ∨
      metricNameOf (keyTypeOf p q r s) = .svcPodStats) → (p = true ∧ s = true) ∨
        (r = true ∧ q = true) := by
    decide
  rcases htypes _ _ _ _ h with ⟨ha, hb⟩ | ⟨ha, hb⟩
  · obtain ⟨P, rfl⟩ := EndpointName.isPod_iff.mp ha
    obtain ⟨S, rfl⟩ := EndpointName.isSvc_iff.mp hb
    exact ⟨P, S, .podToSvc, rfl⟩
  · obtain ⟨S, rfl⟩ := EndpointName.isSvc_iff.mp ha
    obtain ⟨P, rfl⟩ := EndpointName.isPod_iff.mp hb
    exact ⟨P, S, .svcToPod, rfl⟩

/-! ## Which keys share their labels -/

/-- The labels a pair's series are set under. -/
def PodStatsKey.pairLabels (key : PodStatsKey) : List (String × String) :=
  Table.known.labels key.toPromMetricsKey

theorem pairLabels_pairKey (P : PodName) (S : SvcName) (o : Orientation) :
    (pairKey P S o).pairLabels = pairLabels P S := by
  rw [PodStatsKey.pairLabels, toPromMetricsKey_pair]
  rfl

theorem swap_pairKey (P : PodName) (S : SvcName) :
    (pairKey P S .podToSvc).swap = pairKey P S .svcToPod ∧
      (pairKey P S .svcToPod).swap = pairKey P S .podToSvc := ⟨rfl, rfl⟩

theorem pairLabels_injective {P P' : PodName} {S S' : SvcName}
    (h : pairLabels P S = pairLabels P' S') : P.endpoint = P'.endpoint ∧ S.endpoint = S'.endpoint := by
  simp only [pairLabels, List.cons.injEq, Prod.mk.injEq, true_and, and_true] at h
  obtain ⟨hns, hname, hsns, hscope, hsname⟩ := h
  exact ⟨by rw [PodName.endpoint, PodName.endpoint, hns, hname],
    by rw [SvcName.endpoint, SvcName.endpoint, hsns, hscope, hsname]⟩

/-- **Two published keys have the same labels only if they are the two orientations of one
pair.** -/
theorem pairLabels_eq_iff {key key' : PodStatsKey} (h : key.Published) (h' : key'.Published)
    (hne : key ≠ key') : key.pairLabels = key'.pairLabels ↔ key' = key.swap := by
  obtain ⟨P, S, o, rfl⟩ := h.exists_pair
  obtain ⟨P', S', o', rfl⟩ := h'.exists_pair
  rw [pairLabels_pairKey, pairLabels_pairKey]
  refine ⟨fun heq => ?_, fun heq => ?_⟩
  · obtain ⟨hP, hS⟩ := pairLabels_injective heq
    cases o with
    | podToSvc =>
        cases o' with
        | podToSvc => exact absurd (by rw [pairKey, pairKey, hP, hS]) hne
        | svcToPod => rw [pairKey, pairKey, ← hP, ← hS, PodStatsKey.swap_mk]
    | svcToPod =>
        cases o' with
        | podToSvc => rw [pairKey, pairKey, ← hP, ← hS, PodStatsKey.swap_mk]
        | svcToPod => exact absurd (by rw [pairKey, pairKey, hP, hS]) hne
  · have hlabels : (pairKey P' S' o').pairLabels = (pairKey P S o).swap.pairLabels :=
      congrArg PodStatsKey.pairLabels heq
    rw [pairLabels_pairKey] at hlabels
    rw [hlabels]
    cases o with
    | podToSvc => rw [(swap_pairKey P S).1, pairLabels_pairKey]
    | svcToPod => rw [(swap_pairKey P S).2, pairLabels_pairKey]

theorem PodStatsKey.Published.swap {key : PodStatsKey} (h : key.Published) :
    key.swap.Published := by
  obtain ⟨P, S, o, rfl⟩ := h.exists_pair
  cases o with
  | podToSvc => exact published_pairKey P S .svcToPod
  | svcToPod => exact published_pairKey P S .podToSvc

/-- A pod's name has one slash, a service's two. -/
theorem PodStatsKey.Published.swap_ne {key : PodStatsKey} (h : key.Published) : key.swap ≠ key := by
  obtain ⟨P, S, o, rfl⟩ := h.exists_pair
  have hne : P.endpoint ≠ S.endpoint := by
    intro heq
    have hsplit := congrArg (fun s : String => (splitN '/' 3 s.toList).length) heq
    simp [splitN_podEndpoint, splitN_svcEndpoint] at hsplit
  cases o with
  | podToSvc => exact fun heq => hne (Prod.mk.inj (PodStatsKey.mk.inj heq)).2
  | svcToPod => exact fun heq => hne (Prod.mk.inj (PodStatsKey.mk.inj heq)).1

/-! ## One source for each series -/

/-- No two published keys of the pair table share their labels, so that setting the gauges of one
leaves the series of the other. -/
def OneSource (metric : InetV4FlowMetricsEntry) : Prop :=
  ∀ key key', (metric.knownStatsMap.val key).isSome → (metric.knownStatsMap.val key').isSome →
    key ≠ key' → key.Published → key'.Published →
    key.pairLabels ≠ key'.pairLabels ∧
      ∀ stats gauges,
        published (setPodSvcGauge key.toPromMetricsKey stats gauges) "pod_svc_stats"
            podSvcPromMetrics key'.pairLabels
          = published gauges "pod_svc_stats" podSvcPromMetrics key'.pairLabels

theorem published_setPodSvcGauge_of_ne {key : PodStatsKey} {labels : List (String × String)}
    (hne : key.pairLabels ≠ labels) (stats : FlowStats) (gauges : Gauges) :
    published (setPodSvcGauge key.toPromMetricsKey stats gauges) "pod_svc_stats" podSvcPromMetrics
        labels
      = published gauges "pod_svc_stats" podSvcPromMetrics labels := by
  refine List.map_congr_left fun name _ => ?_
  let ser : Series := ⟨"pod_svc_stats", name, labels⟩
  have hother : ¬ (ser.subsystem = Table.known.subsystem ∧ ser.labels = key.pairLabels) :=
    fun h => hne h.2.symm
  exact lookup_setGauge_of_ne hother stats gauges

/-- **There is one source for each series exactly when no pair has both its orientations.** -/
theorem oneSource_iff {metric : InetV4FlowMetricsEntry} :
    OneSource metric ↔ ∀ key, key.Published → (metric.knownStatsMap.val key).isSome →
      (metric.knownStatsMap.val key.swap).isNone := by
  refine ⟨fun h key hpub hkey => ?_, fun h key key' hkey hkey' hne hpub hpub' => ?_⟩
  · rw [Option.isNone_iff_eq_none, ← Option.not_isSome_iff_eq_none]
    intro hswap
    have hlabels := (h key key.swap hkey hswap (Ne.symm hpub.swap_ne) hpub hpub.swap).1
    exact hlabels ((pairLabels_eq_iff hpub hpub.swap (Ne.symm hpub.swap_ne)).mpr rfl)
  · have hlabels : key.pairLabels ≠ key'.pairLabels := by
      rw [Ne, pairLabels_eq_iff hpub hpub' hne]
      rintro rfl
      have hnone := h key hpub hkey
      rw [Option.isNone_iff_eq_none] at hnone
      rw [hnone] at hkey'
      cases hkey'
    exact ⟨hlabels, published_setPodSvcGauge_of_ne hlabels⟩

/-! ## Which entries a scan makes -/

/-- The report is of a flow that is new, or whose counters have moved. -/
def Merges (metric : InetV4FlowMetricsEntry) (r : InetV4Flow × FlowStats) : Prop :=
  ∀ e, metric.baseMap.val r.1 = some e → e.stats ≠ r.2

/-- A flow that is merged has a share for the entry. -/
def Fed (metric : InetV4FlowMetricsEntry) (reports : List (InetV4Flow × FlowStats)) (T : Table)
    (k : PodStatsKey) : Prop :=
  ∃ r ∈ reports, Merges metric r ∧
    ∃ sh ∈ flowShares metric.agent.toIndex r.1, sh.table = T ∧ sh.key = k

theorem isSome_mergeStats {metric : InetV4FlowMetricsEntry} {keyType : Nat} {key : PodStatsKey}
    {stats : FlowStats} {t : Time} (T : Table) (k : PodStatsKey) :
    (((metric.mergeStats keyType key stats t).table T).val k).isSome
      ↔ ((metric.table T).val k).isSome ∨ ∃ sh ∈ shares keyType key, sh.table = T ∧ sh.key = k := by
  by_cases h : ∃ sh ∈ shares keyType key, sh.table = T ∧ sh.key = k
  · obtain ⟨e, he, -⟩ := @val_mergeStats_of_mem metric _ _ stats t T k h
    rw [he]
    exact iff_of_true rfl (Or.inr h)
  · rw [val_mergeStats_of_not_mem h, or_iff_left h]

section Scans

variable {t : Time} {s s' : Scan} {r : InetV4Flow × FlowStats}

/-- One report makes the entries it has shares for, if it is merged. -/
theorem Observation.isSome_iff (h : Observation t s r.1 r.2 s') (T : Table) (k : PodStatsKey) :
    ((s'.metric.table T).val k).isSome
      ↔ ((s.metric.table T).val k).isSome ∨ (Merges s.metric r ∧
        ∃ sh ∈ flowShares s.metric.agent.toIndex r.1, sh.table = T ∧ sh.key = k) := by
  cases h with
  | new b hnone _ =>
      have hmerges : Merges s.metric r := by
        intro e he
        rw [hnone] at he
        cases he
      rw [isSome_mergeStats, table_withBaseMap, and_iff_right hmerges]
      rfl
  | unchanged b e hval hsame _ =>
      rw [table_withBaseMap, or_iff_left]
      exact fun hmerges => hmerges.1 e hval hsame
  | changed b e hval hdiff _ =>
      have hmerges : Merges s.metric r := by
        intro e' he'
        rw [hval] at he'
        exact Option.some.inj he' ▸ hdiff
      rw [isSome_mergeStats, table_withBaseMap, and_iff_right hmerges]
      rfl

theorem Observation.index_eq (h : Observation t s r.1 r.2 s') :
    s'.metric.agent.toIndex = s.metric.agent.toIndex := h.merges.1

/-- A report of another flow changes nothing for this one; one of the same flow is what the next
is compared with. -/
theorem Observation.merges_iff (h : Observation t s r.1 r.2 s') (r' : InetV4Flow × FlowStats) :
    Merges s'.metric r' ↔ if r'.1 = r.1 then r.2 ≠ r'.2 else Merges s.metric r' := by
  obtain ⟨e, hb, he⟩ := h.stored
  unfold Merges
  rw [hb]
  split_ifs with hkey
  · rw [hkey, Function.update_self, ← he]
    exact ⟨fun hall => hall e rfl, fun hne e' he' => Option.some.inj he' ▸ hne⟩
  · rw [Function.update_of_ne hkey]

end Scans

/-- **A scan makes the entries that are fed**, and keeps those there are. -/
theorem isSome_scanFlows {t : Time} {reports : List (InetV4Flow × FlowStats)} {s : Scan}
    (T : Table) (k : PodStatsKey) :
    (((scanFlows t reports s).metric.table T).val k).isSome
      ↔ ((s.metric.table T).val k).isSome ∨ Fed s.metric reports T k := by
  induction reports generalizing s with
  | nil =>
      refine (or_iff_left ?_).symm
      rintro ⟨r, hr, -⟩
      exact List.not_mem_nil hr
  | cons r rs ih =>
      have hobs := scanFlow_observes t s r.1 r.2
      have hrest := @ih (scanFlow t s r.1 r.2)
      rw [hobs.isSome_iff, or_assoc] at hrest
      refine hrest.trans (or_congr_right ?_)
      unfold Fed
      rw [hobs.index_eq]
      simp only [List.mem_cons, exists_eq_or_imp]
      -- where the first report is merged its flow is fed, and where not it leaves no trace
      by_cases hfirst : Merges s.metric r ∧
          ∃ sh ∈ flowShares s.metric.agent.toIndex r.1, sh.table = T ∧ sh.key = k
      · exact iff_of_true (Or.inl hfirst) (Or.inl hfirst)
      · rw [or_iff_right hfirst, or_iff_right hfirst]
        refine exists_congr fun r' => and_congr_right fun _ => ?_
        by_cases hkey : r'.1 = r.1
        · refine and_congr_left fun hsh => ?_
          rw [hobs.merges_iff, if_pos hkey]
          have hnot : ¬ Merges s.metric r := fun hm => hfirst ⟨hm, hkey ▸ hsh⟩
          unfold Merges at hnot
          rw [not_forall] at hnot
          obtain ⟨e, hnot⟩ := hnot
          rw [Classical.not_imp, not_not] at hnot
          obtain ⟨hval, hsame⟩ := hnot
          refine ⟨fun hne e' he' => ?_, fun hall => hsame ▸ hall e (hkey ▸ hval)⟩
          rw [hkey, hval] at he'
          rw [← Option.some.inj he', hsame]
          exact hne
        · rw [hobs.merges_iff, if_neg hkey]

/-! ## Runs -/

/-- The scan will leave the entry of the pair: it is there, or it is fed. -/
def WillHold (w : AgentWorld) (input : ScanInput) (key : PodStatsKey) : Prop :=
  (w.metric.knownStatsMap.val key).isSome ∨ Fed w.metric input.reports .known key

/-- No scan leaves both orientations of a pair. -/
def OneWay (w : AgentWorld) : AgentLabel → Prop
  | .scan input => ∀ key, key.Published → WillHold w input key → ¬ WillHold w input key.swap
  | _ => True

theorem oneSource_step {w w' : AgentWorld} {l : AgentLabel} (h : OneSource w.metric)
    (hs : w.step l = some w') : OneSource w'.metric ↔ OneWay w l := by
  cases AgentWorld.step_inv hs with
  | scan input horder =>
      have hheld : ∀ key, (((finishScan input (w.scanned input)).1.knownStatsMap.val key).isSome
          ↔ WillHold w input key) := by
        intro key
        have hval := val_finishScan horder .known key
        have hscan := @isSome_scanFlows input.t input.reports
          { metric := w.metric, toDeleteList := [], trace := w.trace } .known key
        rw [show (finishScan input (w.scanned input)).1.knownStatsMap.val key = _ from hval,
          Option.isSome_map]
        exact hscan
      rw [oneSource_iff]
      refine forall_congr' fun key => imp_congr_right fun _ => ?_
      rw [hheld, Option.isNone_iff_eq_none, ← Option.not_isSome_iff_eq_none, hheld]
  | evictFails n ev hev => exact iff_of_true h trivial
  | evict n ev hev =>
      -- fewer entries than before
      have hkeep : ∀ key, ((evictEntries ev w.metric).knownStatsMap.val key).isSome →
          (w.metric.knownStatsMap.val key).isSome := by
        intro key hkey
        obtain ⟨e, he⟩ := Option.isSome_iff_exists.mp hkey
        have hleft := (table_evictEntries_eq_some (T := .known)).mp he
        exact Option.isSome_iff_exists.mpr ⟨e, hleft.2⟩
      exact iff_of_true (fun key key' hkey hkey' => h key key' (hkeep key hkey) (hkeep key' hkey'))
        trivial
  | informer index => exact iff_of_true h trivial

/--
**Every pair's series has one source all along exactly when no scan leaves both orientations.**

For any run of the agent, whatever the indexes are and however they change: no
two published keys of the pair table share their labels in any state reached if
and only if, at each scan, no pair has one orientation held or merged and the
other held or merged as well.
-/
theorem oneSource_run_iff (index : Index) (ls : List AgentLabel) (w : AgentWorld)
    (hrun : run AgentWorld.step (freshAgent index) ls = some w) :
    (∀ ls₁ w₁, ls₁ <+: ls → run AgentWorld.step (freshAgent index) ls₁ = some w₁ →
      OneSource w₁.metric) ↔ Along AgentWorld.step OneWay (freshAgent index) ls := by
  refine forall_reached_iff (fun w l w' h hs => oneSource_step h hs) ?_ hrun
  rw [oneSource_iff]
  intro key _ hkey
  have hnone : (freshAgent index).metric.knownStatsMap.val key = none :=
    val_table_freshAgent index .known key
  rw [hnone] at hkey
  cases hkey

/-- One answer of the name server, and the pair has its one orientation. -/
theorem oneSource_run_iff_answer :
    ∃ w, run AgentWorld.step (freshAgent clientIndex) [.scan (answerScan 1)] = some w ∧
      (w.metric.knownStatsMap.val clientDns).isSome ∧ OneSource w.metric := by
  refine ⟨_, rfl, by decide, (oneSource_run_iff clientIndex [.scan (answerScan 1)] _ rfl).mpr ?_
    _ _ (List.prefix_refl _) rfl⟩
  refine ⟨fun key hpub hkey hswap => ?_, trivial⟩
  -- the scan feeds one key, and no published key is its own swap
  have hfed : ∀ key, WillHold (freshAgent clientIndex) (answerScan 1) key → key = clientDns := by
    rintro key (hold | ⟨r, hr, -, sh, hsh, hT, rfl⟩)
    · have hnone : (freshAgent clientIndex).metric.knownStatsMap.val key = none :=
        val_table_freshAgent clientIndex .known key
      rw [hnone] at hold
      cases hold
    · obtain rfl := List.mem_singleton.mp hr
      have hshares : ∀ sh ∈ flowShares clientIndex answerFlow, sh.table = .known →
          sh.key = clientDns := by
        decide
      exact hshares sh hsh hT
  exact hpub.swap_ne ((hfed _ hswap).trans (hfed _ hkey).symm)

/-- The pod asking, where it is seen first. -/
def askFlow : InetV4Flow :=
  ⟨0x0500f40a, 0x0a00600a, ⟨17, .replicate 3 0, 0x00c0, 0x3500⟩⟩

/-- A scan that finds a flow of each orientation. -/
def bothWays : ScanInput where
  t := 1
  reports := [(askFlow, ⟨60, 1, 0, 0⟩), (answerFlow, ⟨92, 1, 0, 0⟩)]
  podOrder := [⟨("default/client", "")⟩]
  svcOrder := [⟨("kube-system/dns/clusterIp", "")⟩]
  knownOrder := [clientDns, clientDns.swap]

/-- Both orientations have an entry, and the series show what was published last. -/
theorem both_ways_one_series :
    ∃ w, run AgentWorld.step (freshAgent clientIndex) [.scan bothWays] = some w ∧
      (w.metric.knownStatsMap.val clientDns).isSome ∧
      (w.metric.knownStatsMap.val clientDns.swap).isSome ∧ clientDns ≠ clientDns.swap ∧
      clientDns.pairLabels = clientDns.swap.pairLabels ∧
      published w.metric.agent.gauges "pod_svc_stats" podSvcPromMetrics clientDns.swap.pairLabels
        = [some 92, some 1, some 0, some 0] ∧
      w.metric.statsOf .known clientDns.swap = ⟨0, 0, 60, 1⟩ ∧
      ¬ OneSource w.metric := by
  refine ⟨_, rfl, by decide, by decide, by decide, by decide, by decide, by decide, fun h => ?_⟩
  exact (h clientDns clientDns.swap (by decide) (by decide) (by decide) (Or.inr (by decide))
    (Or.inl (by decide))).1 (by decide)

end Kubpf.Agent
