import Kubpf.Agent.Labels
import Kubpf.Agent.Outlive

/-!
# The series of pods and services

Every update of a pod's or a service's entry is followed by publishing it, and
nothing else touches the two families: an eviction removes the entry and leaves
its series. So a series shows its entry while there is one, and afterwards what
the entry held last, until the entry comes back.

What an entry held last is not in any state, so it is kept beside the run: a
history that takes note of every entry in every state.
-/

namespace Kubpf.Agent

open Lib

/-! ## What entries have held -/

/-- The counters each entry held last. -/
abbrev History := Table → PodStatsKey → Option FlowStats

/-- Take note of the entries there are. -/
def History.noting (hist : History) (metric : InetV4FlowMetricsEntry) : History := fun T k =>
  (((metric.table T).val k).map FlowStatsEntry.stats).or (hist T k)

def History.set (hist : History) (T : Table) (k : PodStatsKey) (v : FlowStats) : History :=
  fun T' k' => if T = T' ∧ k = k' then some v else hist T' k'

/-- What the four gauges of a key show. -/
def showing (v : Option FlowStats) : List (Option UInt64) :=
  match v with
  | some stats => (gaugeValues stats).map some
  | none => [none, none, none, none]

/-- The series of pods and services are those of the entries there have been, and show what these
held last. -/
structure Mirrors (hist : History) (gauges : Gauges) : Prop where
  /-- The entries are of pods and services by name. -/
  keyed : ∀ T k, (hist T k).isSome → Keyed T k
  /-- Each key's gauges show what its entry held last. -/
  shown : ∀ T, T ≠ .known → ∀ k, Keyed T k →
    published gauges T.subsystem T.gaugeNames (T.labels k.toPromMetricsKey) = showing (hist T k)
  /-- There are no other series. -/
  only : ∀ T, T ≠ .known → ∀ ser : Series, ser.subsystem = T.subsystem →
    (gauges.lookup ser).isSome → ser.name ∈ T.gaugeNames ∧
      ∃ k, (hist T k).isSome ∧ ser.labels = T.labels k.toPromMetricsKey

theorem mirrors_init : Mirrors (fun _ _ => none) ∅ where
  keyed := by intro T k h; cases h
  shown := by
    intro T hT k _
    cases T with
    | pod => rfl
    | svc => rfl
    | known => exact absurd rfl hT
  only := by
    intro T _ ser _ h
    rw [Finmap.lookup_empty] at h
    cases h

/-- **Publishing an entry keeps the series in step with the history.** -/
theorem Mirrors.setGauge {hist : History} {gauges : Gauges} {T : Table} {key : PodStatsKey}
    (h : Mirrors hist gauges) (hkey : Keyed T key) (stats : FlowStats) :
    Mirrors (hist.set T key stats) (T.setGauge key.toPromMetricsKey stats gauges) where
  keyed := by
    intro T' k hk
    unfold History.set at hk
    split_ifs at hk with heq
    · obtain ⟨rfl, rfl⟩ := heq
      exact hkey
    · exact h.keyed T' k hk
  shown := by
    intro T' hT' k hk
    unfold History.set
    split_ifs with heq
    · obtain ⟨rfl, rfl⟩ := heq
      rw [setGauge_keyed hT' hkey]
      exact published_setGauges (nodup_gaugeNames _) (length_gaugeNames _ stats) gauges
    · rw [← h.shown T' hT' k hk]
      refine List.map_congr_left fun name _ => lookup_setGauge_of_ne ?_ stats gauges
      rintro ⟨hsub, hlabels⟩
      obtain rfl := subsystem_injective hsub
      exact heq ⟨rfl, labels_injective hT' hkey hk hlabels.symm⟩
  only := by
    intro T' hT' ser hser hsome
    by_cases hsame : ser.subsystem = T.subsystem ∧ ser.labels = T.labels key.toPromMetricsKey
    · obtain ⟨hsub, hlabels⟩ := hsame
      obtain rfl := subsystem_injective (hser.symm.trans hsub)
      refine ⟨?_, key, by simp [History.set], hlabels⟩
      -- a gauge of another name was there before
      by_contra hname
      rw [setGauge_keyed hT' hkey] at hsome
      have hout := hname
      rw [← map_fst_gaugeNames T' stats] at hout
      rw [setGauges, ← hsub, ← hlabels] at hsome
      have hbefore : (gauges.lookup ser).isSome := by
        rw [← lookup_foldl_insert_of_not_mem hout gauges]
        exact hsome
      exact hname (h.only T' hT' ser hser hbefore).1
    · rw [lookup_setGauge_of_ne hsame] at hsome
      obtain ⟨hname, k, hk, hlabels⟩ := h.only T' hT' ser hser hsome
      refine ⟨hname, k, ?_, hlabels⟩
      unfold History.set
      split_ifs
      · rfl
      · exact hk

/-! ## Keeping in step -/

/-- The history knows what the entries hold. -/
def History.Covers (hist : History) (metric : InetV4FlowMetricsEntry) : Prop :=
  ∀ T k e, (metric.table T).val k = some e → hist T k = some e.stats

theorem History.noting_of_covers {hist : History} {metric : InetV4FlowMetricsEntry}
    (h : hist.Covers metric) : hist.noting metric = hist := by
  funext T k
  unfold History.noting
  cases hval : (metric.table T).val k with
  | none => rfl
  | some e => exact (h T k e hval).symm

/-- The history depends on the counters of the entries only. -/
theorem History.noting_congr {hist : History} {metric metric' : InetV4FlowMetricsEntry}
    (h : ∀ T k, ((metric'.table T).val k).map FlowStatsEntry.stats
      = ((metric.table T).val k).map FlowStatsEntry.stats) :
    hist.noting metric' = hist.noting metric := by
  funext T k
  unfold History.noting
  rw [h]

theorem gauges_addTo (metric : InetV4FlowMetricsEntry) (T : Table) (key : PodStatsKey)
    (stats : FlowStats) (t : Time) :
    (metric.addTo T key stats t).agent.gauges
      = T.setGauge key.toPromMetricsKey ((metric.addTo T key stats t).statsOf T key)
          metric.agent.gauges := by
  cases T <;> rfl

theorem History.noting_addTo (hist : History) (metric : InetV4FlowMetricsEntry) (sh : Share)
    (stats : FlowStats) (t : Time) :
    hist.noting (metric.addTo sh.table sh.key stats t)
      = (hist.noting metric).set sh.table sh.key
          ((metric.addTo sh.table sh.key stats t).statsOf sh.table sh.key) := by
  funext T k
  unfold History.noting History.set
  rw [InetV4FlowMetricsEntry.val_table_addTo]
  split_ifs with heq
  · obtain ⟨rfl, rfl⟩ := heq
    rw [InetV4FlowMetricsEntry.statsOf, InetV4FlowMetricsEntry.val_table_addTo, if_pos ⟨rfl, rfl⟩]
    rfl
  · rfl

section Scan

variable {hist : History} {metric : InetV4FlowMetricsEntry}

theorem Mirrors.addShares {l : List Share} (hl : ∀ sh ∈ l, Keyed sh.table sh.key)
    (stats : FlowStats) (t : Time) (h : Mirrors (hist.noting metric) metric.agent.gauges) :
    Mirrors (hist.noting (metric.addShares l stats t))
      (metric.addShares l stats t).agent.gauges := by
  induction l generalizing metric with
  | nil => exact h
  | cons sh l ih =>
      refine ih (fun sh' hsh' => hl sh' (List.mem_cons_of_mem _ hsh')) ?_
      rw [History.noting_addTo, gauges_addTo]
      exact h.setGauge (hl sh (List.mem_cons_self ..)) _

/-- A flow's merge keeps the series in step. -/
theorem Mirrors.mergeFlow (hnamed : metric.agent.toIndex.Named)
    (h : Mirrors (hist.noting metric) metric.agent.gauges)
    (b : PtrMap InetV4Flow FlowStatsEntry) (key : InetV4Flow) (stats : FlowStats) (t : Time) :
    let merged := { metric with baseMap := b }.mergeStats
      (getPodStatsKey metric.agent.toIndex key).2 (getPodStatsKey metric.agent.toIndex key).1 stats t
    Mirrors (hist.noting merged) merged.agent.gauges := by
  dsimp only
  rw [InetV4FlowMetricsEntry.mergeStats_eq]
  have hkeyed : ∀ sh ∈ flowShares metric.agent.toIndex key, Keyed sh.table sh.key :=
    fun sh hsh => (namedShare_of_mem hnamed hsh).keyed
  have hsame : hist.noting { metric with baseMap := b } = hist.noting metric :=
    History.noting_congr fun T k => by rw [table_withBaseMap]
  refine Mirrors.addShares hkeyed stats t ?_
  rw [hsame]
  exact h

/-- **The loop over the kernel map keeps the series in step.** -/
theorem Mirrors.scanFlows {t : Time} {reports : List (InetV4Flow × FlowStats)} {s : Scan}
    (hnamed : s.metric.agent.toIndex.Named)
    (h : Mirrors (hist.noting s.metric) s.metric.agent.gauges) :
    Mirrors (hist.noting (scanFlows t reports s).metric)
      (scanFlows t reports s).metric.agent.gauges := by
  refine (scanFlows_inv (I := fun s => s.metric.agent.toIndex.Named ∧
    Mirrors (hist.noting s.metric) s.metric.agent.gauges) ?_ ⟨hnamed, h⟩).2
  intro s s' r _ hI hobs
  obtain ⟨hnamed, h⟩ := hI
  refine ⟨hobs.merges.1 ▸ hnamed, ?_⟩
  cases hobs with
  | new b _ _ => exact h.mergeFlow hnamed b r.1 r.2 t
  | unchanged b e _ _ _ =>
      have hsame : hist.noting { s.metric with baseMap := b } = hist.noting s.metric :=
        History.noting_congr fun T k => by rw [table_withBaseMap]
      dsimp only
      rw [hsame]
      exact h
  | changed b e _ _ _ => exact h.mergeFlow hnamed b r.1 0 t

end Scan

theorem FlowStatsEntry.stats_aged (t : Time) (e : FlowStatsEntry) : (e.aged t).stats = e.stats := by
  unfold FlowStatsEntry.aged
  split_ifs
  · rfl
  · rfl

/-! ## Runs -/

/-- What an entry of a table holds. -/
def AgentWorld.held (T : Table) (k : PodStatsKey) (w : AgentWorld) : Option FlowStats :=
  ((w.metric.table T).val k).map FlowStatsEntry.stats

/-- The indexes the label brings have names without slashes in their parts. -/
def AgentLabel.Named : AgentLabel → Prop
  | .informer index => index.Named
  | _ => True

/-- The agent's indexes have such names, the history is that of the run so far, and the series
mirror it. -/
structure InStep (w₀ : AgentWorld) (ls : List AgentLabel) (w : AgentWorld) (hist : History) :
    Prop where
  named : w.metric.agent.toIndex.Named
  past : ∀ T k v, hist T k = some v ↔ LastSeen AgentWorld.step (AgentWorld.held T k) w₀ ls v
  mirrors : Mirrors hist w.metric.agent.gauges

theorem inStep_init {index : Index} (h : index.Named) :
    InStep (freshAgent index) [] (freshAgent index) (fun _ _ => none) where
  named := h
  past := by
    intro T k v
    have hnone : (freshAgent index).held T k = none :=
      congrArg (Option.map _) (val_table_freshAgent index T k)
    rw [lastSeen_nil, hnone]
  mirrors := mirrors_init

section Step

variable {w₀ w w' : AgentWorld} {ls : List AgentLabel} {l : AgentLabel} {hist : History}

theorem InStep.covers (h : InStep w₀ ls w hist) (hr : run AgentWorld.step w₀ ls = some w) :
    hist.Covers w.metric := by
  intro T k e he
  refine (h.past T k e.stats).mpr (lastSeen_of_obs hr ?_)
  rw [AgentWorld.held, he]
  rfl

/-- The history one step later. -/
theorem InStep.past_concat (h : InStep w₀ ls w hist)
    (hr : run AgentWorld.step w₀ (ls ++ [l]) = some w') (T : Table) (k : PodStatsKey)
    (v : FlowStats) :
    hist.noting w'.metric T k = some v
      ↔ LastSeen AgentWorld.step (AgentWorld.held T k) w₀ (ls ++ [l]) v := by
  rw [lastSeen_concat hr, ← h.past, ← Option.or_eq_some_iff]
  rfl

/-- **Every step keeps the series in step with what the entries held last.** -/
theorem inStep_step (h : InStep w₀ ls w hist) (hr : run AgentWorld.step w₀ ls = some w)
    (hs : w.step l = some w') (hl : l.Named) : InStep w₀ (ls ++ [l]) w' (hist.noting w'.metric) := by
  have hr' : run AgentWorld.step w₀ (ls ++ [l]) = some w' := by
    rw [run_append hr, run_cons hs, run_nil]
  have hcovers := h.covers hr
  have hmirrors : Mirrors (hist.noting w.metric) w.metric.agent.gauges := by
    rw [History.noting_of_covers hcovers]
    exact h.mirrors
  have hpast := h.past_concat hr'
  cases AgentWorld.step_inv hs with
  | scan input horder =>
      have hscan : Mirrors (hist.noting (w.scanned input).metric)
          (w.scanned input).metric.agent.gauges := Mirrors.scanFlows h.named hmirrors
      have hindex : (w.scanned input).metric.agent.toIndex = w.metric.agent.toIndex :=
        scanFlows_inv (I := fun s => s.metric.agent.toIndex = w.metric.agent.toIndex)
          (fun _ _ _ _ hI hobs => hobs.merges.1.trans hI) rfl
      -- aging leaves the counters alone
      have hsame : hist.noting (finishScan input (w.scanned input)).1
          = hist.noting (w.scanned input).metric := by
        refine History.noting_congr fun T k => ?_
        rw [val_finishScan horder, Option.map_map]
        exact congrArg (Option.map · _) (funext (FlowStatsEntry.stats_aged input.t))
      refine ⟨hindex ▸ h.named, hpast, ?_⟩
      rw [hsame]
      exact hscan
  | evictFails n ev hev => exact ⟨h.named, hpast, hmirrors⟩
  | evict n ev hev =>
      -- what is left has been noted before
      have hleft : hist.Covers (evictEntries ev w.metric) := by
        intro T k e he
        exact hcovers T k e (table_evictEntries_eq_some.mp he).2
      refine ⟨h.named, hpast, ?_⟩
      rw [History.noting_of_covers hleft]
      exact h.mirrors
  | informer index =>
      have hsame : hist.noting { w.metric with
          agent := { index with gauges := w.metric.agent.gauges } } = hist.noting w.metric :=
        History.noting_congr fun T k => by rw [table_withAgent]
      refine ⟨hl, hpast, ?_⟩
      rw [hsame]
      exact hmirrors

theorem exists_inStep {index : Index} (h : index.Named) (hl : ∀ l ∈ ls, l.Named)
    (hr : run AgentWorld.step (freshAgent index) ls = some w) :
    ∃ hist, InStep (freshAgent index) ls w hist := by
  induction ls using List.reverseRecOn generalizing w with
  | nil =>
      rw [run_nil] at hr
      rw [← Option.some.inj hr]
      exact ⟨_, inStep_init h⟩
  | append_singleton ls l ih =>
      obtain ⟨w₁, hr₁, hlast⟩ := run_append_eq_some hr
      obtain ⟨w₂, hs, hnil⟩ := run_cons_eq_some hlast
      rw [run_nil] at hnil
      obtain rfl := Option.some.inj hnil
      obtain ⟨hist, hist_ok⟩ := ih (fun l' hl' => hl l' (List.mem_append_left _ hl')) hr₁
      exact ⟨_, inStep_step hist_ok hr₁ hs (hl l (by simp))⟩

end Step

/-- The key of a pod's or a service's entry, and the labels of its series: the parts of its
name. -/
inductive LabelledBy : Table → PodStatsKey → List (String × String) → Prop
  | pod (P : PodName) :
      LabelledBy .pod ⟨(P.endpoint, "")⟩ [("pod_namespace", P.ns), ("pod_name", P.name)]
  | svc (S : SvcName) :
      LabelledBy .svc ⟨(S.endpoint, "")⟩
        [("svc_namespace", S.ns), ("svc_scope", S.scope), ("svc_name", S.name)]

theorem labelledBy_iff {T : Table} (hT : T ≠ .known) {key : PodStatsKey}
    {labels : List (String × String)} :
    LabelledBy T key labels ↔ Keyed T key ∧ labels = T.labels key.toPromMetricsKey := by
  refine ⟨fun h => ?_, fun ⟨h, heq⟩ => ?_⟩
  · cases h with
    | pod P => exact ⟨.pod P, by rw [toPromMetricsKey_pod]; rfl⟩
    | svc S => exact ⟨.svc S, by rw [toPromMetricsKey_svc]; rfl⟩
  · subst heq
    cases h with
    | pod P => rw [toPromMetricsKey_pod]; exact .pod P
    | svc S => rw [toPromMetricsKey_svc]; exact .svc S
    | known P S o => exact absurd rfl hT

/--
**The series of pods and services show what their entries held last.**

In every state a run reaches, whatever indexes of plain names the informers bring:
a series exists exactly if it is one of the four gauges of its family and the
entry of its labels is in the table, or has been in some state of the run; and
the four gauges are the counters of the entry, those it has now or, if it has been
evicted, those it had in the last state that had it.
-/
theorem series_mirror_entries (index : Index) (hindex : index.Named) (ls : List AgentLabel)
    (hls : ∀ l ∈ ls, l.Named) (w : AgentWorld)
    (hrun : run AgentWorld.step (freshAgent index) ls = some w) (T : Table) (hT : T ≠ .known) :
    (∀ ser : Series, ser.subsystem = T.subsystem →
      ((w.metric.agent.gauges.lookup ser).isSome ↔
        ser.name ∈ T.gaugeNames ∧ ∃ key, LabelledBy T key ser.labels ∧
          ∃ ls₁ w₁, ls₁ <+: ls ∧ run AgentWorld.step (freshAgent index) ls₁ = some w₁ ∧
            (w₁.held T key).isSome)) ∧
    (∀ key labels v, LabelledBy T key labels →
      w.held T key = some v ∨ LastSeen AgentWorld.step (AgentWorld.held T key) (freshAgent index)
        ls v →
      published w.metric.agent.gauges T.subsystem T.gaugeNames labels
        = (gaugeValues v).map some) := by
  obtain ⟨hist, hstep⟩ := exists_inStep hindex hls hrun
  have hpast : ∀ key, (hist T key).isSome ↔ ∃ ls₁ w₁, ls₁ <+: ls ∧
      run AgentWorld.step (freshAgent index) ls₁ = some w₁ ∧ (w₁.held T key).isSome := by
    intro key
    rw [← exists_lastSeen hrun, Option.isSome_iff_exists]
    exact exists_congr fun v => hstep.past T key v
  have hshown : ∀ key labels v, LabelledBy T key labels → hist T key = some v →
      published w.metric.agent.gauges T.subsystem T.gaugeNames labels
        = (gaugeValues v).map some := by
    intro key labels v hlabels hv
    obtain ⟨hkey, rfl⟩ := (labelledBy_iff hT).mp hlabels
    rw [hstep.mirrors.shown T hT key hkey, hv]
    rfl
  refine ⟨fun ser hser => ⟨fun hsome => ?_, fun hname => ?_⟩, fun key labels v hlabels hv => ?_⟩
  · obtain ⟨hname, key, hkey, hlabels⟩ := hstep.mirrors.only T hT ser hser hsome
    refine ⟨hname, key, (labelledBy_iff hT).mpr ⟨hstep.mirrors.keyed T key hkey, hlabels⟩, ?_⟩
    exact (hpast key).mp hkey
  · obtain ⟨hname, key, hlabels, hheld⟩ := hname
    obtain ⟨v, hv⟩ := Option.isSome_iff_exists.mp ((hpast key).mpr hheld)
    have hall := hshown key ser.labels v hlabels hv
    -- the gauge is among those published
    have hmem : w.metric.agent.gauges.lookup ser ∈ published w.metric.agent.gauges T.subsystem
        T.gaugeNames ser.labels := by
      obtain ⟨sub, name, labels⟩ := ser
      dsimp only at hser hname
      subst hser
      exact List.mem_map.mpr ⟨name, hname, rfl⟩
    rw [hall] at hmem
    obtain ⟨value, -, hvalue⟩ := List.mem_map.mp hmem
    rw [← hvalue]
    rfl
  · refine hshown key labels v hlabels ((hstep.past T key v).mpr ?_)
    rcases hv with hv | hv
    · exact lastSeen_of_obs hrun hv
    · exact hv

/-- One answer of the name server, as it is published for the pod. -/
theorem series_mirror_entries_answer :
    ∃ w, run AgentWorld.step (freshAgent clientIndex) [.scan (answerScan 1)] = some w ∧
      published w.metric.agent.gauges "pod_stats" podPromMetrics
          [("pod_namespace", "default"), ("pod_name", "client")]
        = [some 0, some 0, some 92, some 1] :=
  ⟨_, rfl, (series_mirror_entries clientIndex named_clientIndex [.scan (answerScan 1)]
    (fun _ h => by rw [List.mem_singleton.mp h]; trivial) _ rfl .pod (by decide)).2 _ _
      ⟨0, 0, 92, 1⟩ (.pod clientPod) (Or.inl rfl)⟩

/-- Four scans, each with its eviction, that find the same counters. -/
def idleRun : List AgentLabel :=
  [.scan (answerScan 1), .evict 0 false, .scan (answerScan 2), .evict 0 false,
    .scan (answerScan 3), .evict 0 false, .scan (answerScan 4), .evict 0 false]

/-- The pod's entry has been evicted, and its series are there still. -/
theorem series_outlives_entry :
    ∃ w, run AgentWorld.step (freshAgent clientIndex) idleRun = some w ∧
      w.metric.podStatsMap.keys = ∅ ∧
      published w.metric.agent.gauges "pod_stats" podPromMetrics
          [("pod_namespace", "default"), ("pod_name", "client")]
        = [some 0, some 0, some 92, some 1] ∧
      ¬ ∀ ser : Series, ser.subsystem = "pod_stats" →
        ((w.metric.agent.gauges.lookup ser).isSome ↔
          ser.name ∈ podPromMetrics ∧ ∃ key, LabelledBy .pod key ser.labels ∧
            (w.held .pod key).isSome) := by
  let ser : Series :=
    ⟨"pod_stats", "pod_rx_bytes", [("pod_namespace", "default"), ("pod_name", "client")]⟩
  have hreached : ∃ w, run AgentWorld.step (freshAgent clientIndex) idleRun = some w ∧
      w.metric.podStatsMap.keys = ∅ ∧
      published w.metric.agent.gauges "pod_stats" podPromMetrics ser.labels
        = [some 0, some 0, some 92, some 1] ∧
      (w.metric.agent.gauges.lookup ser).isSome := ⟨_, rfl, by decide, by decide, by decide⟩
  obtain ⟨w, hrun, hempty, hpub, hsome⟩ := hreached
  refine ⟨w, hrun, hempty, hpub, fun h => ?_⟩
  obtain ⟨-, key, -, hheld⟩ := (h ser rfl).mp hsome
  have hkey : key ∈ w.metric.podStatsMap.keys :=
    PtrMap.mem_keys.mpr (Option.isSome_map.symm.trans hheld)
  rw [hempty] at hkey
  exact absurd hkey (Finset.notMem_empty key)

end Kubpf.Agent
