import Kubpf.Lib.Commute
import Kubpf.Agent.OneSource
import Kubpf.Agent.Mirror

/-!
# Scans in any order

The kernel delivers its entries in no particular order, and Go walks its tables in
none. A scan gives each key once, so whether a report is new, idle or changed is
settled before the scan begins; what is merged is then a list of amounts for
entries, the same list in another order. Amounts for one entry add up in any
order, and the series of a pod or a service show the total whichever came last.

The series of pairs are left out: their two orientations share labels, and the one
merged last shows.
-/

namespace Kubpf.Agent

open Lib

/-! ## What cannot be told apart -/

/-- The same aggregates under the same indexes, and the same series of pods and services. -/
structure SameAggregates (metric metric' : InetV4FlowMetricsEntry) : Prop where
  index : metric.agent.toIndex = metric'.agent.toIndex
  tables : ∀ T, (metric.table T).val = (metric'.table T).val
  series : ∀ ser : Series, ser.subsystem ≠ Table.known.subsystem →
    metric.agent.gauges.lookup ser = metric'.agent.gauges.lookup ser

theorem sameAggregates_equivalence : Equivalence SameAggregates where
  refl _ := ⟨rfl, fun _ => rfl, fun _ _ => rfl⟩
  symm h := ⟨h.index.symm, fun T => (h.tables T).symm, fun ser hser => (h.series ser hser).symm⟩
  trans h h' := ⟨h.index.trans h'.index, fun T => (h.tables T).trans (h'.tables T),
    fun ser hser => (h.series ser hser).trans (h'.series ser hser)⟩

theorem SameAggregates.statsOf_eq {metric metric' : InetV4FlowMetricsEntry}
    (h : SameAggregates metric metric') (T : Table) (k : PodStatsKey) :
    metric.statsOf T k = metric'.statsOf T k := by
  unfold InetV4FlowMetricsEntry.statsOf
  rw [h.tables]

/-! ## Which series a share sets -/

/-- The share goes to a pair, or its key has one end. -/
def Share.OneEnded (sh : Share) : Prop :=
  sh.table ≠ .known → ∃ x, sh.key = ⟨(x, "")⟩

theorem oneEnded_of_mem_flowShares {agent : Index} {K : InetV4Flow} {sh : Share}
    (h : sh ∈ flowShares agent K) : sh.OneEnded := by
  obtain ⟨hsrc, hdst⟩ := not_both_of_mem_flowShares h
  rw [flowShares_eq_of_not_both hsrc hdst, List.mem_append, List.mem_append, mem_endpointShares,
    mem_endpointShares] at h
  intro hT
  rcases h with ((⟨-, rfl⟩ | ⟨-, rfl⟩) | ⟨-, rfl⟩ | ⟨-, rfl⟩) | h
  · exact ⟨_, rfl⟩
  · exact ⟨_, rfl⟩
  · exact ⟨_, rfl⟩
  · exact ⟨_, rfl⟩
  · split_ifs at h
    · exact absurd (congrArg Share.table (List.mem_singleton.mp h)) hT
    · exact absurd h List.not_mem_nil

/-- A pod's or a service's key that is not made of a name of its kind is not published. -/
theorem setGauge_of_not_keyed {T : Table} {x : String} (hT : T ≠ .known)
    (h : ¬ Keyed T ⟨(x, "")⟩) (stats : FlowStats) (gauges : Gauges) :
    T.setGauge (⟨(x, "")⟩ : PodStatsKey).toPromMetricsKey stats gauges = gauges := by
  obtain ⟨a, rfl⟩ := exists_endpointName x
  have hname : (⟨(a.text, "")⟩ : PodStatsKey).toPromMetricsKey.metricName
      = metricNameOf (keyTypeOf a.isPod false a.isSvc false) :=
    congrArg metricNameOf (splitKeyType_eq a noEndpoint)
  cases T with
  | pod =>
      refine if_pos ?_
      rw [hname]
      cases a with
      | pod P => exact absurd (.pod P) h
      | svc S => exact (by decide : metricNameOf (keyTypeOf false false true false) ≠ .podStats)
      | outside text plain =>
          exact (by decide : metricNameOf (keyTypeOf false false false false) ≠ .podStats)
  | svc =>
      refine if_pos ?_
      rw [hname]
      cases a with
      | pod P => exact (by decide : metricNameOf (keyTypeOf true false false false) ≠ .svcStats)
      | svc S => exact absurd (.svc S) h
      | outside text plain =>
          exact (by decide : metricNameOf (keyTypeOf false false false false) ≠ .svcStats)
  | known => exact absurd rfl hT

/-- Publishing the share's entry sets the series. -/
def Share.Sets (sh : Share) (ser : Series) : Prop :=
  Keyed sh.table sh.key ∧ ser.subsystem = sh.table.subsystem ∧
    ser.labels = sh.table.labels sh.key.toPromMetricsKey ∧ ser.name ∈ sh.table.gaugeNames

section Sets

variable {sh : Share} {ser : Series}

/-- A series that is not set stays. -/
theorem lookup_setGauge_of_not_sets (hone : sh.OneEnded)
    (hser : ser.subsystem ≠ Table.known.subsystem) (h : ¬ sh.Sets ser) (stats : FlowStats)
    (gauges : Gauges) :
    (sh.table.setGauge sh.key.toPromMetricsKey stats gauges).lookup ser = gauges.lookup ser := by
  by_cases hsame : ser.subsystem = sh.table.subsystem ∧
      ser.labels = sh.table.labels sh.key.toPromMetricsKey
  · have hT : sh.table ≠ .known := fun hT => hser (hsame.1.trans (congrArg Table.subsystem hT))
    by_cases hkeyed : Keyed sh.table sh.key
    · -- of the same labels, but none of the four gauges
      have hname : ser.name ∉ sh.table.gaugeNames :=
        fun hname => h ⟨hkeyed, hsame.1, hsame.2, hname⟩
      rw [← map_fst_gaugeNames _ stats] at hname
      rw [setGauge_keyed hT hkeyed, setGauges, ← hsame.1, ← hsame.2]
      exact lookup_foldl_insert_of_not_mem hname gauges
    · obtain ⟨x, hx⟩ := hone hT
      rw [hx] at hkeyed ⊢
      rw [setGauge_of_not_keyed hT hkeyed]
  · exact lookup_setGauge_of_ne hsame stats gauges

/-- A series that is set shows the entry's counters, whatever it showed before. -/
theorem lookup_setGauge_of_sets (hser : ser.subsystem ≠ Table.known.subsystem) (h : sh.Sets ser)
    (stats : FlowStats) (gauges gauges' : Gauges) :
    (sh.table.setGauge sh.key.toPromMetricsKey stats gauges).lookup ser
      = (sh.table.setGauge sh.key.toPromMetricsKey stats gauges').lookup ser := by
  obtain ⟨hkeyed, hsub, hlabels, hname⟩ := h
  have hT : sh.table ≠ .known := fun hT => hser (hsub.trans (congrArg Table.subsystem hT))
  rw [← map_fst_gaugeNames _ stats] at hname
  rw [setGauge_keyed hT hkeyed, setGauge_keyed hT hkeyed, setGauges, setGauges, ← hsub, ← hlabels]
  exact lookup_foldl_insert_of_mem hname gauges gauges'

/-- **A series of a pod or a service is set for one entry only.** -/
theorem Share.Sets.unique {sh' : Share} (hser : ser.subsystem ≠ Table.known.subsystem)
    (h : sh.Sets ser) (h' : sh'.Sets ser) : sh'.table = sh.table ∧ sh'.key = sh.key := by
  obtain ⟨T, key, swapped⟩ := sh
  obtain ⟨T', key', swapped'⟩ := sh'
  obtain ⟨hkeyed, hsub, hlabels, -⟩ := h
  obtain ⟨hkeyed', hsub', hlabels', -⟩ := h'
  dsimp only at *
  obtain rfl : T' = T := subsystem_injective (hsub'.symm.trans hsub)
  have hT : T' ≠ .known := fun hT => hser (hsub.trans (congrArg Table.subsystem hT))
  exact ⟨rfl, labels_injective hT hkeyed' hkeyed (hlabels'.symm.trans hlabels)⟩

end Sets

/-! ## Portions -/

/-- What an entry is to get. -/
structure Portion where
  share : Share
  amount : FlowStats

namespace InetV4FlowMetricsEntry

def addPortion (t : Time) (metric : InetV4FlowMetricsEntry) (p : Portion) :
    InetV4FlowMetricsEntry :=
  metric.addTo p.share.table p.share.key p.amount t

end InetV4FlowMetricsEntry

theorem FlowStatsEntry.add_swap (e : FlowStatsEntry) (a b : FlowStats) (t : Time) :
    (e.add a t).add b t = (e.add b t).add a t :=
  congrArg (fun stats => FlowStatsEntry.mk stats 0 t) (add_right_comm e.stats a b)

section AddPortion

variable {metric metric' : InetV4FlowMetricsEntry} {t : Time} {p q : Portion} {ser : Series}

theorem lookup_addPortion_of_not_sets (hone : p.share.OneEnded)
    (hser : ser.subsystem ≠ Table.known.subsystem) (h : ¬ p.share.Sets ser) :
    (metric.addPortion t p).agent.gauges.lookup ser = metric.agent.gauges.lookup ser := by
  rw [InetV4FlowMetricsEntry.addPortion, gauges_addTo]
  exact lookup_setGauge_of_not_sets hone hser h _ _

theorem lookup_addPortion_of_sets (hser : ser.subsystem ≠ Table.known.subsystem)
    (h : p.share.Sets ser) :
    (metric.addPortion t p).agent.gauges.lookup ser
      = (p.share.table.setGauge p.share.key.toPromMetricsKey
          (metric.statsOf p.share.table p.share.key + p.amount) ∅).lookup ser := by
  rw [InetV4FlowMetricsEntry.addPortion, gauges_addTo, InetV4FlowMetricsEntry.statsOf_addTo,
    if_pos ⟨rfl, rfl⟩]
  exact lookup_setGauge_of_sets hser h _ _ _

/-- Handing out a portion respects what cannot be told apart. -/
theorem SameAggregates.addPortion (h : SameAggregates metric metric') (hone : p.share.OneEnded) :
    SameAggregates (metric.addPortion t p) (metric'.addPortion t p) where
  index := by
    rw [InetV4FlowMetricsEntry.addPortion, InetV4FlowMetricsEntry.addPortion,
      InetV4FlowMetricsEntry.index_addTo, InetV4FlowMetricsEntry.index_addTo, h.index]
  tables := by
    intro T
    funext k
    rw [InetV4FlowMetricsEntry.addPortion, InetV4FlowMetricsEntry.addPortion,
      InetV4FlowMetricsEntry.val_table_addTo, InetV4FlowMetricsEntry.val_table_addTo, h.tables]
  series := by
    intro ser hser
    by_cases hsets : p.share.Sets ser
    · rw [lookup_addPortion_of_sets hser hsets, lookup_addPortion_of_sets hser hsets, h.statsOf_eq]
    · rw [lookup_addPortion_of_not_sets hone hser hsets,
        lookup_addPortion_of_not_sets hone hser hsets, h.series ser hser]

/-- A series that only the first of two portions sets shows the same when it is the second. -/
theorem lookup_addPortion_swap (hq : q.share.OneEnded)
    (hser : ser.subsystem ≠ Table.known.subsystem) (hsets : p.share.Sets ser)
    (hnot : ¬ q.share.Sets ser) :
    ((metric.addPortion t p).addPortion t q).agent.gauges.lookup ser
      = ((metric.addPortion t q).addPortion t p).agent.gauges.lookup ser := by
  have hother : ¬ (q.share.table = p.share.table ∧ q.share.key = p.share.key) := by
    intro hsame
    unfold Share.Sets at hsets hnot
    rw [hsame.1, hsame.2] at hnot
    exact hnot hsets
  rw [lookup_addPortion_of_not_sets hq hser hnot, lookup_addPortion_of_sets hser hsets,
    lookup_addPortion_of_sets hser hsets, InetV4FlowMetricsEntry.addPortion,
    InetV4FlowMetricsEntry.statsOf_addTo, if_neg hother, add_zero]

/-- **Two portions can be handed out in either order.** -/
theorem sameAggregates_swap (hp : p.share.OneEnded) (hq : q.share.OneEnded) :
    SameAggregates ((metric.addPortion t p).addPortion t q)
      ((metric.addPortion t q).addPortion t p) where
  index := by
    simp only [InetV4FlowMetricsEntry.addPortion, InetV4FlowMetricsEntry.index_addTo]
  tables := by
    intro T
    funext k
    simp only [InetV4FlowMetricsEntry.addPortion, InetV4FlowMetricsEntry.val_table_addTo]
    split_ifs
    · exact congrArg some (FlowStatsEntry.add_swap _ _ _ _)
    · rfl
    · rfl
    · rfl
  series := by
    intro ser hser
    by_cases hpsets : p.share.Sets ser
    · by_cases hqsets : q.share.Sets ser
      · -- for the same entry, whose total they both make up
        obtain ⟨hT, hkey⟩ := hpsets.unique hser hqsets
        rw [lookup_addPortion_of_sets hser hqsets, lookup_addPortion_of_sets hser hpsets,
          InetV4FlowMetricsEntry.addPortion, InetV4FlowMetricsEntry.addPortion,
          InetV4FlowMetricsEntry.statsOf_addTo, InetV4FlowMetricsEntry.statsOf_addTo, hT, hkey,
          if_pos ⟨rfl, rfl⟩, if_pos ⟨rfl, rfl⟩, add_right_comm]
      · exact lookup_addPortion_swap hq hser hpsets hqsets
    · by_cases hqsets : q.share.Sets ser
      · exact (lookup_addPortion_swap hp hser hqsets hpsets).symm
      · rw [lookup_addPortion_of_not_sets hq hser hqsets,
          lookup_addPortion_of_not_sets hp hser hpsets,
          lookup_addPortion_of_not_sets hp hser hpsets,
          lookup_addPortion_of_not_sets hq hser hqsets]

end AddPortion

/-! ## A scan as a list of portions -/

/-- The entry of `baseMap` after a report, from the one before it. -/
def observed (t : Time) (old : Option FlowStatsEntry) (v : FlowStats) : FlowStatsEntry :=
  match old with
  | none => { stats := v, agingCounter := 0, timeStamp := t }
  | some e =>
    if e.stats = v then { e with agingCounter := e.agingCounter + 1 }
    else { stats := v, agingCounter := 0, timeStamp := t }

/-- What a report has merged: everything of a new flow, nothing of one that has changed, and no
call at all for one that has not. -/
def taken (old : Option FlowStatsEntry) (v : FlowStats) : Option FlowStats :=
  match old with
  | none => some v
  | some e => if e.stats = v then none else some 0

/-- A report lists its flow for deletion. -/
def Listed (metric : InetV4FlowMetricsEntry) (r : InetV4Flow × FlowStats) : Prop :=
  ∃ e, metric.baseMap.val r.1 = some e ∧ e.stats = r.2 ∧ 3 ≤ e.agingCounter + 1

/-- The portions a report makes. -/
def portions (metric : InetV4FlowMetricsEntry) (r : InetV4Flow × FlowStats) : List Portion :=
  match taken (metric.baseMap.val r.1) r.2 with
  | none => []
  | some v => (flowShares metric.agent.toIndex r.1).map fun sh => ⟨sh, sh.part v⟩

theorem oneEnded_of_mem_portions {metric : InetV4FlowMetricsEntry} {r : InetV4Flow × FlowStats}
    {p : Portion} (h : p ∈ portions metric r) : p.share.OneEnded := by
  unfold portions at h
  cases htaken : taken (metric.baseMap.val r.1) r.2 with
  | none =>
      rw [htaken] at h
      exact absurd h List.not_mem_nil
  | some v =>
      rw [htaken] at h
      obtain ⟨sh, hsh, rfl⟩ := List.mem_map.mp h
      exact oneEnded_of_mem_flowShares hsh

namespace InetV4FlowMetricsEntry

def addPortions (t : Time) (metric : InetV4FlowMetricsEntry) (l : List Portion) :
    InetV4FlowMetricsEntry :=
  l.foldl (addPortion t) metric

theorem addPortions_append (t : Time) (metric : InetV4FlowMetricsEntry) (l l' : List Portion) :
    metric.addPortions t (l ++ l') = (metric.addPortions t l).addPortions t l' :=
  List.foldl_append

/-- Portions have nothing to do with `baseMap`. -/
theorem addPortions_withBaseMap (t : Time) (metric : InetV4FlowMetricsEntry)
    (b : PtrMap InetV4Flow FlowStatsEntry) (l : List Portion) :
    addPortions t { metric with baseMap := b } l
      = { metric.addPortions t l with baseMap := b } := by
  induction l generalizing metric with
  | nil => rfl
  | cons p l ih =>
      have hone : addPortion t { metric with baseMap := b } p
          = { metric.addPortion t p with baseMap := b } := by
        unfold addPortion
        cases p.share.table <;> rfl
      exact (congrArg (addPortions t · l) hone).trans (ih (metric.addPortion t p))

theorem index_addPortions (t : Time) (metric : InetV4FlowMetricsEntry)
    (l : List Portion) :
    (metric.addPortions t l).agent.toIndex = metric.agent.toIndex := by
  induction l generalizing metric with
  | nil => rfl
  | cons p l ih => exact (ih _).trans (index_addTo ..)

theorem addShares_eq_addPortions (t : Time) (metric : InetV4FlowMetricsEntry) (l : List Share)
    (v : FlowStats) :
    metric.addShares l v t = metric.addPortions t (l.map fun sh => ⟨sh, sh.part v⟩) := by
  unfold addShares addPortions
  rw [List.foldl_map]
  rfl

end InetV4FlowMetricsEntry

/-- A scan's state after some reports, in terms of the state before them. -/
structure ScanOutcome (t : Time) (reports : List (InetV4Flow × FlowStats)) (s s' : Scan) : Prop where
  /-- Each flow's entry is what its report makes of the one there was. -/
  observed : ∀ r ∈ reports, s'.metric.baseMap.val r.1
    = some (observed t (s.metric.baseMap.val r.1) r.2)
  /-- Other flows keep theirs. -/
  kept : ∀ K, K ∉ reports.map Prod.fst →
    s'.metric.baseMap.val K = s.metric.baseMap.val K
  /-- The aggregates have been handed the portions of all reports. -/
  merged : ∃ b, s'.metric
    = { s.metric.addPortions t (reports.flatMap (portions s.metric)) with baseMap := b }
  /-- The flows listed are those idle for too long. -/
  listed : ∀ K, K ∈ s'.toDeleteList
    ↔ K ∈ s.toDeleteList ∨ ∃ r ∈ reports, r.1 = K ∧ Listed s.metric r

section ScanOutcome

variable {t : Time} {s s' : Scan} {r : InetV4Flow × FlowStats}

theorem outcome_singleton
    (hb : s'.metric.baseMap.val = Function.update s.metric.baseMap.val r.1
      (some (observed t (s.metric.baseMap.val r.1) r.2)))
    (hmerged : ∃ b, s'.metric
      = { s.metric.addPortions t (portions s.metric r) with baseMap := b })
    (hlist : ∀ K, K ∈ s'.toDeleteList ↔ K ∈ s.toDeleteList ∨ (r.1 = K ∧ Listed s.metric r)) :
    ScanOutcome t [r] s s' where
  observed := by
    intro r' hr'
    rw [List.mem_singleton.mp hr', hb, Function.update_self]
  kept := by
    intro K hK
    rw [hb, Function.update_of_ne fun hKr => hK (by simp [hKr])]
  merged := by
    rw [List.flatMap_singleton]
    exact hmerged
  listed := by
    intro K
    rw [hlist]
    simp only [List.mem_singleton, exists_eq_left]

/-- A report that is merged. -/
theorem outcome_merge {b : PtrMap InetV4Flow FlowStatsEntry} {v : FlowStats} {trace : List Event}
    (hb : b.val = Function.update s.metric.baseMap.val r.1
      (some (observed t (s.metric.baseMap.val r.1) r.2)))
    (htaken : taken (s.metric.baseMap.val r.1) r.2 = some v) (hlist : ¬ Listed s.metric r) :
    ScanOutcome t [r] s
      { s with
        metric := { s.metric with baseMap := b }.mergeStats
          (getPodStatsKey s.metric.agent.toIndex r.1).2
          (getPodStatsKey s.metric.agent.toIndex r.1).1 v t
        trace := trace } := by
  refine outcome_singleton ((congrArg PtrMap.val baseMap_mergeStats).trans hb) ⟨b, ?_⟩ fun K => ?_
  · rw [InetV4FlowMetricsEntry.mergeStats_eq, InetV4FlowMetricsEntry.addShares_eq_addPortions,
      InetV4FlowMetricsEntry.addPortions_withBaseMap, portions, htaken]
    rfl
  · exact (or_iff_left fun h => hlist h.2).symm

theorem outcome_observation (h : Observation t s r.1 r.2 s') : ScanOutcome t [r] s s' := by
  cases h with
  | new b hnone hb =>
      refine outcome_merge ?_ ?_ ?_
      · rw [hb, hnone]
        rfl
      · rw [hnone]
        rfl
      · rintro ⟨e, he, -⟩
        rw [hnone] at he
        cases he
  | unchanged b e hval hsame hb =>
      refine outcome_singleton ?_ ⟨b, ?_⟩ fun K => ?_
      · rw [hb, hval, observed, if_pos hsame]
      · rw [portions, hval, taken, if_pos hsame]
        rfl
      · have hlisted : Listed s.metric r ↔ 3 ≤ e.agingCounter + 1 := by
          refine ⟨fun ⟨e', he', _, hdue⟩ => ?_, fun hdue => ⟨e, hval, hsame, hdue⟩⟩
          rw [hval] at he'
          exact Option.some.inj he' ▸ hdue
        rw [hlisted]
        split_ifs with hdue
        · rw [List.mem_append, List.mem_singleton, and_iff_left hdue, eq_comm (a := K)]
        · exact (or_iff_left fun h => hdue h.2).symm
  | changed b e hval hdiff hb =>
      refine outcome_merge ?_ ?_ ?_
      · rw [hb, hval, observed, if_neg hdiff]
      · rw [hval, taken, if_neg hdiff]
      · rintro ⟨e', he', hsame, -⟩
        rw [hval] at he'
        exact hdiff (Option.some.inj he' ▸ hsame)

/-- A report leaves what the others will be compared with, so they come out as they would have
without it. -/
theorem ScanOutcome.cons {s₁ : Scan} {rs : List (InetV4Flow × FlowStats)}
    (h₁ : ScanOutcome t [r] s s₁) (h : ScanOutcome t rs s₁ s') (hr : r.1 ∉ rs.map Prod.fst) :
    ScanOutcome t (r :: rs) s s' := by
  have hval : ∀ r' ∈ rs, s₁.metric.baseMap.val r'.1 = s.metric.baseMap.val r'.1 := by
    intro r' hr'
    refine h₁.kept r'.1 fun hmem => hr ?_
    rw [← (List.mem_singleton.mp hmem : r'.1 = r.1)]
    exact List.mem_map_of_mem hr'
  have hindex : s₁.metric.agent.toIndex = s.metric.agent.toIndex := by
    obtain ⟨b, hb⟩ := h₁.merged
    rw [hb]
    exact InetV4FlowMetricsEntry.index_addPortions ..
  have hportions : rs.flatMap (portions s₁.metric) = rs.flatMap (portions s.metric) :=
    List.flatMap_congr fun r' hr' => by rw [portions, portions, hval r' hr', hindex]
  have hlisted : ∀ r' ∈ rs, (Listed s₁.metric r' ↔ Listed s.metric r') := by
    intro r' hr'
    rw [Listed, Listed, hval r' hr']
  refine ⟨fun r' hr' => ?_, fun K hK => ?_, ?_, fun K => ?_⟩
  · rcases List.mem_cons.mp hr' with rfl | hmem
    · rw [h.kept r'.1 hr]
      exact h₁.observed r' (List.mem_singleton_self r')
    · rw [h.observed r' hmem, hval r' hmem]
  · rw [List.map_cons, List.mem_cons, not_or] at hK
    rw [h.kept K hK.2]
    exact h₁.kept K (by simpa using hK.1)
  · obtain ⟨b₁, hb₁⟩ := h₁.merged
    obtain ⟨b, hb⟩ := h.merged
    refine ⟨b, ?_⟩
    rw [hb, hportions, hb₁, InetV4FlowMetricsEntry.addPortions_withBaseMap, List.flatMap_singleton,
      List.flatMap_cons, InetV4FlowMetricsEntry.addPortions_append]
  · rw [h.listed, h₁.listed, or_assoc]
    refine or_congr_right ?_
    simp only [List.mem_cons, exists_eq_or_imp, List.not_mem_nil, or_false, exists_eq_left]
    refine or_congr_right (exists_congr fun r' => and_congr_right fun hr' => ?_)
    rw [hlisted r' hr']

/-- **A scan that reports each key once, in terms of the state before it.** -/
theorem outcome_scanFlows {reports : List (InetV4Flow × FlowStats)}
    (hnd : (reports.map Prod.fst).Nodup) : ScanOutcome t reports s (scanFlows t reports s) := by
  induction reports generalizing s with
  | nil =>
      refine ⟨fun r hr => absurd hr List.not_mem_nil, fun K _ => rfl, ⟨s.metric.baseMap, rfl⟩, ?_⟩
      exact fun K => (or_iff_left fun ⟨r, hr, _⟩ => List.not_mem_nil hr).symm
  | cons r rs ih =>
      rw [List.map_cons, List.nodup_cons] at hnd
      exact (outcome_observation (scanFlow_observes t s r.1 r.2)).cons (ih hnd.2) hnd.1

end ScanOutcome

/-! ## Any order -/

section Order

variable {t : Time} {reports reports' : List (InetV4Flow × FlowStats)} {s s₁ s₂ : Scan}

theorem ScanOutcome.baseMap_perm (hp : reports.Perm reports') (h : ScanOutcome t reports s s₁)
    (h' : ScanOutcome t reports' s s₂) : s₁.metric.baseMap.val = s₂.metric.baseMap.val := by
  funext K
  by_cases hK : K ∈ reports.map Prod.fst
  · obtain ⟨r, hr, rfl⟩ := List.mem_map.mp hK
    rw [h.observed r hr, h'.observed r (hp.mem_iff.mp hr)]
  · rw [h.kept K hK, h'.kept K fun hK' => hK ((hp.map Prod.fst).mem_iff.mpr hK')]

theorem ScanOutcome.listed_perm (hp : reports.Perm reports') (h : ScanOutcome t reports s s₁)
    (h' : ScanOutcome t reports' s s₂) (K : InetV4Flow) :
    K ∈ s₁.toDeleteList ↔ K ∈ s₂.toDeleteList := by
  rw [h.listed, h'.listed]
  refine or_congr_right (exists_congr fun r => and_congr_left fun _ => hp.mem_iff)

/-- **The aggregates of a scan do not depend on the order of its reports.** -/
theorem ScanOutcome.merged_perm (hp : reports.Perm reports') (h : ScanOutcome t reports s s₁)
    (h' : ScanOutcome t reports' s s₂) : SameAggregates s₁.metric s₂.metric := by
  have hone : ∀ p ∈ reports.flatMap (portions s.metric), p.share.OneEnded := by
    intro p hmem
    obtain ⟨r, -, hr⟩ := List.mem_flatMap.mp hmem
    exact oneEnded_of_mem_portions hr
  have hsame : SameAggregates
      (s.metric.addPortions t (reports.flatMap (portions s.metric)))
      (s.metric.addPortions t (reports'.flatMap (portions s.metric))) := by
    refine foldl_perm_rel sameAggregates_equivalence (hp.flatMap_right _) ?_ ?_ s.metric
    · exact fun p hmem _ _ hrel => hrel.addPortion (hone p hmem)
    · exact fun p hmem q hmem' _ => sameAggregates_swap (hone p hmem) (hone q hmem')
  obtain ⟨b, hb⟩ := h.merged
  obtain ⟨b', hb'⟩ := h'.merged
  rw [hb, hb']
  refine ⟨hsame.index, fun T => ?_, hsame.series⟩
  have htable := hsame.tables T
  rw [← table_withBaseMap _ b, ← table_withBaseMap _ b'] at htable
  exact htable

end Order

/--
**A scan does not depend on the order in which its entries come.**

From any state of the agent and under any indexes, two scans at the same time of
the same entries, each key once, delivered in any two orders, with the aggregate
tables walked in any two orders: they leave the same tables, list the same keys
for deletion, and leave the same values in all series of pods and services.
-/
theorem scan_any_order (w : AgentWorld) (input input' : ScanInput) (ht : input.t = input'.t)
    (hperm : input.reports.Perm input'.reports) (hnd : (input.reports.map Prod.fst).Nodup)
    (horder : input.OrdersOf (w.scanned input).metric)
    (horder' : input'.OrdersOf (w.scanned input').metric) :
    let out := finishScan input (w.scanned input)
    let out' := finishScan input' (w.scanned input')
    out.1.baseMap.val = out'.1.baseMap.val ∧
    (∀ T, (out.1.table T).val = (out'.1.table T).val) ∧
    (∀ K, K ∈ out.2.toDeleteList ↔ K ∈ out'.2.toDeleteList) ∧
    (∀ T k, k ∈ out.2.listOf T ↔ k ∈ out'.2.listOf T) ∧
    (∀ ser : Series, ser.subsystem = "pod_stats" ∨ ser.subsystem = "svc_stats" →
      out.1.agent.gauges.lookup ser = out'.1.agent.gauges.lookup ser) := by
  have hnd' : (input'.reports.map Prod.fst).Nodup := (hperm.map Prod.fst).nodup_iff.mp hnd
  let s : Scan := { metric := w.metric, toDeleteList := [], trace := w.trace }
  have h : ScanOutcome input.t input.reports s (w.scanned input) := outcome_scanFlows hnd
  have h' : ScanOutcome input.t input'.reports s (w.scanned input') := by
    rw [ht]
    exact outcome_scanFlows hnd'
  have hsame := h.merged_perm hperm h'
  refine ⟨h.baseMap_perm hperm h', fun T => ?_, h.listed_perm hperm h', fun T k => ?_,
    fun ser hser => hsame.series ser ?_⟩
  · funext k
    rw [val_finishScan horder, val_finishScan horder', hsame.tables, ht]
  · rw [mem_finishScan horder, mem_finishScan horder', hsame.tables, ht]
  · rcases hser with hser | hser
    · rw [hser]
      decide
    · rw [hser]
      decide

/-- The two entries of `bothWays`, the other one first. -/
def bothWaysReversed : ScanInput :=
  { bothWays with reports := bothWays.reports.reverse, knownOrder := bothWays.knownOrder.reverse }

theorem scan_any_order_both_ways :
    let ser : Series :=
      ⟨"pod_stats", "pod_tx_bytes", [("pod_namespace", "default"), ("pod_name", "client")]⟩
    let w := freshAgent clientIndex
    (finishScan bothWays (w.scanned bothWays)).1.agent.gauges.lookup ser = some 60 ∧
      (finishScan bothWays (w.scanned bothWays)).1.agent.gauges.lookup ser
        = (finishScan bothWaysReversed (w.scanned bothWaysReversed)).1.agent.gauges.lookup ser :=
  ⟨by decide, (scan_any_order (freshAgent clientIndex) bothWays bothWaysReversed rfl (by decide)
    (by decide) (by decide) (by decide)).2.2.2.2 _ (Or.inl rfl)⟩

end Kubpf.Agent
