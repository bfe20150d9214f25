import Kubpf.Agent.DueLists

/-!
# What an eviction finds

A scan lists what has been idle for three scans; the eviction removes what is on
the list, whenever it gets the lock. Nothing makes it look again. In between,
further scans may have found traffic for what is listed, or have entered it anew
after another eviction had removed it, or have found it idle so often that its
counter started again at zero.

Those are the only ways (`onlyIdle_scan_iff`). A list is right when it is made
(`onlyIdle_listed`), evictions and informers change no counter, and a scan that
spares the list (`SparesList`) leaves it right.
-/

namespace Kubpf.Agent

open Lib

/-- Every entry the step removes has been aged to 3 at least. The loops visit the keys of the
lists one by one, and none of the removals touches another entry. -/
def EvictsAged (w : AgentWorld) : AgentLabel → Prop
  | .evict n false =>
    ∀ ev ∈ w.pending[n]?,
      (∀ K ∈ ev.toDeleteList, ∀ e ∈ w.metric.baseMap.val K, 3 ≤ e.agingCounter) ∧
      ∀ T, ∀ k ∈ ev.listOf T, ∀ a ∈ (w.metric.table T).val k, 3 ≤ a.agingCounter
  | _ => True

/-! ## An eviction that waits -/

/-- The scan found traffic of the flow: other counters than the stored ones, or none stored. -/
def PastScan.Finds (K : InetV4Flow) (sc : PastScan) : Prop :=
  ∃ v, (K, v) ∈ sc.input.reports ∧ Merges sc.agent.metric (K, v)

/-- An eviction that has not run, and the scans since the one that listed it, newest first. -/
structure Waiting where
  eviction : Eviction
  since : List PastScan

/-- One more scan has gone by. -/
def Waiting.after (q : Waiting) (now : PastScan) : Waiting where
  eviction := q.eviction
  since := now :: q.since

/-- None of the scans since found traffic for what is on the lists and still there. -/
structure NoneSince (metric : InetV4FlowMetricsEntry) (q : Waiting) : Prop where
  flows : ∀ K ∈ q.eviction.toDeleteList, (metric.baseMap.val K).isSome →
    ∀ sc ∈ q.since, ¬ sc.Finds K
  entries : ∀ T, ∀ k ∈ q.eviction.listOf T, ((metric.table T).val k).isSome →
    ∀ sc ∈ q.since, sc.Skips T k

/-- If the eviction ran now it would remove only aged entries, and none that a scan has found
traffic for since. -/
structure OnlyIdle (metric : InetV4FlowMetricsEntry) (q : Waiting) : Prop where
  flows : ∀ K ∈ q.eviction.toDeleteList, ∀ e ∈ metric.baseMap.val K, 3 ≤ e.agingCounter
  entries : ∀ T, ∀ k ∈ q.eviction.listOf T, ∀ a ∈ (metric.table T).val k, 3 ≤ a.agingCounter
  since : NoneSince metric q

/-- The scan `now`, the latest after `past`, finds no traffic for what is on the lists, and no idle
streak there comes to 256 scans, or to a multiple of that. -/
structure SparesList (past : List PastScan) (now : PastScan) (ev : Eviction) : Prop where
  flows : ∀ K ∈ ev.toDeleteList, ¬ now.Finds K ∧
    (now.Idle K → ¬ 256 ∣ streak (PastScan.Idle K) (now :: past))
  /-- Of an aggregate, only the scans count that read another clock than the merge did. -/
  entries : ∀ T, ∀ k ∈ ev.listOf T, now.Skips T k ∧
    (((now.agent.metric.table T).val k).isSome → ∀ idle src, LastFed (now :: past) T k idle src →
      ¬ 256 ∣ idle.countP fun sc => sc.input.t ≠ src.input.t)

/-! ## The counter of eight bits -/

/-- A counter that has gone round looks young. -/
theorem not_three_le_of_dvd {n : Nat} (h : 256 ∣ n) : ¬ 3 ≤ UInt8.ofNat n := by
  rw [three_le_ofNat, Nat.mod_eq_zero_of_dvd h]
  omega

/-- One scan more leaves it aged unless it goes round. -/
theorem three_le_ofNat_succ {n : Nat} (h : 3 ≤ UInt8.ofNat n) (hlt : ¬ 256 ∣ n + 1) :
    3 ≤ UInt8.ofNat (n + 1) := by
  rw [three_le_ofNat] at h ⊢
  omega

theorem not_three_le_of_zero {e : FlowStatsEntry} (h : e.agingCounter = 0) :
    ¬ 3 ≤ e.agingCounter := by
  rw [h]
  exact not_three_le_of_dvd (Nat.dvd_zero 256)

/-! ## What a scan does to the lists that wait -/

section OneScan

variable {past : List PastScan} {w : AgentWorld} {input : ScanInput} {q : Waiting}

/-- What is reported once, and found neither new nor changed, is idle. -/
theorem idle_of_not_finds {K : InetV4Flow} (hK : K ∈ input.reports.map Prod.fst)
    (h : ¬ (PastScan.mk w input).Finds K) : (PastScan.mk w input).Idle K := by
  obtain ⟨⟨K', v⟩, hr, rfl⟩ := List.mem_map.mp hK
  have hnot : ¬ Merges w.metric (K', v) := fun hm => h ⟨v, hr, hm⟩
  unfold Merges at hnot
  push Not at hnot
  obtain ⟨e, he, rfl⟩ := hnot
  exact ⟨e, he, hr⟩

/-- A flow that a scan finds traffic for is young after it. -/
theorem young_of_finds (hnd : (input.reports.map Prod.fst).Nodup) {K : InetV4Flow}
    (h : (PastScan.mk w input).Finds K) :
    ∃ e, (w.scanned input).metric.baseMap.val K = some e ∧ e.agingCounter = 0 := by
  obtain ⟨v, hr, hmerges⟩ := h
  have hout := @outcome_scanFlows input.t ⟨w.metric, [], w.trace⟩ input.reports hnd
  refine ⟨_, hout.observed _ hr, ?_⟩
  cases he : w.metric.baseMap.val K with
  | none => rfl
  | some e =>
      rw [observed, if_neg (hmerges e he)]

/-- So is an aggregate that it merges into. -/
theorem young_of_fed (hnd : (input.reports.map Prod.fst).Nodup)
    (horder : input.OrdersOf (w.scanned input).metric) {T : Table} {k : PodStatsKey}
    (h : ¬ (PastScan.mk w input).Skips T k) :
    ∃ a, ((finishScan input (w.scanned input)).1.table T).val k = some a ∧ a.agingCounter = 0 := by
  obtain ⟨a, ha, hage, hts⟩ := (val_table_scanned hnd T k).1 h
  refine ⟨a, ?_, hage⟩
  rw [val_finishScan horder, ha, Option.map_some, FlowStatsEntry.aged, if_neg (not_not.mpr hts)]

/-- A flow that is there after a scan, and had no traffic, was found idle. -/
theorem idle_of_stored (honce : (PastScan.mk w input).EachOnce) {K : InetV4Flow}
    (h : ¬ (PastScan.mk w input).Finds K)
    (hK : ((w.scanned input).metric.baseMap.val K).isSome) : (PastScan.mk w input).Idle K := by
  refine idle_of_not_finds ?_ h
  by_contra hnot
  have hout := @outcome_scanFlows input.t ⟨w.metric, [], w.trace⟩ input.reports honce.1
  -- no report enters the flow, so it was there, and no flow of `baseMap` goes unreported
  have hkept : (w.scanned input).metric.baseMap.val K = w.metric.baseMap.val K := hout.kept K hnot
  rw [hkept] at hK
  exact hnot (honce.2 K (PtrMap.mem_keys.mpr hK))

/-- What a scan lists it leaves aged. -/
theorem onlyIdle_listed (h : Aged past w.metric) (honce : (PastScan.mk w input).EachOnce)
    (horder : input.OrdersOf (w.scanned input).metric) :
    OnlyIdle (finishScan input (w.scanned input)).1 ⟨(PastScan.mk w input).lists, []⟩ where
  flows := by
    intro K hK e he
    obtain ⟨-, hdue⟩ := (mem_toDeleteList_iff h honce.1 K).mp hK
    rw [(aged_scan h honce horder).flow K e he]
    exact (three_le_ofNat _).mpr hdue
  entries := by
    intro T k hk a ha
    obtain ⟨a', ha', hts, hdue⟩ := (mem_finishScan horder T k).mp hk
    have haged := (val_finishScan horder T k).symm.trans ha
    rw [ha', Option.map_some, FlowStatsEntry.aged, if_pos hts] at haged
    rw [← Option.some.inj haged]
    exact hdue
  since := ⟨fun _ _ _ _ hsc => absurd hsc List.not_mem_nil,
    fun _ _ _ _ _ hsc => absurd hsc List.not_mem_nil⟩

/-- A scan that spares a list leaves its flows aged, and those are the flows that were there. -/
theorem onlyIdle_flow (h : Aged past w.metric) (honce : (PastScan.mk w input).EachOnce)
    (horder : input.OrdersOf (w.scanned input).metric) (hq : OnlyIdle w.metric q)
    (hspares : SparesList past ⟨w, input⟩ q.eviction) {K : InetV4Flow}
    (hK : K ∈ q.eviction.toDeleteList) {e : FlowStatsEntry}
    (he : (finishScan input (w.scanned input)).1.baseMap.val K = some e) :
    3 ≤ e.agingCounter ∧ (w.metric.baseMap.val K).isSome := by
  obtain ⟨hfinds, hrange⟩ := hspares.flows K hK
  have hidle := idle_of_stored honce hfinds (Option.isSome_of_eq_some he)
  have hlt := hrange hidle
  rw [(aged_scan h honce horder).flow K e he]
  rw [streak_cons_of_pos hidle] at hlt ⊢
  obtain ⟨e', he', -⟩ := hidle
  -- one more than it was, and not around
  have hold := hq.flows K hK e' he'
  rw [h.flow K e' he'] at hold
  exact ⟨three_le_ofNat_succ hold hlt, Option.isSome_of_eq_some he'⟩

theorem onlyIdle_entry (h : Aged past w.metric) (honce : (PastScan.mk w input).EachOnce)
    (horder : input.OrdersOf (w.scanned input).metric) (hq : OnlyIdle w.metric q)
    (hspares : SparesList past ⟨w, input⟩ q.eviction) {T : Table} {k : PodStatsKey}
    (hk : k ∈ q.eviction.listOf T) {a : FlowStatsEntry}
    (ha : ((finishScan input (w.scanned input)).1.table T).val k = some a) :
    3 ≤ a.agingCounter ∧ ((w.metric.table T).val k).isSome := by
  obtain ⟨hskip, hrange⟩ := hspares.entries T k hk
  rw [val_finishScan horder, (val_table_scanned honce.1 T k).2 hskip] at ha
  obtain ⟨a', ha', rfl⟩ := Option.map_eq_some_iff.mp ha
  have hsome := Option.isSome_of_eq_some ha'
  refine ⟨?_, hsome⟩
  obtain ⟨idle, src, hlast, hts, hage⟩ := h.entry T k a' ha'
  have hlt := hrange hsome _ src (hlast.cons hskip)
  have hold := hq.entries T k hk a' ha'
  rw [FlowStatsEntry.aged, hts]
  by_cases ht : input.t = src.input.t
  · rw [if_neg (not_not.mpr ht.symm)]
    exact hold
  · rw [if_pos (Ne.symm ht)]
    dsimp only
    rw [hage] at hold
    rw [List.countP_cons_of_pos (by simpa using ht)] at hlt
    rw [hage, show (1 : UInt8) = UInt8.ofNat 1 from rfl, ← UInt8.ofNat_add]
    exact three_le_ofNat_succ hold hlt

/-- A list that is right after a scan has been spared. -/
theorem sparesList_of_onlyIdle (h : Aged past w.metric) (honce : (PastScan.mk w input).EachOnce)
    (horder : input.OrdersOf (w.scanned input).metric)
    (hafter : OnlyIdle (finishScan input (w.scanned input)).1 (q.after ⟨w, input⟩)) :
    SparesList past ⟨w, input⟩ q.eviction := by
  have haged := aged_scan h honce horder
  have hskips : ∀ T, ∀ k ∈ q.eviction.listOf T, (PastScan.mk w input).Skips T k := by
    intro T k hk
    by_contra hfed
    obtain ⟨a, ha, hage⟩ := young_of_fed honce.1 horder hfed
    exact not_three_le_of_zero hage (hafter.entries T k hk a ha)
  refine ⟨fun K hK => ⟨fun hfinds => ?_, fun hidle hdvd => ?_⟩,
    fun T k hk => ⟨hskips T k hk, fun hsome idle src hlast hdvd => ?_⟩⟩
  · obtain ⟨e, he, hage⟩ := young_of_finds honce.1 hfinds
    exact not_three_le_of_zero hage (hafter.flows K hK e he)
  · -- a streak of 256 shows as none
    obtain ⟨e, -, hr⟩ := hidle
    have hout := @outcome_scanFlows input.t ⟨w.metric, [], w.trace⟩ input.reports honce.1
    have he := hout.observed _ hr
    have hthree := hafter.flows K hK _ he
    rw [haged.flow K _ he] at hthree
    exact not_three_le_of_dvd hdvd hthree
  · obtain ⟨a, ha⟩ := Option.isSome_iff_exists.mp hsome
    have hval := val_finishScan horder T k
    rw [(val_table_scanned honce.1 T k).2 (hskips T k hk)] at hval
    dsimp only at ha
    rw [ha, Option.map_some] at hval
    have hthree := hafter.entries T k hk _ hval
    obtain ⟨idle', src', hlast', -, hage⟩ := haged.entry T k _ hval
    obtain ⟨rfl, rfl⟩ := hlast.unique hlast'
    rw [hage] at hthree
    exact not_three_le_of_dvd hdvd hthree

/-- **A scan leaves a list right exactly if it spares it.** -/
theorem onlyIdle_scan_iff (h : Aged past w.metric) (honce : (PastScan.mk w input).EachOnce)
    (horder : input.OrdersOf (w.scanned input).metric) (hq : OnlyIdle w.metric q) :
    OnlyIdle (finishScan input (w.scanned input)).1 (q.after ⟨w, input⟩)
      ↔ SparesList past ⟨w, input⟩ q.eviction := by
  refine ⟨sparesList_of_onlyIdle h honce horder, fun hspares => ?_⟩
  refine ⟨fun K hK e he => (onlyIdle_flow h honce horder hq hspares hK he).1,
    fun T k hk a ha => (onlyIdle_entry h honce horder hq hspares hk ha).1, ?_, ?_⟩
  · intro K hK hsome sc hsc
    obtain ⟨e, he⟩ := Option.isSome_iff_exists.mp hsome
    rcases List.mem_cons.mp hsc with rfl | hsc
    · exact (hspares.flows K hK).1
    · exact hq.since.flows K hK (onlyIdle_flow h honce horder hq hspares hK he).2 sc hsc
  · intro T k hk hsome sc hsc
    obtain ⟨a, ha⟩ := Option.isSome_iff_exists.mp hsome
    rcases List.mem_cons.mp hsc with rfl | hsc
    · exact (hspares.entries T k hk).1
    · exact hq.since.entries T k hk (onlyIdle_entry h honce horder hq hspares hk ha).2 sc hsc

end OneScan

/-! ## Between scans -/

/-- Removing entries leaves the counters of the others. -/
theorem onlyIdle_evict {metric : InetV4FlowMetricsEntry} {q : Waiting} (h : OnlyIdle metric q)
    (ev : Eviction) : OnlyIdle (evictEntries ev metric) q where
  flows := fun K hK e he => h.flows K hK e (baseMap_evictEntries_eq_some.mp he).2
  entries := fun T k hk a ha => h.entries T k hk a (table_evictEntries_eq_some.mp ha).2
  since := by
    refine ⟨fun K hK hsome => h.since.flows K hK ?_, fun T k hk hsome => h.since.entries T k hk ?_⟩
    · obtain ⟨e, he⟩ := Option.isSome_iff_exists.mp hsome
      exact Option.isSome_of_eq_some (baseMap_evictEntries_eq_some.mp he).2
    · obtain ⟨a, ha⟩ := Option.isSome_iff_exists.mp hsome
      exact Option.isSome_of_eq_some (table_evictEntries_eq_some.mp ha).2

theorem onlyIdle_withAgent {metric : InetV4FlowMetricsEntry} {q : Waiting} (h : OnlyIdle metric q)
    (agent : StatsAgent) : OnlyIdle { metric with agent := agent } q where
  flows := h.flows
  entries := by
    intro T k hk a ha
    rw [table_withAgent] at ha
    exact h.entries T k hk a ha
  since := by
    refine ⟨h.since.flows, fun T k hk hsome => h.since.entries T k hk ?_⟩
    rw [table_withAgent] at hsome
    exact hsome

/-- The fourth scan lists the flow, the fifth finds another answer, and the eviction of the fourth
removes it. -/
theorem late_eviction_removes_busy :
    ∃ w, run AgentWorld.step (freshAgent Index.empty)
        [scanOne 1 answerFlow ⟨92, 1, 0, 0⟩, scanOne 2 answerFlow ⟨92, 1, 0, 0⟩,
          scanOne 3 answerFlow ⟨92, 1, 0, 0⟩, scanOne 4 answerFlow ⟨92, 1, 0, 0⟩,
          scanOne 5 answerFlow ⟨184, 2, 0, 0⟩] = some w ∧
      (w.pending[3]?).map Eviction.toDeleteList = some [answerFlow] ∧
      (w.metric.baseMap.val answerFlow).map FlowStatsEntry.agingCounter = some 0 ∧
      (w.step (.evict 3 false)).isSome ∧ ¬ EvictsAged w (.evict 3 false) := by
  refine ⟨_, rfl, by decide, by decide, by decide, fun h => ?_⟩
  exact absurd ((h _ rfl).1 answerFlow (by decide) _ rfl) (by decide)

end Kubpf.Agent
