import Kubpf.Lib.Streak
import Kubpf.Agent.ScanOrder

/-!
# What is due

A scan lists what has been idle for three scans: this one and the two before it.
It does not know the scans before it. Each entry carries its idle scans in a
counter of eight bits, which four loops increment and traffic resets.

Here the counters are read against the scans themselves (`PastScan`). As long as a
scan reports every flow of `baseMap`, and each flow once, a flow's counter is the
number of scans in a row that found it idle, and an aggregate's the number of
those since it was last merged into (`Aged`), both in eight bits. So the lists are
right exactly until one of these numbers reaches 256, where the counter starts
again at zero and an entry that was due no longer is (`dueExactly_iff`).

For aggregates there is one thing more. They age when their timestamp is not the
scan's, so a scan that reads the clock as an earlier one did takes what that one
merged for its own.
-/

namespace Kubpf.Agent

open Lib

/-! ## Scans of the past -/

/-- A scan, and the agent as it found it. -/
structure PastScan where
  agent : AgentWorld
  input : ScanInput

namespace PastScan

/-- The lists the scan leaves for its eviction. -/
def lists (sc : PastScan) : Eviction := (finishScan sc.input (sc.agent.scanned sc.input)).2

/-- The scan found the flow's counters equal to the stored ones. -/
def Idle (K : InetV4Flow) (sc : PastScan) : Prop :=
  ∃ e ∈ sc.agent.metric.baseMap.val K, (K, e.stats) ∈ sc.input.reports

/-- The scan merged no flow into the aggregate. -/
def Skips (T : Table) (k : PodStatsKey) (sc : PastScan) : Prop :=
  ¬ Fed sc.agent.metric sc.input.reports T k

/-- Each flow of `baseMap` was reported to the scan, and no flow twice. -/
def EachOnce (sc : PastScan) : Prop :=
  (sc.input.reports.map Prod.fst).Nodup ∧ ReportsTracked sc.agent sc.input

end PastScan

instance (metric : InetV4FlowMetricsEntry) (r : InetV4Flow × FlowStats) :
    Decidable (Merges metric r) :=
  inferInstanceAs (Decidable (∀ e ∈ metric.baseMap.val r.1, e.stats ≠ r.2))

instance (metric : InetV4FlowMetricsEntry) (reports : List (InetV4Flow × FlowStats)) (T : Table)
    (k : PodStatsKey) : Decidable (Fed metric reports T k) :=
  inferInstanceAs (Decidable (∃ r ∈ reports, Merges metric r ∧
    ∃ sh ∈ flowShares metric.agent.toIndex r.1, sh.table = T ∧ sh.key = k))

instance (K : InetV4Flow) : DecidablePred (PastScan.Idle K) := fun sc =>
  inferInstanceAs (Decidable (∃ e ∈ sc.agent.metric.baseMap.val K, (K, e.stats) ∈ sc.input.reports))

instance (T : Table) (k : PodStatsKey) : DecidablePred (PastScan.Skips T k) := fun sc =>
  inferInstanceAs (Decidable (¬ Fed sc.agent.metric sc.input.reports T k))

/-! ## What should be due -/

/-- The scan `now`, the latest after `past`, lists the flows that it and at least the two scans
before it found idle, and the aggregates that it and at least the two before it did not merge
into. -/
structure DueExactly (past : List PastScan) (now : PastScan) : Prop where
  flows : ∀ K, K ∈ now.lists.toDeleteList ↔ 3 ≤ streak (PastScan.Idle K) (now :: past)
  entries : ∀ T k, k ∈ now.lists.listOf T ↔
    ((now.agent.metric.table T).val k).isSome ∧ 3 ≤ streak (PastScan.Skips T k) (now :: past)

/-- Whatever the scan before listed is listed again, unless it has changed or is gone. -/
structure StaysDue (past : List PastScan) (now : PastScan) : Prop where
  flows : ∀ last ∈ past.head?, ∀ K ∈ last.lists.toDeleteList, now.Idle K →
    K ∈ now.lists.toDeleteList
  entries : ∀ last ∈ past.head?, ∀ T, ∀ k ∈ last.lists.listOf T,
    ((now.agent.metric.table T).val k).isSome → now.Skips T k → k ∈ now.lists.listOf T

/-- The aggregate was last merged into by `src`, and the scans `idle` have come since. -/
def LastFed (scans : List PastScan) (T : Table) (k : PodStatsKey) (idle : List PastScan)
    (src : PastScan) : Prop :=
  ∃ older, scans = idle ++ src :: older ∧ (∀ sc ∈ idle, sc.Skips T k) ∧ ¬ src.Skips T k

/-- Fewer than 256 scans have come since the aggregate was last merged into, and if it is three or
more, none of them read the clock as that merge did. -/
def Countable (scans : List PastScan) (T : Table) (k : PodStatsKey) : Prop :=
  ∀ idle src, LastFed scans T k idle src →
    idle.length < 256 ∧ (3 ≤ idle.length → ∀ sc ∈ idle, sc.input.t ≠ src.input.t)

/-- No flow has been idle for 256 scans in a row, and every aggregate's idle scans can be told. -/
structure InRange (past : List PastScan) (now : PastScan) : Prop where
  flows : ∀ K, streak (PastScan.Idle K) (now :: past) < 256
  entries : ∀ T k, ((now.agent.metric.table T).val k).isSome → Countable (now :: past) T k

/-! ## What a scan leaves -/

section Scanned

variable {w : AgentWorld} {input : ScanInput}

/-- A flow that is reported once is idle if it is reported as stored. -/
theorem idle_iff (hnd : (input.reports.map Prod.fst).Nodup) {K : InetV4Flow} {v : FlowStats}
    (hr : (K, v) ∈ input.reports) :
    (PastScan.mk w input).Idle K ↔ ∃ e, w.metric.baseMap.val K = some e ∧ e.stats = v := by
  refine exists_congr fun e => and_congr_right fun _ => ⟨fun he => ?_, fun he => he ▸ hr⟩
  have hsame : (K, e.stats) = (K, v) := List.inj_on_of_nodup_map hnd he hr rfl
  exact congrArg Prod.snd hsame

/-- A scan lists a flow if it finds it idle and counts to three. -/
theorem mem_toDeleteList_scanned (hnd : (input.reports.map Prod.fst).Nodup) (K : InetV4Flow) :
    K ∈ (PastScan.mk w input).lists.toDeleteList
      ↔ ∃ e, w.metric.baseMap.val K = some e ∧ (K, e.stats) ∈ input.reports ∧
        3 ≤ e.agingCounter + 1 := by
  have hout := @outcome_scanFlows input.t ⟨w.metric, [], w.trace⟩ input.reports hnd
  refine (hout.listed K).trans ?_
  rw [or_iff_right List.not_mem_nil]
  constructor
  · rintro ⟨r, hr, rfl, e, he, hsame, hdue⟩
    exact ⟨e, he, by rw [hsame]; exact hr, hdue⟩
  · rintro ⟨e, he, hr, hdue⟩
    exact ⟨(K, e.stats), hr, rfl, e, he, rfl, hdue⟩

/-- A flow that is fed is among those that make portions. -/
theorem fed_iff_portions {metric : InetV4FlowMetricsEntry}
    {reports : List (InetV4Flow × FlowStats)} {T : Table} {k : PodStatsKey} :
    Fed metric reports T k
      ↔ ∃ p ∈ reports.flatMap (portions metric), p.share.table = T ∧ p.share.key = k := by
  have hone : ∀ r : InetV4Flow × FlowStats,
      (∃ p ∈ portions metric r, p.share.table = T ∧ p.share.key = k) ↔ Merges metric r ∧
        ∃ sh ∈ flowShares metric.agent.toIndex r.1, sh.table = T ∧ sh.key = k := by
    intro r
    unfold portions Merges taken
    cases hval : metric.baseMap.val r.1 with
    | none => simp
    | some e =>
        by_cases hsame : e.stats = r.2
        · simp [hsame]
        · simp [hsame]
  unfold Fed
  simp only [List.mem_flatMap]
  constructor
  · rintro ⟨r, hr, hmerges⟩
    obtain ⟨p, hp, hshare⟩ := (hone r).mpr hmerges
    exact ⟨p, ⟨r, hr, hp⟩, hshare⟩
  · rintro ⟨p, ⟨r, hr, hp⟩, hshare⟩
    exact ⟨r, hr, (hone r).mp ⟨p, hp, hshare⟩⟩

/-- Handing out portions makes an entry young that gets one, and leaves the others. -/
theorem val_addPortions (t : Time) (metric : InetV4FlowMetricsEntry) (l : List Portion) (T : Table)
    (k : PodStatsKey) :
    ((∃ p ∈ l, p.share.table = T ∧ p.share.key = k) →
      ∃ a, ((metric.addPortions t l).table T).val k = some a ∧ a.agingCounter = 0 ∧
        a.timeStamp = t) ∧
    ((¬ ∃ p ∈ l, p.share.table = T ∧ p.share.key = k) →
      ((metric.addPortions t l).table T).val k = (metric.table T).val k) := by
  induction l using List.reverseRecOn with
  | nil => exact ⟨fun ⟨p, hp, _⟩ => absurd hp List.not_mem_nil, fun _ => rfl⟩
  | append_singleton l p ih =>
      have hval : ((metric.addPortions t (l ++ [p])).table T).val k
          = if p.share.table = T ∧ p.share.key = k then
              some (((((metric.addPortions t l).table T).val k).getD default).add p.amount t)
            else ((metric.addPortions t l).table T).val k := by
        rw [InetV4FlowMetricsEntry.addPortions_append]
        exact InetV4FlowMetricsEntry.val_table_addTo ..
      rw [hval]
      by_cases hp : p.share.table = T ∧ p.share.key = k
      · rw [if_pos hp]
        exact ⟨fun _ => ⟨_, rfl, rfl, rfl⟩, fun hnot => absurd ⟨p, by simp, hp⟩ hnot⟩
      · rw [if_neg hp]
        refine ⟨fun ⟨q, hq, hshare⟩ => ih.1 ⟨q, ?_, hshare⟩, fun hnot => ih.2 ?_⟩
        · rcases List.mem_append.mp hq with hq | hq
          · exact hq
          · rw [List.mem_singleton.mp hq] at hshare
            exact absurd hshare hp
        · exact fun ⟨q, hq, hshare⟩ => hnot ⟨q, List.mem_append_left _ hq, hshare⟩

/-- **An aggregate is young after a scan that merges into it, and as it was after any other.** -/
theorem val_table_scanned (hnd : (input.reports.map Prod.fst).Nodup) (T : Table) (k : PodStatsKey) :
    (¬ (PastScan.mk w input).Skips T k →
      ∃ a, ((w.scanned input).metric.table T).val k = some a ∧ a.agingCounter = 0 ∧
        a.timeStamp = input.t) ∧
    ((PastScan.mk w input).Skips T k →
      ((w.scanned input).metric.table T).val k = (w.metric.table T).val k) := by
  have hout := @outcome_scanFlows input.t ⟨w.metric, [], w.trace⟩ input.reports hnd
  obtain ⟨b, hb⟩ := hout.merged
  have hval := val_addPortions input.t w.metric (input.reports.flatMap (portions w.metric)) T k
  rw [← fed_iff_portions] at hval
  unfold PastScan.Skips AgentWorld.scanned
  rw [hb, table_withBaseMap, not_not]
  exact hval

end Scanned

/-! ## When an aggregate was last merged into -/

section LastFed

variable {past : List PastScan} {now : PastScan} {T : Table} {k : PodStatsKey}
  {idle idle' : List PastScan} {src src' : PastScan}

theorem LastFed.streak_eq (h : LastFed past T k idle src) :
    streak (PastScan.Skips T k) past = idle.length := by
  obtain ⟨older, rfl, hidle, hsrc⟩ := h
  exact streak_append_cons hidle hsrc

theorem LastFed.unique (h : LastFed past T k idle src) (h' : LastFed past T k idle' src') :
    idle = idle' ∧ src = src' := by
  have hlen : idle.length = idle'.length := h.streak_eq.symm.trans h'.streak_eq
  obtain ⟨older, hpast, -, -⟩ := h
  obtain ⟨older', hpast', -, -⟩ := h'
  obtain ⟨hidle, hrest⟩ := List.append_inj (hpast.symm.trans hpast') hlen
  exact ⟨hidle, (List.cons.inj hrest).1⟩

theorem LastFed.cons (h : LastFed past T k idle src) (hskip : now.Skips T k) :
    LastFed (now :: past) T k (now :: idle) src := by
  obtain ⟨older, rfl, hidle, hsrc⟩ := h
  exact ⟨older, rfl, List.forall_mem_cons.mpr ⟨hskip, hidle⟩, hsrc⟩

theorem lastFed_self (h : ¬ now.Skips T k) : LastFed (now :: past) T k [] now :=
  ⟨past, rfl, fun _ hsc => absurd hsc List.not_mem_nil, h⟩

theorem LastFed.countable_iff (h : LastFed past T k idle src) :
    Countable past T k
      ↔ idle.length < 256 ∧ (3 ≤ idle.length → ∀ sc ∈ idle, sc.input.t ≠ src.input.t) := by
  refine ⟨fun hall => hall idle src h, fun hone idle' src' h' => ?_⟩
  obtain ⟨rfl, rfl⟩ := h.unique h'
  exact hone

/-- An aggregate just merged into has been idle for no scan yet. -/
theorem countable_self (h : ¬ now.Skips T k) : Countable (now :: past) T k :=
  (lastFed_self h).countable_iff.mpr
    ⟨by decide, fun _ _ hsc => absurd hsc List.not_mem_nil⟩

end LastFed

/-! ## The counters, read against the scans -/

theorem three_le_ofNat (n : Nat) : 3 ≤ UInt8.ofNat n ↔ 3 ≤ n % 256 := by
  rw [UInt8.le_iff_toNat_le, UInt8.toNat_ofNat']
  rfl

/-- Every counter is a number of scans in a row, in eight bits. -/
structure Aged (past : List PastScan) (metric : InetV4FlowMetricsEntry) : Prop where
  /-- A flow counts the scans that found it idle. -/
  flow : ∀ K e, metric.baseMap.val K = some e →
    e.agingCounter = UInt8.ofNat (streak (PastScan.Idle K) past)
  /-- An aggregate counts those since it was merged into, but for any that read the same clock. -/
  entry : ∀ T k a, (metric.table T).val k = some a → ∃ idle src, LastFed past T k idle src ∧
    a.timeStamp = src.input.t ∧
    a.agingCounter = UInt8.ofNat (idle.countP fun sc => sc.input.t ≠ src.input.t)

/-- None of these numbers has reached 256. -/
structure KeptInRange (past : List PastScan) (metric : InetV4FlowMetricsEntry) : Prop where
  flows : ∀ K, (metric.baseMap.val K).isSome → streak (PastScan.Idle K) past < 256
  entries : ∀ T k, ((metric.table T).val k).isSome → Countable past T k

section OneScan

variable {past : List PastScan} {w : AgentWorld} {input : ScanInput}

/-- **A scan keeps the counters.** -/
theorem aged_scan (h : Aged past w.metric) (honce : (PastScan.mk w input).EachOnce)
    (horder : input.OrdersOf (w.scanned input).metric) :
    Aged (⟨w, input⟩ :: past) (finishScan input (w.scanned input)).1 where
  flow := by
    intro K e' he'
    obtain ⟨hnd, htracked⟩ := honce
    have hout := @outcome_scanFlows input.t ⟨w.metric, [], w.trace⟩ input.reports hnd
    by_cases hK : K ∈ input.reports.map Prod.fst
    · obtain ⟨⟨K', v⟩, hr, rfl⟩ := List.mem_map.mp hK
      have hval : e' = observed input.t (w.metric.baseMap.val K') v :=
        Option.some.inj (he'.symm.trans (hout.observed _ hr))
      by_cases hidle : (PastScan.mk w input).Idle K'
      · obtain ⟨e, he, hsame⟩ := (idle_iff hnd hr).mp hidle
        rw [streak_cons_of_pos hidle, hval, he, observed, if_pos hsame]
        dsimp only
        rw [h.flow K' e he]
        exact (UInt8.ofNat_add ..).symm
      · -- new or changed, the flow starts again
        rw [streak_cons_of_neg hidle, hval]
        rw [idle_iff hnd hr] at hidle
        cases he : w.metric.baseMap.val K' with
        | none => rfl
        | some e =>
            rw [observed, if_neg fun hsame => hidle ⟨e, he, hsame⟩]
            rfl
    · -- no flow of `baseMap` goes unreported
      have he : w.metric.baseMap.val K = some e' := (hout.kept K hK).symm.trans he'
      exact absurd (htracked K (PtrMap.mem_keys.mpr (Option.isSome_of_eq_some he))) hK
  entry := by
    intro T k a ha
    rw [val_finishScan horder] at ha
    obtain ⟨a', ha', haged⟩ := Option.map_eq_some_iff.mp ha
    obtain ⟨hfed, hskipped⟩ := @val_table_scanned w input honce.1 T k
    by_cases hskip : (PastScan.mk w input).Skips T k
    · rw [hskipped hskip] at ha'
      obtain ⟨idle, src, hlast, hts, hage⟩ := h.entry T k a' ha'
      refine ⟨_, src, hlast.cons hskip, ?_⟩
      rw [← haged, FlowStatsEntry.aged, hts, List.countP_cons]
      by_cases ht : input.t = src.input.t
      · simp [ht, hts, hage]
      · simp [ht, Ne.symm ht, hage]
    · obtain ⟨a₀, ha₀, hage, hts⟩ := hfed hskip
      obtain rfl : a₀ = a' := Option.some.inj (ha₀.symm.trans ha')
      refine ⟨[], _, lastFed_self hskip, ?_⟩
      rw [← haged, FlowStatsEntry.aged, if_neg (not_not.mpr hts)]
      exact ⟨hts, hage⟩

/-- A scan lists the flows it finds idle whose counter it brings to three. -/
theorem mem_toDeleteList_iff (h : Aged past w.metric) (hnd : (input.reports.map Prod.fst).Nodup)
    (K : InetV4Flow) :
    K ∈ (PastScan.mk w input).lists.toDeleteList ↔ (PastScan.mk w input).Idle K ∧
      3 ≤ streak (PastScan.Idle K) (⟨w, input⟩ :: past) % 256 := by
  rw [mem_toDeleteList_scanned hnd]
  constructor
  · rintro ⟨e, he, hr, hdue⟩
    have hidle : (PastScan.mk w input).Idle K := ⟨e, he, hr⟩
    rw [h.flow K e he] at hdue
    rw [streak_cons_of_pos hidle, ← three_le_ofNat, UInt8.ofNat_add]
    exact ⟨hidle, hdue⟩
  · rintro ⟨hidle, hdue⟩
    rw [streak_cons_of_pos hidle, ← three_le_ofNat, UInt8.ofNat_add] at hdue
    obtain ⟨e, he, hr⟩ := hidle
    refine ⟨e, he, hr, ?_⟩
    rw [h.flow K e he]
    exact hdue

/-- It lists the aggregates it skips whose counter it brings to three, unless it takes them for
its own. -/
theorem mem_listOf_iff (hnd : (input.reports.map Prod.fst).Nodup)
    (horder : input.OrdersOf (w.scanned input).metric) {T : Table} {k : PodStatsKey}
    {idle : List PastScan} {src : PastScan} {a : FlowStatsEntry}
    (ha : (w.metric.table T).val k = some a) (hts : a.timeStamp = src.input.t)
    (hage : a.agingCounter = UInt8.ofNat (idle.countP fun sc => sc.input.t ≠ src.input.t)) :
    k ∈ (PastScan.mk w input).lists.listOf T ↔ (PastScan.mk w input).Skips T k ∧
      input.t ≠ src.input.t ∧
      3 ≤ ((idle.countP fun sc => sc.input.t ≠ src.input.t) + 1) % 256 := by
  obtain ⟨hfed, hskipped⟩ := @val_table_scanned w input hnd T k
  rw [PastScan.lists, mem_finishScan horder]
  by_cases hskip : (PastScan.mk w input).Skips T k
  · rw [hskipped hskip, ha, and_iff_right hskip, ← three_le_ofNat, UInt8.ofNat_add, ← hage, ← hts]
    constructor
    · rintro ⟨a', ha', hne, hdue⟩
      obtain rfl := Option.some.inj ha'
      exact ⟨Ne.symm hne, hdue⟩
    · rintro ⟨hne, hdue⟩
      exact ⟨a, rfl, Ne.symm hne, hdue⟩
  · -- what has just been merged into is not due
    refine iff_of_false ?_ fun hc => hskip hc.1
    rintro ⟨a', ha', hne, -⟩
    obtain ⟨a₀, ha₀, -, hts₀⟩ := hfed hskip
    obtain rfl := Option.some.inj (ha₀.symm.trans ha')
    exact hne hts₀

/-- Only what is there can be listed. -/
theorem isSome_of_mem_listOf (hnd : (input.reports.map Prod.fst).Nodup)
    (horder : input.OrdersOf (w.scanned input).metric) {T : Table} {k : PodStatsKey}
    (h : k ∈ (PastScan.mk w input).lists.listOf T) : ((w.metric.table T).val k).isSome := by
  obtain ⟨hfed, hskipped⟩ := @val_table_scanned w input hnd T k
  rw [PastScan.lists, mem_finishScan horder] at h
  obtain ⟨a, ha, hne, -⟩ := h
  by_cases hskip : (PastScan.mk w input).Skips T k
  · exact Option.isSome_of_eq_some ((hskipped hskip).symm.trans ha)
  · obtain ⟨a₀, ha₀, -, hts⟩ := hfed hskip
    obtain rfl := Option.some.inj (ha₀.symm.trans ha)
    exact absurd hts hne

/-! ## Where the lists are right -/

/-- **A flow is listed rightly until it has been idle 256 times.** -/
theorem flow_exact_iff (h : Aged past w.metric) (hkept : KeptInRange past w.metric)
    (hnd : (input.reports.map Prod.fst).Nodup) (K : InetV4Flow) :
    (K ∈ (PastScan.mk w input).lists.toDeleteList
        ↔ 3 ≤ streak (PastScan.Idle K) (⟨w, input⟩ :: past))
      ↔ streak (PastScan.Idle K) (⟨w, input⟩ :: past) < 256 := by
  rw [mem_toDeleteList_iff h hnd]
  by_cases hidle : (PastScan.mk w input).Idle K
  · have hlt : streak (PastScan.Idle K) past < 256 := by
      obtain ⟨e, he, -⟩ := hidle
      exact hkept.flows K (Option.isSome_of_eq_some he)
    rw [and_iff_right hidle, streak_cons_of_pos hidle]
    exact threshold_mod_iff (by omega) (by omega) hlt
  · rw [streak_cons_of_neg hidle]
    exact iff_of_true (iff_of_false (fun hc => hidle hc.1) (by omega)) (by omega)

/-- **An aggregate is listed rightly until it cannot be told how long it has been idle.** -/
theorem entry_exact_iff (h : Aged past w.metric) (hkept : KeptInRange past w.metric)
    (hnd : (input.reports.map Prod.fst).Nodup)
    (horder : input.OrdersOf (w.scanned input).metric) (T : Table) (k : PodStatsKey) :
    (k ∈ (PastScan.mk w input).lists.listOf T
        ↔ ((w.metric.table T).val k).isSome ∧
          3 ≤ streak (PastScan.Skips T k) (⟨w, input⟩ :: past))
      ↔ (((w.metric.table T).val k).isSome → Countable (⟨w, input⟩ :: past) T k) := by
  cases ha : (w.metric.table T).val k with
  | none =>
      refine iff_of_true (iff_of_false (fun hmem => ?_) fun hc => ?_) fun hc => ?_
      · have hsome := isSome_of_mem_listOf hnd horder hmem
        rw [ha] at hsome
        cases hsome
      · cases hc.1
      · cases hc
  | some a =>
      rw [Option.isSome_some, and_iff_right rfl, imp_iff_right rfl]
      obtain ⟨idle, src, hlast, hts, hage⟩ := h.entry T k a ha
      rw [mem_listOf_iff hnd horder ha hts hage]
      by_cases hskip : (PastScan.mk w input).Skips T k
      · obtain ⟨hlt, hdiff⟩ :=
          hlast.countable_iff.mp (hkept.entries T k (Option.isSome_of_eq_some ha))
        have hnext := hlast.cons hskip
        -- the counter has fallen behind by the scans that read the clock of the merge
        have hall : (∀ sc ∈ idle, sc.input.t ≠ src.input.t)
            ↔ (idle.countP fun sc => sc.input.t ≠ src.input.t) = idle.length := by
          rw [List.countP_eq_length]
          simp
        have hle : (idle.countP fun sc => sc.input.t ≠ src.input.t) ≤ idle.length :=
          List.countP_le_length
        rw [hnext.countable_iff, hnext.streak_eq, and_iff_right hskip, List.forall_mem_cons,
          List.length_cons, hall]
        rw [hall] at hdiff
        exact threshold_lag_iff (by omega) (by omega) hle hlt hdiff
      · rw [streak_cons_of_neg hskip]
        refine iff_of_true (iff_of_false (fun hc => hskip hc.1) (by omega)) ?_
        exact countable_self hskip

/-- **A scan's lists are right exactly when its idle scans are in range.** -/
theorem dueExactly_iff (h : Aged past w.metric) (hkept : KeptInRange past w.metric)
    (hnd : (input.reports.map Prod.fst).Nodup)
    (horder : input.OrdersOf (w.scanned input).metric) :
    DueExactly past ⟨w, input⟩ ↔ InRange past ⟨w, input⟩ := by
  constructor
  · intro hexact
    exact ⟨fun K => (flow_exact_iff h hkept hnd K).mp (hexact.flows K),
      fun T k => (entry_exact_iff h hkept hnd horder T k).mp (hexact.entries T k)⟩
  · intro hin
    exact ⟨fun K => (flow_exact_iff h hkept hnd K).mpr (hin.flows K),
      fun T k => (entry_exact_iff h hkept hnd horder T k).mpr (hin.entries T k)⟩

/-- What is in range at a scan is after it. -/
theorem keptInRange_scan (hin : InRange past ⟨w, input⟩)
    (hnd : (input.reports.map Prod.fst).Nodup)
    (horder : input.OrdersOf (w.scanned input).metric) :
    KeptInRange (⟨w, input⟩ :: past) (finishScan input (w.scanned input)).1 where
  flows := fun K _ => hin.flows K
  entries := by
    intro T k hsome
    rw [val_finishScan horder, Option.isSome_map] at hsome
    by_cases hskip : (PastScan.mk w input).Skips T k
    · rw [(val_table_scanned hnd T k).2 hskip] at hsome
      exact hin.entries T k hsome
    · exact countable_self hskip

end OneScan

/-- Two scans with the right lists list again what stays idle. -/
theorem staysDue_of_exact {past : List PastScan} {now : PastScan} (hnow : DueExactly past now)
    (hlast : ∀ last older, past = last :: older → DueExactly older last) : StaysDue past now where
  flows := by
    intro last hhead K hK hidle
    obtain ⟨older, rfl⟩ := List.head?_eq_some_iff.mp hhead
    have hdue := ((hlast last older rfl).flows K).mp hK
    rw [hnow.flows, streak_cons_of_pos hidle]
    omega
  entries := by
    intro last hhead T k hk hsome hskip
    obtain ⟨older, rfl⟩ := List.head?_eq_some_iff.mp hhead
    have hdue := ((hlast last older rfl).entries T k).mp hk
    rw [hnow.entries, streak_cons_of_pos hskip, and_iff_right hsome]
    omega

/-! ## Between scans -/

/-- Removing entries keeps the counters of those that are left. -/
theorem aged_evict {past : List PastScan} {metric : InetV4FlowMetricsEntry} (h : Aged past metric)
    (ev : Eviction) : Aged past (evictEntries ev metric) where
  flow := by
    intro K e he
    exact h.flow K e (baseMap_evictEntries_eq_some.mp he).2
  entry := by
    intro T k a ha
    exact h.entry T k a (table_evictEntries_eq_some.mp ha).2

theorem keptInRange_evict {past : List PastScan} {metric : InetV4FlowMetricsEntry}
    (h : KeptInRange past metric) (ev : Eviction) : KeptInRange past (evictEntries ev metric) where
  flows := by
    intro K hK
    rw [val_baseMap_evictEntries] at hK
    split_ifs at hK
    · cases hK
    · exact h.flows K hK
  entries := by
    intro T k hk
    rw [val_table_evictEntries] at hk
    split_ifs at hk
    · cases hk
    · exact h.entries T k hk

/-- A new agent has no counters. -/
theorem aged_init (index : Index) : Aged [] (freshAgent index).metric where
  flow := fun K e he => absurd ((PtrMap.val_empty K).symm.trans he) (by simp)
  entry := fun T k a ha => absurd ((val_table_freshAgent index T k).symm.trans ha) (by simp)

theorem keptInRange_init (index : Index) : KeptInRange [] (freshAgent index).metric where
  flows := fun _ _ => (by decide : 0 < 256)
  entries := by
    rintro T k - idle src ⟨older, hnil, -⟩
    exact absurd hnil (by simp)

end Kubpf.Agent
