import Mathlib.Algebra.BigOperators.Group.Finset.Basic
import Kubpf.Aging
import Kubpf.Agent.Outlive

/-!
# What the aggregates add up

An aggregate is a running sum nobody recomputes: scans add to it, evictions
remove it, and meanwhile flows come and go, pods move, the indexes change. Here
it is compared with an account kept from the outside, from the states of the
world alone. A scan adopts the flows the kernel has and `baseMap` does not know,
and what it adds to an aggregate are the shares of these flows' counters, as the
indexes are at that moment. A flow that was known adds nothing, though if its
counters have moved it keeps the aggregate alive.
-/

namespace Kubpf

open Lib Kernel Agent

/-! ## The account -/

/-- The flows a scan would find that it does not know. -/
def adopted (w : World) : Finset InetV4Flow :=
  w.maps.v4FlowMap.table.keys \ w.agent.metric.baseMap.keys

/-- What their counters have for an aggregate. -/
def newTraffic (w : World) (T : Table) (k : PodStatsKey) : FlowStats :=
  ∑ K ∈ adopted w, entryShare w.agent.metric.agent.toIndex K T k
    ((w.maps.v4FlowMap.val K).getD 0)

/-- Some flow whose counters are not the known ones has a share for the aggregate. -/
def Touched (w : World) (T : Table) (k : PodStatsKey) : Prop :=
  ∃ K ∈ w.maps.v4FlowMap.table.keys,
    (w.agent.metric.baseMap.val K).map FlowStatsEntry.stats ≠ w.maps.v4FlowMap.val K ∧
      ∃ sh ∈ flowShares w.agent.metric.agent.toIndex K, sh.table = T ∧ sh.key = k

instance (w : World) (T : Table) (k : PodStatsKey) : Decidable (Touched w T k) :=
  inferInstanceAs (Decidable (∃ K ∈ w.maps.v4FlowMap.table.keys, _ ∧
    ∃ sh ∈ flowShares w.agent.metric.agent.toIndex K, sh.table = T ∧ sh.key = k))

/-- The account of an aggregate, from the steps taken, newest first, and the states they were
taken from. -/
def account (T : Table) (k : PodStatsKey) : List (World × Label) → Option FlowStats
  | [] => none
  | (w, .scan _) :: past =>
    if Touched w T k then some ((account T k past).getD 0 + newTraffic w T k) else account T k past
  | (w, .evict n false _) :: past =>
    if ∃ ev ∈ w.agent.pending[n]?, k ∈ ev.listOf T then none else account T k past
  | (_, .evict _ true _) :: past | (_, .packet _ _) :: past | (_, .informer _) :: past =>
    account T k past

/-! ## What a scan adds -/

theorem entryShare_zero (index : Index) (K : InetV4Flow) (T : Table) (k : PodStatsKey) :
    entryShare index K T k 0 = 0 := by
  have hpart : ∀ sh : Share, sh.part 0 = 0 := by
    intro sh
    unfold Share.part
    split_ifs <;> rfl
  rw [entryShare, List.sum_eq_zero]
  intro x hx
  obtain ⟨sh, -, rfl⟩ := List.mem_map.mp hx
  exact hpart sh

/-- **Portions add up.** -/
theorem statsOf_addPortions (t : Time) (metric : InetV4FlowMetricsEntry) (l : List Portion)
    (T : Table) (k : PodStatsKey) :
    (metric.addPortions t l).statsOf T k = metric.statsOf T k
      + ((l.filter fun p => p.share.table = T ∧ p.share.key = k).map Portion.amount).sum := by
  induction l generalizing metric with
  | nil => exact (add_zero _).symm
  | cons p l ih =>
      refine (ih (metric.addPortion t p)).trans ?_
      rw [InetV4FlowMetricsEntry.addPortion, InetV4FlowMetricsEntry.statsOf_addTo, add_assoc]
      refine congrArg (metric.statsOf T k + ·) ?_
      by_cases hp : p.share.table = T ∧ p.share.key = k
      · simp [hp]
      · simp [hp]

/-- What the portions of a report are worth to an aggregate: all of a flow that is new, and
nothing of one that is not. -/
theorem sum_portions (metric : InetV4FlowMetricsEntry) (r : InetV4Flow × FlowStats) (T : Table)
    (k : PodStatsKey) :
    (((portions metric r).filter fun p => p.share.table = T ∧ p.share.key = k).map
      Portion.amount).sum
      = if (metric.baseMap.val r.1).isNone then entryShare metric.agent.toIndex r.1 T k r.2
        else 0 := by
  have hsome : ∀ v, ((((flowShares metric.agent.toIndex r.1).map fun sh => Portion.mk sh (sh.part v))
      |>.filter fun p => p.share.table = T ∧ p.share.key = k).map Portion.amount).sum
        = entryShare metric.agent.toIndex r.1 T k v := by
    intro v
    rw [List.filter_map, List.map_map]
    rfl
  unfold portions
  cases hval : metric.baseMap.val r.1 with
  | none => exact hsome r.2
  | some e =>
      rw [Option.isNone_some, if_neg Bool.false_ne_true, taken]
      by_cases hsame : e.stats = r.2
      · rw [if_pos hsame]
        rfl
      · rw [if_neg hsame]
        exact (hsome 0).trans (entryShare_zero ..)

theorem sum_flatMap_portions (metric : InetV4FlowMetricsEntry)
    (reports : List (InetV4Flow × FlowStats)) (T : Table) (k : PodStatsKey) :
    (((reports.flatMap (portions metric)).filter
      fun p => p.share.table = T ∧ p.share.key = k).map Portion.amount).sum
      = (reports.map fun r => if (metric.baseMap.val r.1).isNone then
          entryShare metric.agent.toIndex r.1 T k r.2 else 0).sum := by
  induction reports with
  | nil => rfl
  | cons r rs ih =>
      rw [List.flatMap_cons, List.filter_append, List.map_append, List.sum_append, ih,
        sum_portions, List.map_cons, List.sum_cons]

/-- **The new flows among the reports are the adopted ones.** -/
theorem sum_reports_eq {w : World} {reports : List (InetV4Flow × FlowStats)}
    (hreads : ReadsMap w.maps.v4FlowMap reports) (T : Table) (k : PodStatsKey) :
    (reports.map fun r => if (w.agent.metric.baseMap.val r.1).isNone then
      entryShare w.agent.metric.agent.toIndex r.1 T k r.2 else 0).sum = newTraffic w T k := by
  obtain ⟨hnd, hval, hall⟩ := hreads
  let f : InetV4Flow → FlowStats := fun K => if (w.agent.metric.baseMap.val K).isNone then
    entryShare w.agent.metric.agent.toIndex K T k ((w.maps.v4FlowMap.val K).getD 0) else 0
  have hkeys : (reports.map Prod.fst).toFinset = w.maps.v4FlowMap.table.keys := by
    ext K
    rw [List.mem_toFinset]
    refine ⟨fun hK => ?_, hall K⟩
    obtain ⟨r, hr, rfl⟩ := List.mem_map.mp hK
    exact BpfHash.mem_keys.mpr (Option.isSome_of_eq_some (hval r hr))
  have hlist : (reports.map fun r => if (w.agent.metric.baseMap.val r.1).isNone then
      entryShare w.agent.metric.agent.toIndex r.1 T k r.2 else 0)
        = (reports.map Prod.fst).map f := by
    rw [List.map_map]
    refine List.map_congr_left fun r hr => ?_
    show _ = f r.1
    dsimp only [f]
    rw [hval r hr, Option.getD_some]
  have hadopted : adopted w
      = w.maps.v4FlowMap.table.keys.filter fun K => (w.agent.metric.baseMap.val K).isNone := by
    ext K
    rw [adopted, Finset.mem_sdiff, Finset.mem_filter, @PtrMap.mem_keys _ _ _ _ w.agent.metric.baseMap,
      Option.not_isSome_iff_eq_none, Option.isNone_iff_eq_none]
  rw [hlist, ← List.sum_toFinset f hnd, hkeys, newTraffic, hadopted, Finset.sum_filter]

/-- A scan merges into the aggregates that are touched. -/
theorem fed_iff_touched {w : World} {reports : List (InetV4Flow × FlowStats)}
    (hreads : ReadsMap w.maps.v4FlowMap reports) (T : Table) (k : PodStatsKey) :
    Fed w.agent.metric reports T k ↔ Touched w T k := by
  obtain ⟨-, hval, hall⟩ := hreads
  have hmerges : ∀ r ∈ reports, (Merges w.agent.metric r ↔
      (w.agent.metric.baseMap.val r.1).map FlowStatsEntry.stats ≠ w.maps.v4FlowMap.val r.1) := by
    intro r hr
    rw [hval r hr, Merges]
    cases w.agent.metric.baseMap.val r.1 with
    | none => simp
    | some e => simp
  constructor
  · rintro ⟨r, hr, hm, hshare⟩
    exact ⟨r.1, BpfHash.mem_keys.mpr (Option.isSome_of_eq_some (hval r hr)), (hmerges r hr).mp hm,
      hshare⟩
  · rintro ⟨K, hK, hm, hshare⟩
    obtain ⟨r, hr, rfl⟩ := List.mem_map.mp (hall K hK)
    exact ⟨r, hr, (hmerges r hr).mpr hm, hshare⟩

/-! ## The tables keep the account -/

/-- The aggregates are those on the account, and hold what it says. -/
def Balanced (s : World × List (World × Label)) : Prop :=
  ∀ T k, ((s.1.agent.metric.table T).val k).map FlowStatsEntry.stats = account T k s.2

theorem balanced_fresh (maps : FlowMaps) (index : Index) :
    Balanced ({ maps := maps, agent := freshAgent index }, []) := by
  intro T k
  dsimp only
  rw [val_table_freshAgent]
  rfl

/-- **A scan adds what it adopts.** -/
theorem stats_scanned {w : World} {input : ScanInput}
    (hreads : ReadsMap w.maps.v4FlowMap input.reports)
    (horder : input.OrdersOf (w.agent.scanned input).metric) (T : Table) (k : PodStatsKey) :
    (((finishScan input (w.agent.scanned input)).1.table T).val k).map FlowStatsEntry.stats
      = if Touched w T k then
          some ((((w.agent.metric.table T).val k).map FlowStatsEntry.stats).getD 0
            + newTraffic w T k)
        else ((w.agent.metric.table T).val k).map FlowStatsEntry.stats := by
  have haged : FlowStatsEntry.stats ∘ FlowStatsEntry.aged input.t = FlowStatsEntry.stats := by
    funext e
    rw [Function.comp_apply, FlowStatsEntry.aged]
    split_ifs <;> rfl
  have hfinish : (((finishScan input (w.agent.scanned input)).1.table T).val k).map
      FlowStatsEntry.stats
        = (((w.agent.scanned input).metric.table T).val k).map FlowStatsEntry.stats := by
    rw [val_finishScan horder, Option.map_map, haged]
  obtain ⟨hfed, hskipped⟩ := @val_table_scanned w.agent input hreads.1 T k
  have hskips : (PastScan.mk w.agent input).Skips T k ↔ ¬ Touched w T k :=
    not_congr (fed_iff_touched hreads T k)
  rw [hfinish]
  by_cases htouched : Touched w T k
  · rw [if_pos htouched]
    obtain ⟨a, ha, -, -⟩ := hfed fun hskip => hskips.mp hskip htouched
    -- the entry is what it was and the portions of this scan
    have hout := @outcome_scanFlows input.t ⟨w.agent.metric, [], w.agent.trace⟩ input.reports
      hreads.1
    obtain ⟨b, hb⟩ := hout.merged
    have hstats : (w.agent.scanned input).metric.statsOf T k
        = w.agent.metric.statsOf T k + newTraffic w T k := by
      have hbase : (w.agent.scanned input).metric.statsOf T k
          = (w.agent.metric.addPortions input.t
              (input.reports.flatMap (portions w.agent.metric))).statsOf T k := by
        rw [AgentWorld.scanned, hb]
        cases T <;> rfl
      rw [hbase, statsOf_addPortions, sum_flatMap_portions, sum_reports_eq hreads]
    rw [ha, Option.map_some]
    refine congrArg some ?_
    have hentry : (w.agent.scanned input).metric.statsOf T k = a.stats := by
      rw [InetV4FlowMetricsEntry.statsOf, ha]
      rfl
    rw [← hentry, hstats]
    refine congrArg (· + newTraffic w T k) ?_
    unfold InetV4FlowMetricsEntry.statsOf
    cases (w.agent.metric.table T).val k with
    | none => rfl
    | some e => rfl
  · rw [if_neg htouched, hskipped (hskips.mpr htouched)]

theorem balanced_step {s s' : World × List (World × Label)} {l : Label} (h : Balanced s)
    (hs : recording World.step s l = some s') : Balanced s' := by
  obtain ⟨w, past⟩ := s
  obtain ⟨w', hstep, rfl⟩ := recording_eq_some.mp hs
  intro T k
  have hbefore := h T k
  cases World.step_inv hstep with
  | packet skb dir =>
      rw [account]
      exact hbefore
  | scan input hreads horder =>
      dsimp only
      rw [stats_scanned hreads horder, account, ← hbefore]
  | evictFails n failing ev hev =>
      rw [account]
      exact hbefore
  | evict n failing ev hev =>
      dsimp only at hev ⊢
      rw [val_table_evictEntries, account, hev]
      by_cases hk : k ∈ ev.listOf T
      · rw [if_pos hk, if_pos ⟨ev, rfl, hk⟩]
        rfl
      · rw [if_neg hk, if_neg, hbefore]
        rintro ⟨ev', hev', hk'⟩
        exact hk (Option.some.inj hev' ▸ hk')
  | informer index =>
      rw [account]
      dsimp only
      rw [table_withAgent]
      exact hbefore

/--
**The aggregates are sums of first readings.**

In every run from any contents of the kernel maps and a new agent, with packets,
scans, evictions and informer updates in any order: an aggregate is there exactly
if a scan since its last eviction found a flow of its with counters other than
the known ones, and it holds the sum, over these scans, of the shares of the
flows that were not known at all, each as the kernel counted it when it was first
read and as the indexes attributed it then.
-/
theorem aggregates_sum_adopted (maps : FlowMaps) (index : Index) (ls : List Label) (w : World)
    (past : List (World × Label))
    (hrun : run (recording World.step) ({ maps := maps, agent := freshAgent index }, []) ls
      = some (w, past)) (T : Table) (k : PodStatsKey) :
    ((w.agent.metric.table T).val k).map FlowStatsEntry.stats = account T k past := by
  have hend : Balanced (w, past) :=
    run_inv (fun _ _ _ h hs => balanced_step h hs) (balanced_fresh maps index) hrun
  exact hend T k

/-- A second answer to the same client keeps the aggregates alive and adds nothing. -/
def twoAnswers : List Label :=
  [answerPacket, .scan (answerScan 1), answerPacket,
    .scan { answerScan 2 with reports := [(answerFlow, ⟨184, 2, 0, 0⟩)] }]

/-- The client's pod shows the first answer, 92 bytes in one packet. -/
theorem aggregates_sum_adopted_answers :
    ∃ w past, run (recording World.step) (World.init clientIndex, []) twoAnswers = some (w, past) ∧
      ((w.agent.metric.table .pod).val ⟨("default/client", "")⟩).map FlowStatsEntry.stats
        = some ⟨0, 0, 92, 1⟩ := by
  have hsome : (run (recording World.step) (World.init clientIndex, []) twoAnswers).isSome := by
    decide +kernel
  obtain ⟨⟨w, past⟩, hrun⟩ := Option.isSome_iff_exists.mp hsome
  have haccount : (run (recording World.step) (World.init clientIndex, []) twoAnswers).map
      (fun s => account .pod ⟨("default/client", "")⟩ s.2) = some (some ⟨0, 0, 92, 1⟩) := by
    decide +kernel
  rw [hrun] at haccount
  have hsum := aggregates_sum_adopted FlowMaps.empty clientIndex twoAnswers w past hrun .pod
    ⟨("default/client", "")⟩
  exact ⟨w, past, hrun, hsum.trans (Option.some.inj haccount)⟩

end Kubpf
