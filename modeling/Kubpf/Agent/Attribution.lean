import Kubpf.Agent.Endpoints
import Kubpf.Agent.Merged

/-!
# Who a merge is attributed to

The eight cases of `mergeStats`, seen from the entries: the source's entry gains
the counters, the destination's gains them turned around, both in one entry when
source and destination are the same, and no other pod or service entry changes.

`mergeStats` is given a pointer and turns a copy around. To say that the caller's
counters stay as they are, the variables of the call are written out here, and
the function on values is what remains when the caller's are left out.
-/

namespace Kubpf.Agent

open Lib

/-! ## The call with its variables -/

/-- The tables, what the caller's `stats` points to, and the copy made of it. -/
structure MergeVars where
  metric : InetV4FlowMetricsEntry
  stats : FlowStats
  copiedStats : FlowStats

namespace MergeVars

/-- `(&copiedStats).swap()`. -/
def swapCopied (vars : MergeVars) : MergeVars := { vars with copiedStats := vars.copiedStats.swap }

/-- Add the copy to an entry and publish the entry. -/
def addCopied (vars : MergeVars) (T : Table) (key : PodStatsKey) (t : Time) : MergeVars :=
  { vars with metric := vars.metric.addTo T key vars.copiedStats t }

/-- `mergeStats`, statement by statement. -/
def mergeStats (keyType : Nat) (podStatsKey : PodStatsKey) (t : Time) (vars : MergeVars) :
    MergeVars :=
  let vars := { vars with copiedStats := vars.stats }
  if keyType = fromPodKey then
    vars.addCopied .pod (podStatsKey.clear (.last 1)) t
  else if keyType = toPodKey then
    vars.swapCopied.addCopied .pod (podStatsKey.swap.clear (.last 1)) t
  else if keyType = fromSvcKey then
    vars.addCopied .svc (podStatsKey.clear (.last 1)) t
  else if keyType = toSvcKey then
    vars.swapCopied.addCopied .svc (podStatsKey.swap.clear (.last 1)) t
  else if keyType = fromPodKey ||| toPodKey then
    let vars := vars.addCopied .pod (podStatsKey.clear (.last 1)) t
    vars.swapCopied.addCopied .pod (podStatsKey.swap.clear (.last 1)) t
  else if keyType = fromSvcKey ||| toSvcKey then
    let vars := vars.addCopied .svc (podStatsKey.clear (.last 1)) t
    vars.swapCopied.addCopied .svc (podStatsKey.swap.clear (.last 1)) t
  else if keyType = fromPodKey ||| toSvcKey then
    let vars := vars.addCopied .pod (podStatsKey.clear (.last 1)) t
    let vars := vars.swapCopied.addCopied .svc (podStatsKey.swap.clear (.last 1)) t
    vars.addCopied .known podStatsKey t
  else if keyType = fromSvcKey ||| toPodKey then
    let vars := vars.addCopied .svc (podStatsKey.clear (.last 1)) t
    let vars := vars.swapCopied.addCopied .pod (podStatsKey.swap.clear (.last 1)) t
    vars.addCopied .known podStatsKey t
  else vars

/-- **The tables end as the function on values has them.** -/
theorem metric_mergeStats (keyType : Nat) (podStatsKey : PodStatsKey) (t : Time)
    (vars : MergeVars) :
    (vars.mergeStats keyType podStatsKey t).metric
      = vars.metric.mergeStats keyType podStatsKey vars.stats t := by
  unfold mergeStats InetV4FlowMetricsEntry.mergeStats
  dsimp only
  -- the two switches run in step
  simp only [apply_ite MergeVars.metric]
  rfl

/-- **No statement writes through the caller's pointer.** -/
theorem stats_mergeStats (keyType : Nat) (podStatsKey : PodStatsKey) (t : Time)
    (vars : MergeVars) : (vars.mergeStats keyType podStatsKey t).stats = vars.stats := by
  unfold mergeStats
  dsimp only
  simp only [apply_ite MergeVars.stats]
  simp only [addCopied, swapCopied, ite_self]

end MergeVars

/-! ## The entries that gain -/

/-- The entry of the endpoint at an address, in the table of its kind. -/
def Index.EntryAt (agent : Index) (ip : String) (T : Table) (k : PodStatsKey) : Prop :=
  agent.endpointKey ip = k ∧
    match T with
    | .pod => agent.isPod ip = true
    | .svc => agent.isSvc ip = true
    | .known => False

instance (agent : Index) (ip : String) (k : PodStatsKey) : ∀ T, Decidable (agent.EntryAt ip T k)
  | .pod => inferInstanceAs (Decidable (agent.endpointKey ip = k ∧ agent.isPod ip = true))
  | .svc => inferInstanceAs (Decidable (agent.endpointKey ip = k ∧ agent.isSvc ip = true))
  | .known => inferInstanceAs (Decidable (agent.endpointKey ip = k ∧ False))

section EntryAt

variable {agent : Index} {ip : String} {swapped : Bool} {T : Table} {k : PodStatsKey}

theorem exists_endpointShares_iff :
    (∃ sh ∈ endpointShares agent ip swapped, sh.table = T ∧ sh.key = k)
      ↔ agent.EntryAt ip T k := by
  refine ⟨?_, ?_⟩
  · rintro ⟨sh, hsh, hT, hk⟩
    rcases mem_endpointShares.mp hsh with ⟨hpod, rfl⟩ | ⟨hsvc, rfl⟩
    · subst hT
      exact ⟨hk, hpod⟩
    · subst hT
      exact ⟨hk, hsvc⟩
  · rintro ⟨hk, hkind⟩
    cases T with
    | pod => exact ⟨_, mem_endpointShares.mpr (Or.inl ⟨hkind, rfl⟩), rfl, hk⟩
    | svc => exact ⟨_, mem_endpointShares.mpr (Or.inr ⟨hkind, rfl⟩), rfl, hk⟩
    | known => exact absurd hkind id

/-- What the shares of an endpoint amount to at an entry. -/
theorem sum_endpointShares (v : FlowStats) :
    ((sharesOf (endpointShares agent ip swapped) T k).map fun sh => sh.part v).sum
      = if agent.EntryAt ip T k then (if swapped then v.swap else v) else 0 := by
  by_cases hk : agent.endpointKey ip = k
  · by_cases hpod : agent.isPod ip = true <;> by_cases hsvc : agent.isSvc ip = true <;>
      cases T <;> simp [endpointShares, Index.EntryAt, sharesOf, Share.part, hk, hpod, hsvc]
  · by_cases hpod : agent.isPod ip = true <;> by_cases hsvc : agent.isSvc ip = true <;>
      simp [endpointShares, Index.EntryAt, sharesOf, hk, hpod, hsvc]

end EntryAt

/-! ## What a merge does to the tables -/

section Merge

variable {metric : InetV4FlowMetricsEntry} {K : InetV4Flow} {s : FlowStats} {t : Time}
  {T : Table} {k : PodStatsKey}

/-- The entries of pods and services a flow feeds are those of its two ends. -/
theorem exists_flowShares_iff {agent : Index} (h : agent.NoSharedIp) (hT : T ≠ .known) :
    (∃ sh ∈ flowShares agent K, sh.table = T ∧ sh.key = k)
      ↔ agent.EntryAt (getSrcIp K) T k ∨ agent.EntryAt (getDstIp K) T k := by
  rw [flowShares_eq h, ← @exists_endpointShares_iff agent _ false,
    ← @exists_endpointShares_iff agent (getDstIp K) true]
  simp only [List.mem_append, or_and_right, exists_or]
  refine or_iff_left ?_
  rintro ⟨sh, hsh, hT', -⟩
  split_ifs at hsh
  · rw [List.mem_singleton.mp hsh] at hT'
    exact hT hT'.symm
  · exact List.not_mem_nil hsh

/-- **An entry at an end of the flow gains what is its**, from zero if it is new. -/
theorem val_merge_of_entryAt (h : metric.agent.toIndex.NoSharedIp) (hT : T ≠ .known)
    (hat : metric.agent.toIndex.EntryAt (getSrcIp K) T k ∨
      metric.agent.toIndex.EntryAt (getDstIp K) T k) :
    ((metric.mergeStats (getPodStatsKey metric.agent.toIndex K).2
        (getPodStatsKey metric.agent.toIndex K).1 s t).table T).val k
      = some
          { stats := metric.statsOf T k
              + (if metric.agent.toIndex.EntryAt (getSrcIp K) T k then s else 0)
              + (if metric.agent.toIndex.EntryAt (getDstIp K) T k then s.swap else 0)
            agingCounter := 0
            timeStamp := t } := by
  obtain ⟨e, he, haging, htime⟩ := @val_mergeStats_of_mem metric _ _ s t T k
    ((exists_flowShares_iff h hT).mpr hat)
  rw [he]
  -- the young entry is known by its counters
  have hstats : e.stats = metric.statsOf T k
      + ((sharesOf (flowShares metric.agent.toIndex K) T k).map fun sh => sh.part s).sum := by
    have hsum := @InetV4FlowMetricsEntry.statsOf_addShares metric
      (flowShares metric.agent.toIndex K) s t T k
    rw [flowShares, ← InetV4FlowMetricsEntry.mergeStats_eq, InetV4FlowMetricsEntry.statsOf, he]
      at hsum
    exact hsum
  have hpair : sharesOf (if metric.agent.toIndex.mixed K then
      [⟨.known, metric.agent.toIndex.pairKey K, true⟩] else []) T k = [] := by
    split_ifs
    · simp [sharesOf, Ne.symm hT]
    · rfl
  rw [flowShares_eq h, sharesOf, List.filter_append, List.filter_append, ← sharesOf, ← sharesOf,
    ← sharesOf, hpair, List.append_nil, List.map_append, List.sum_append, sum_endpointShares,
    sum_endpointShares, if_neg Bool.false_ne_true, if_pos rfl, ← add_assoc] at hstats
  rw [← hstats, ← haging, ← htime]

/-- **The pair table changes at the flow's own key, and only for a pod and a service.** -/
theorem val_known_merge (h : metric.agent.toIndex.NoSharedIp)
    (hne : ((metric.mergeStats (getPodStatsKey metric.agent.toIndex K).2
        (getPodStatsKey metric.agent.toIndex K).1 s t).table .known).val k
      ≠ (metric.table .known).val k) :
    k = (getPodStatsKey metric.agent.toIndex K).1 ∧ metric.agent.toIndex.mixed K = true := by
  by_contra hnot
  refine hne (val_mergeStats_of_not_mem ?_)
  rintro ⟨sh, hsh, hT, hk⟩
  have hsh : sh ∈ flowShares metric.agent.toIndex K := hsh
  rw [flowShares_eq h] at hsh
  rcases List.mem_append.mp hsh with hsh | hsh
  · rcases List.mem_append.mp hsh with hsh | hsh
    · exact (exists_endpointShares_iff.mp ⟨sh, hsh, hT, hk⟩).2
    · exact (exists_endpointShares_iff.mp ⟨sh, hsh, hT, hk⟩).2
  · split_ifs at hsh with hmixed
    · rw [List.mem_singleton.mp hsh] at hk
      refine hnot ⟨?_, hmixed⟩
      rw [getPodStatsKey_eq]
      exact hk.symm
    · exact List.not_mem_nil hsh

end Merge

/--
**`mergeStats` attributes a delta to the endpoints it belongs to.**

Whatever the tables hold before, as long as no address is both a pod's and a
service's: the entry of the source gains the counters and the entry of the
destination gains them turned around, each created from zero when missing and
young afterwards; every other pod and service entry stays as it is, the pair
table changes at most at the flow's own key and only between a pod and a service,
and the caller's counters are left alone.
-/
theorem merge_attributes (metric : InetV4FlowMetricsEntry) (h : metric.agent.toIndex.NoSharedIp)
    (K : InetV4Flow) (s : FlowStats) (t : Time) (copied : FlowStats) :
    let agent := metric.agent.toIndex
    let after := MergeVars.mergeStats (getPodStatsKey agent K).2 (getPodStatsKey agent K).1 t
      { metric := metric, stats := s, copiedStats := copied }
    (∀ T, T ≠ .known → ∀ k,
      (after.metric.table T).val k
        = if agent.EntryAt (getSrcIp K) T k ∨ agent.EntryAt (getDstIp K) T k then
            some
              { stats := metric.statsOf T k
                  + (if agent.EntryAt (getSrcIp K) T k then s else 0)
                  + (if agent.EntryAt (getDstIp K) T k then s.swap else 0)
                agingCounter := 0
                timeStamp := t }
          else (metric.table T).val k) ∧
    (∀ k, (after.metric.table .known).val k ≠ (metric.table .known).val k →
      k = (getPodStatsKey agent K).1 ∧ agent.mixed K = true) ∧
    after.stats = s := by
  intro agent after
  have hafter : after.metric
      = metric.mergeStats (getPodStatsKey agent K).2 (getPodStatsKey agent K).1 s t :=
    MergeVars.metric_mergeStats ..
  refine ⟨?_, ?_, MergeVars.stats_mergeStats ..⟩
  · intro T hT k
    rw [hafter]
    by_cases hat : agent.EntryAt (getSrcIp K) T k ∨ agent.EntryAt (getDstIp K) T k
    · rw [if_pos hat]
      exact val_merge_of_entryAt h hT hat
    · rw [if_neg hat]
      exact val_mergeStats_of_not_mem fun hsh => hat ((exists_flowShares_iff h hT).mp hsh)
  · intro k hne
    rw [hafter] at hne
    exact val_known_merge h hne

/-- A name server's answer to a pod, on empty tables. -/
theorem merge_attributes_answer :
    ((MergeVars.mergeStats (getPodStatsKey clientIndex answerFlow).2
        (getPodStatsKey clientIndex answerFlow).1 1
        { metric := newInetV4FlowMetricsEntry { clientIndex with gauges := ∅ }
          stats := ⟨92, 1, 60, 1⟩, copiedStats := 0 }).metric.table .pod).val
        ⟨("default/client", "")⟩ = some ⟨⟨60, 1, 92, 1⟩, 0, 1⟩ :=
  ((merge_attributes (newInetV4FlowMetricsEntry { clientIndex with gauges := ∅ }) (by decide)
    answerFlow ⟨92, 1, 60, 1⟩ 1 0).1 .pod (by decide) ⟨("default/client", "")⟩).trans (by decide)

end Kubpf.Agent
