import Kubpf.Lib.PtrMap
import Kubpf.Agent.Prometheus

/-!
# Merging a flow's counters

`mergeStats` hands a flow's counters to the endpoints the flow belongs to: the
source's table gets them as they are, the destination's with the directions
exchanged, and the pair table gets a copy when a pod and a service meet. Each of
these is the same few lines of Go, an entry created when missing, bumped, and
published; here they are `addTo`, and the switch on the key type says to which
entries it is applied.

`shares` lists those entries, so that what `mergeStats` does to a table is read
off a list instead of eight branches.
-/

namespace Kubpf.Agent

open Lib

/-- `StatsAgent`: the indexes and the registered gauges. -/
structure StatsAgent extends Index where
  gauges : Gauges

/-- A new agent. -/
def newStatsAgent : StatsAgent := { Index.empty with gauges := ∅ }

/-- The three aggregate tables. -/
inductive Table where
  | pod
  | svc
  | known
  deriving DecidableEq, Repr

structure InetV4FlowMetricsEntry where
  baseMap : PtrMap InetV4Flow FlowStatsEntry
  podStatsMap : PtrMap PodStatsKey FlowStatsEntry
  svcStatsMap : PtrMap PodStatsKey FlowStatsEntry
  knownStatsMap : PtrMap PodStatsKey FlowStatsEntry
  agent : StatsAgent

/-- `NewInetV4FlowMetricsEntry`. -/
def newInetV4FlowMetricsEntry (agent : StatsAgent) : InetV4FlowMetricsEntry where
  baseMap := PtrMap.empty
  podStatsMap := PtrMap.empty
  svcStatsMap := PtrMap.empty
  knownStatsMap := PtrMap.empty
  agent := agent

namespace InetV4FlowMetricsEntry

/-- The table of a kind. -/
def table (metric : InetV4FlowMetricsEntry) : Table → PtrMap PodStatsKey FlowStatsEntry
  | .pod => metric.podStatsMap
  | .svc => metric.svcStatsMap
  | .known => metric.knownStatsMap

def setTable (metric : InetV4FlowMetricsEntry) (T : Table)
    (m : PtrMap PodStatsKey FlowStatsEntry) : InetV4FlowMetricsEntry :=
  match T with
  | .pod => { metric with podStatsMap := m }
  | .svc => { metric with svcStatsMap := m }
  | .known => { metric with knownStatsMap := m }

end InetV4FlowMetricsEntry

/-- The setter each table is published with. -/
def Table.setGauge : Table → PromMetricsKey → FlowStats → Gauges → Gauges
  | .pod => setPodGauge
  | .svc => setSvcGauge
  | .known => setPodSvcGauge

/-- `if _, cok := m[key]; !cok { m[key] = &FlowStatsEntry{} }`, then `m[key].add(stats, t)`. -/
def addEntry (m : PtrMap PodStatsKey FlowStatsEntry) (key : PodStatsKey) (stats : FlowStats)
    (t : Time) : PtrMap PodStatsKey FlowStatsEntry :=
  let m := if (m.find? key).isNone then m.alloc key {} else m
  m.modifyAt key (fun e => e.add stats t)

namespace InetV4FlowMetricsEntry

/-- Add to an entry of a table and publish the entry. -/
def addTo (metric : InetV4FlowMetricsEntry) (T : Table) (key : PodStatsKey) (stats : FlowStats)
    (t : Time) : InetV4FlowMetricsEntry :=
  let m := addEntry (metric.table T) key stats t
  let metric := metric.setTable T m
  let promMetricsKey := key.toPromMetricsKey
  let entry := (m.val key).getD default
  { metric with
    agent := { metric.agent with
      gauges := T.setGauge promMetricsKey entry.stats metric.agent.gauges } }

/-- `mergeStats`. `copiedStats` is turned around in place, so what follows a `swap` sees it
turned around. -/
def mergeStats (metric : InetV4FlowMetricsEntry) (keyType : Nat) (podStatsKey : PodStatsKey)
    (stats : FlowStats) (t : Time) : InetV4FlowMetricsEntry :=
  let copiedStats := stats
  if keyType = fromPodKey then
    metric.addTo .pod (podStatsKey.clear 1) copiedStats t
  else if keyType = toPodKey then
    metric.addTo .pod (podStatsKey.swap.clear 1) copiedStats.swap t
  else if keyType = fromSvcKey then
    metric.addTo .svc (podStatsKey.clear 1) copiedStats t
  else if keyType = toSvcKey then
    metric.addTo .svc (podStatsKey.swap.clear 1) copiedStats.swap t
  else if keyType = fromPodKey ||| toPodKey then
    let metric := metric.addTo .pod (podStatsKey.clear 1) copiedStats t
    let copiedStats := copiedStats.swap
    metric.addTo .pod (podStatsKey.swap.clear 1) copiedStats t
  else if keyType = fromSvcKey ||| toSvcKey then
    let metric := metric.addTo .svc (podStatsKey.clear 1) copiedStats t
    let copiedStats := copiedStats.swap
    metric.addTo .svc (podStatsKey.swap.clear 1) copiedStats t
  else if keyType = fromPodKey ||| toSvcKey then
    let metric := metric.addTo .pod (podStatsKey.clear 1) copiedStats t
    let copiedStats := copiedStats.swap
    let metric := metric.addTo .svc (podStatsKey.swap.clear 1) copiedStats t
    -- still turned around
    metric.addTo .known podStatsKey copiedStats t
  else if keyType = fromSvcKey ||| toPodKey then
    let metric := metric.addTo .svc (podStatsKey.clear 1) copiedStats t
    let copiedStats := copiedStats.swap
    let metric := metric.addTo .pod (podStatsKey.swap.clear 1) copiedStats t
    metric.addTo .known podStatsKey copiedStats t
  else metric

/-! ## One entry -/

section AddTo

variable (metric : InetV4FlowMetricsEntry) (T : Table) (key : PodStatsKey) (stats : FlowStats)
  (t : Time)

@[simp] theorem baseMap_addTo : (metric.addTo T key stats t).baseMap = metric.baseMap := by
  cases T <;> rfl

@[simp] theorem index_addTo :
    (metric.addTo T key stats t).agent.toIndex = metric.agent.toIndex := by
  cases T <;> rfl

@[simp] theorem table_addTo :
    (metric.addTo T key stats t).table T = addEntry (metric.table T) key stats t := by
  cases T <;> rfl

theorem table_addTo_of_ne {T' : Table} (h : T' ≠ T) :
    (metric.addTo T key stats t).table T' = metric.table T' := by
  cases T <;> cases T' <;> first | rfl | exact absurd rfl h

end AddTo

end InetV4FlowMetricsEntry

/-- **Created from zero when missing, and bumped.** -/
theorem val_addEntry (m : PtrMap PodStatsKey FlowStatsEntry) (key : PodStatsKey)
    (stats : FlowStats) (t : Time) :
    (addEntry m key stats t).val
      = Function.update m.val key (some (((m.val key).getD default).add stats t)) := by
  unfold addEntry
  cases hp : m.find? key with
  | none =>
      have hv : m.val key = none := PtrMap.val_eq_none.mpr hp
      rw [Option.isNone_none, if_pos rfl, PtrMap.val_modifyAt, PtrMap.val_alloc,
        Function.update_idem, Function.update_self, hv]
      rfl
  | some p =>
      rw [Option.isNone_some, if_neg Bool.false_ne_true, PtrMap.val_modifyAt,
        PtrMap.val_of_find? hp]
      rfl

/-! ## What a merge is shared among -/

/-- An entry that gets a share of a merge, as it is or with the directions exchanged. -/
structure Share where
  table : Table
  key : PodStatsKey
  swapped : Bool
  deriving DecidableEq, Repr

/-- What the share amounts to. -/
def Share.part (s : Share) (stats : FlowStats) : FlowStats :=
  if s.swapped then stats.swap else stats

/-- The entries a merge goes to. -/
def shares (keyType : Nat) (key : PodStatsKey) : List Share :=
  let src := key.clear 1
  let dst := key.swap.clear 1
  if keyType = fromPodKey then [⟨.pod, src, false⟩]
  else if keyType = toPodKey then [⟨.pod, dst, true⟩]
  else if keyType = fromSvcKey then [⟨.svc, src, false⟩]
  else if keyType = toSvcKey then [⟨.svc, dst, true⟩]
  else if keyType = fromPodKey ||| toPodKey then [⟨.pod, src, false⟩, ⟨.pod, dst, true⟩]
  else if keyType = fromSvcKey ||| toSvcKey then [⟨.svc, src, false⟩, ⟨.svc, dst, true⟩]
  else if keyType = fromPodKey ||| toSvcKey then
    [⟨.pod, src, false⟩, ⟨.svc, dst, true⟩, ⟨.known, key, true⟩]
  else if keyType = fromSvcKey ||| toPodKey then
    [⟨.svc, src, false⟩, ⟨.pod, dst, true⟩, ⟨.known, key, true⟩]
  else []

/-- The shares among `l` that go to one entry. -/
def sharesOf (l : List Share) (T : Table) (key : PodStatsKey) : List Share :=
  l.filter fun s => s.table = T ∧ s.key = key

namespace InetV4FlowMetricsEntry

/-- Hand out the shares one after the other. -/
def addShares (metric : InetV4FlowMetricsEntry) (l : List Share) (stats : FlowStats) (t : Time) :
    InetV4FlowMetricsEntry :=
  l.foldl (fun metric s => metric.addTo s.table s.key (s.part stats) t) metric

/-- **`mergeStats` hands out the shares of its key type.** -/
theorem mergeStats_eq (metric : InetV4FlowMetricsEntry) (keyType : Nat) (key : PodStatsKey)
    (stats : FlowStats) (t : Time) :
    metric.mergeStats keyType key stats t = metric.addShares (shares keyType key) stats t := by
  unfold mergeStats shares
  dsimp only
  -- handing out commutes with choosing the list, so the two switches run in step
  simp only [apply_ite (fun l => metric.addShares l stats t)]
  rfl

/-- What an entry holds, zero when it is missing. -/
def statsOf (metric : InetV4FlowMetricsEntry) (T : Table) (key : PodStatsKey) : FlowStats :=
  (((metric.table T).val key).getD default).stats

section AddShares

variable {metric : InetV4FlowMetricsEntry} {l : List Share} {stats : FlowStats} {t : Time}

@[simp] theorem baseMap_addShares :
    (metric.addShares l stats t).baseMap = metric.baseMap := by
  induction l generalizing metric with
  | nil => rfl
  | cons s l ih => exact ih.trans (baseMap_addTo ..)

@[simp] theorem index_addShares :
    (metric.addShares l stats t).agent.toIndex = metric.agent.toIndex := by
  induction l generalizing metric with
  | nil => rfl
  | cons s l ih => exact ih.trans (index_addTo ..)

/-- One share, at every entry of every table. -/
theorem val_table_addTo (metric : InetV4FlowMetricsEntry) (s : Share) (stats : FlowStats)
    (t : Time) (T : Table) (key : PodStatsKey) :
    ((metric.addTo s.table s.key stats t).table T).val key
      = if s.table = T ∧ s.key = key then
          some ((((metric.table T).val key).getD default).add stats t)
        else (metric.table T).val key := by
  by_cases hT : s.table = T
  · subst hT
    rw [table_addTo, val_addEntry]
    by_cases hk : s.key = key
    · subst hk; simp
    · simp [hk, Function.update_of_ne (Ne.symm hk)]
  · rw [table_addTo_of_ne _ _ _ _ _ (Ne.symm hT), if_neg (fun h => hT h.1)]

/-- An entry that gets no share stays as it is. -/
theorem val_addShares_of_not_mem {T : Table} {key : PodStatsKey}
    (h : ∀ s ∈ l, ¬ (s.table = T ∧ s.key = key)) :
    ((metric.addShares l stats t).table T).val key = (metric.table T).val key := by
  induction l generalizing metric with
  | nil => rfl
  | cons s l ih =>
      have hs := h s (List.mem_cons_self ..)
      have hl := @ih (metric.addTo s.table s.key (s.part stats) t)
        (fun s' hs' => h s' (List.mem_cons_of_mem _ hs'))
      rw [val_table_addTo, if_neg hs] at hl
      exact hl

/-- An entry that gets a share is young again. -/
theorem val_addShares_of_mem {T : Table} {key : PodStatsKey}
    (h : ∃ s ∈ l, s.table = T ∧ s.key = key) :
    ∃ e, ((metric.addShares l stats t).table T).val key = some e
      ∧ e.agingCounter = 0 ∧ e.timeStamp = t := by
  induction l generalizing metric with
  | nil => exact absurd h (by simp)
  | cons s l ih =>
      by_cases hl : ∃ s' ∈ l, s'.table = T ∧ s'.key = key
      · exact ih hl
      · -- the head is the last share of this entry
        obtain ⟨s', hs', he⟩ := h
        have hhead : s' = s := by
          rcases List.mem_cons.mp hs' with hs | hs
          · exact hs
          · exact absurd ⟨s', hs, he⟩ hl
        subst hhead
        have hrest : (((metric.addTo s'.table s'.key (s'.part stats) t).addShares l stats
            t).table T).val key = _ :=
          val_addShares_of_not_mem (fun s'' hs'' he'' => hl ⟨s'', hs'', he''⟩)
        rw [val_table_addTo, if_pos he] at hrest
        exact ⟨_, hrest, rfl, rfl⟩

/-- One share, as counters. -/
theorem statsOf_addTo (metric : InetV4FlowMetricsEntry) (s : Share) (stats : FlowStats) (t : Time)
    (T : Table) (key : PodStatsKey) :
    (metric.addTo s.table s.key stats t).statsOf T key
      = metric.statsOf T key + (if s.table = T ∧ s.key = key then stats else 0) := by
  rw [statsOf, statsOf, val_table_addTo]
  split_ifs with h
  · rfl
  · rw [add_zero]

/-- **An entry gains its shares.** -/
theorem statsOf_addShares (T : Table) (key : PodStatsKey) :
    (metric.addShares l stats t).statsOf T key
      = metric.statsOf T key + ((sharesOf l T key).map (fun s => s.part stats)).sum := by
  induction l generalizing metric with
  | nil => exact (add_zero _).symm
  | cons s l ih =>
      have hl := @ih (metric.addTo s.table s.key (s.part stats) t)
      rw [statsOf_addTo, add_assoc] at hl
      refine hl.trans (congrArg (metric.statsOf T key + ·) ?_)
      by_cases h : s.table = T ∧ s.key = key
      · simp [sharesOf, h]
      · simp [sharesOf, h]

end AddShares

end InetV4FlowMetricsEntry

/-! ## What a merge does -/

@[simp] theorem table_withBaseMap (metric : InetV4FlowMetricsEntry)
    (b : PtrMap InetV4Flow FlowStatsEntry) (T : Table) :
    ({ metric with baseMap := b } : InetV4FlowMetricsEntry).table T = metric.table T := by
  cases T <;> rfl

@[simp] theorem table_withAgent (metric : InetV4FlowMetricsEntry) (agent : StatsAgent) (T : Table) :
    ({ metric with agent := agent } : InetV4FlowMetricsEntry).table T = metric.table T := by
  cases T <;> rfl

section Merge

variable {metric : InetV4FlowMetricsEntry} {keyType : Nat} {podStatsKey : PodStatsKey}
  {stats : FlowStats} {t : Time}

@[simp] theorem baseMap_mergeStats :
    (metric.mergeStats keyType podStatsKey stats t).baseMap = metric.baseMap := by
  rw [InetV4FlowMetricsEntry.mergeStats_eq]
  exact InetV4FlowMetricsEntry.baseMap_addShares

@[simp] theorem index_mergeStats :
    (metric.mergeStats keyType podStatsKey stats t).agent.toIndex = metric.agent.toIndex := by
  rw [InetV4FlowMetricsEntry.mergeStats_eq]
  exact InetV4FlowMetricsEntry.index_addShares

/-- The entries a merge goes to are young again. -/
theorem val_mergeStats_of_mem {T : Table} {key : PodStatsKey}
    (h : ∃ s ∈ shares keyType podStatsKey, s.table = T ∧ s.key = key) :
    ∃ e, ((metric.mergeStats keyType podStatsKey stats t).table T).val key = some e
      ∧ e.agingCounter = 0 ∧ e.timeStamp = t := by
  rw [InetV4FlowMetricsEntry.mergeStats_eq]
  exact InetV4FlowMetricsEntry.val_addShares_of_mem h

/-- The others stay as they are. -/
theorem val_mergeStats_of_not_mem {T : Table} {key : PodStatsKey}
    (h : ¬ ∃ s ∈ shares keyType podStatsKey, s.table = T ∧ s.key = key) :
    ((metric.mergeStats keyType podStatsKey stats t).table T).val key
      = (metric.table T).val key := by
  rw [InetV4FlowMetricsEntry.mergeStats_eq]
  exact InetV4FlowMetricsEntry.val_addShares_of_not_mem (fun s hs he => h ⟨s, hs, he⟩)

end Merge

end Kubpf.Agent
