import Kubpf.Agent.MergeStats

/-!
# Scanning the flow map

`UpdateStats` does its work in two critical sections. The first reads the kernel
map entry by entry, compares each with what `baseMap` holds, merges what it takes
for new traffic, ages the aggregate tables, and leaves four lists of keys that
have been idle for three scans. The second, a goroutine started at the end of the
first, deletes those keys.

Reads and writes of an entry go through the pointer the map holds, in the order
the source performs them: `currStats` is looked up before the entry is
overwritten and read afterwards.

Along the way both sections note what happened in a trace. Nothing they do
depends on it; it is there for properties about what was reported, merged and
dropped over a whole run.
-/

namespace Kubpf.Agent

open Lib

/-- What an observer sees happen. -/
inductive Event where
  /-- The kernel counted a packet. -/
  | counted (key : InetV4Flow) (stats : FlowStatsOf Nat)
  /-- The map iterator delivered an entry. -/
  | reported (key : InetV4Flow) (value : FlowStats)
  /-- `mergeStats` was called. -/
  | merged (key : InetV4Flow) (keyType : Nat) (podStatsKey : PodStatsKey) (stats : FlowStats)
      (t : Time)
  /-- A scan reached its end. -/
  | scanned (t : Time)
  /-- `delete(metric.baseMap, key)`. -/
  | dropped (key : InetV4Flow)
  /-- `m2.Delete(key)` failed and the kernel kept the entry. -/
  | kept (key : InetV4Flow)
  deriving DecidableEq, Repr

/-! ## The scan of the kernel map -/

/-- The state of the loop over the kernel map. -/
structure Scan where
  metric : InetV4FlowMetricsEntry
  toDeleteList : List InetV4Flow
  /-- Newest first. -/
  trace : List Event

/-- The three assignments to `*metric.baseMap[keyOut]`. -/
def storeFlow (baseMap : PtrMap InetV4Flow FlowStatsEntry) (keyOut : InetV4Flow)
    (valueOut : FlowStats) (t : Time) : PtrMap InetV4Flow FlowStatsEntry :=
  let baseMap := baseMap.modifyAt keyOut fun e => { e with stats := valueOut }
  let baseMap := baseMap.modifyAt keyOut fun e => { e with agingCounter := 0 }
  baseMap.modifyAt keyOut fun e => { e with timeStamp := t }

/-- One round of `for mIter.Next(&keyOut, &valueOut)`. -/
def scanFlow (t : Time) (s : Scan) (keyOut : InetV4Flow) (valueOut : FlowStats) : Scan :=
  let trace := .reported keyOut valueOut :: s.trace
  match s.metric.baseMap.find? keyOut with
  | none =>
    let baseMap := storeFlow (s.metric.baseMap.alloc keyOut {}) keyOut valueOut t
    let metric := { s.metric with baseMap := baseMap }
    let (podStatsKey, keyType) := getPodStatsKey metric.agent.toIndex keyOut
    { s with
      metric := metric.mergeStats keyType podStatsKey valueOut t
      trace := .merged keyOut keyType podStatsKey valueOut t :: trace }
  | some currStats =>
    if (s.metric.baseMap.deref currStats).stats = valueOut then
      let baseMap := s.metric.baseMap.modifyAt keyOut fun e =>
        { e with agingCounter := e.agingCounter + 1 }
      let metric := { s.metric with baseMap := baseMap }
      if 3 ≤ ((baseMap.val keyOut).getD default).agingCounter then
        { metric := metric, toDeleteList := s.toDeleteList ++ [keyOut], trace := trace }
      else { s with metric := metric, trace := trace }
    else
      let baseMap := storeFlow s.metric.baseMap keyOut valueOut t
      let metric := { s.metric with baseMap := baseMap }
      let (podStatsKey, keyType) := getPodStatsKey metric.agent.toIndex keyOut
      -- `currStats` points to the entry just overwritten
      let diffStats := diffFlowStats (baseMap.deref currStats).stats valueOut
      { s with
        metric := metric.mergeStats keyType podStatsKey diffStats t
        trace := .merged keyOut keyType podStatsKey diffStats t :: trace }

/-- The whole loop over what the iterator delivers. -/
def scanFlows (t : Time) (reports : List (InetV4Flow × FlowStats)) (s : Scan) : Scan :=
  reports.foldl (fun s r => scanFlow t s r.1 r.2) s

/-! ## Aging the aggregates -/

/-- One round of the loop over an aggregate table. -/
def ageEntry (t : Time) (s : PtrMap PodStatsKey FlowStatsEntry × List PodStatsKey)
    (k : PodStatsKey) : PtrMap PodStatsKey FlowStatsEntry × List PodStatsKey :=
  match s.1.find? k with
  | none => s
  | some v =>
    if (s.1.deref v).timeStamp ≠ t then
      let m := s.1.modifyAt k fun e => { e with agingCounter := e.agingCounter + 1 }
      if 3 ≤ ((m.val k).getD default).agingCounter then (m, s.2 ++ [k]) else (m, s.2)
    else s

/-- The loop, in the order Go's `range` happens to take. -/
def ageTable (t : Time) (order : List PodStatsKey) (m : PtrMap PodStatsKey FlowStatsEntry) :
    PtrMap PodStatsKey FlowStatsEntry × List PodStatsKey :=
  order.foldl (ageEntry t) (m, [])

/-- `order` visits every key once. -/
def Enumerates {K V : Type} [DecidableEq K] (order : List K) (m : PtrMap K V) : Prop :=
  order.Nodup ∧ order.toFinset = m.keys

instance {K V : Type} [DecidableEq K] (order : List K) (m : PtrMap K V) :
    Decidable (Enumerates order m) := inferInstanceAs (Decidable (_ ∧ _))

/-! ## The two critical sections -/

/-- What a scan leaves for its eviction. -/
structure Eviction where
  toDeleteList : List InetV4Flow
  toDeletePodStatsList : List PodStatsKey
  toDeleteSvcStatsList : List PodStatsKey
  toDeleteKnownStatsList : List PodStatsKey
  deriving DecidableEq, Repr

def Eviction.listOf (ev : Eviction) : Table → List PodStatsKey
  | .pod => ev.toDeletePodStatsList
  | .svc => ev.toDeleteSvcStatsList
  | .known => ev.toDeleteKnownStatsList

/-- What a scan finds: the time, the kernel's entries as the iterator delivers them, and the
orders in which the aggregate tables are walked. -/
structure ScanInput where
  t : Time
  reports : List (InetV4Flow × FlowStats)
  podOrder : List PodStatsKey
  svcOrder : List PodStatsKey
  knownOrder : List PodStatsKey
  deriving DecidableEq, Repr

/-- The orders are orders of the tables. -/
def ScanInput.OrdersOf (input : ScanInput) (metric : InetV4FlowMetricsEntry) : Prop :=
  Enumerates input.podOrder metric.podStatsMap ∧ Enumerates input.svcOrder metric.svcStatsMap
    ∧ Enumerates input.knownOrder metric.knownStatsMap

instance (input : ScanInput) (metric : InetV4FlowMetricsEntry) :
    Decidable (input.OrdersOf metric) := inferInstanceAs (Decidable (_ ∧ _))

/-- `UpdateStats` once the map is open, up to the unlock. -/
def finishScan (input : ScanInput) (s : Scan) : InetV4FlowMetricsEntry × Eviction :=
  let known := ageTable input.t input.knownOrder s.metric.knownStatsMap
  let pod := ageTable input.t input.podOrder s.metric.podStatsMap
  let svc := ageTable input.t input.svcOrder s.metric.svcStatsMap
  ({ s.metric with knownStatsMap := known.1, podStatsMap := pod.1, svcStatsMap := svc.1 },
    { toDeleteList := s.toDeleteList
      toDeletePodStatsList := pod.2
      toDeleteSvcStatsList := svc.2
      toDeleteKnownStatsList := known.2 })

/-- The goroutine once the map is open: what it does to the agent's own tables. An error of
`m2.Delete` is only logged. -/
def evictEntries (ev : Eviction) (metric : InetV4FlowMetricsEntry) : InetV4FlowMetricsEntry where
  baseMap := ev.toDeleteList.foldl PtrMap.erase metric.baseMap
  knownStatsMap := ev.toDeleteKnownStatsList.foldl PtrMap.erase metric.knownStatsMap
  podStatsMap := ev.toDeletePodStatsList.foldl PtrMap.erase metric.podStatsMap
  svcStatsMap := ev.toDeleteSvcStatsList.foldl PtrMap.erase metric.svcStatsMap
  agent := metric.agent

/-! ## What one report does -/

theorem val_storeFlow {baseMap : PtrMap InetV4Flow FlowStatsEntry} {key : InetV4Flow}
    {e : FlowStatsEntry} (h : baseMap.val key = some e) (v : FlowStats) (t : Time) :
    (storeFlow baseMap key v t).val
      = Function.update baseMap.val key
          (some { stats := v, agingCounter := 0, timeStamp := t }) := by
  simp [storeFlow, h]

theorem val_storeFlow_alloc (baseMap : PtrMap InetV4Flow FlowStatsEntry) (key : InetV4Flow)
    (v : FlowStats) (t : Time) :
    (storeFlow (baseMap.alloc key {}) key v t).val
      = Function.update baseMap.val key
          (some { stats := v, agingCounter := 0, timeStamp := t }) := by
  have hval : (baseMap.alloc key {}).val key = some {} := by simp
  rw [val_storeFlow hval, PtrMap.val_alloc, Function.update_idem]

theorem find?_storeFlow (baseMap : PtrMap InetV4Flow FlowStatsEntry) (key k : InetV4Flow)
    (v : FlowStats) (t : Time) : (storeFlow baseMap key v t).find? k = baseMap.find? k := by
  simp [storeFlow]

/-- The three things a report can turn out to be. -/
inductive Observation (t : Time) (s : Scan) (key : InetV4Flow) (v : FlowStats) : Scan → Prop
  /-- Nothing was known of the flow: all of its counters are merged. -/
  | new (b : PtrMap InetV4Flow FlowStatsEntry) (hnone : s.metric.baseMap.val key = none)
      (hb : b.val = Function.update s.metric.baseMap.val key
        (some { stats := v, agingCounter := 0, timeStamp := t })) :
      Observation t s key v
        { s with
          metric := { s.metric with baseMap := b }.mergeStats
            (getPodStatsKey s.metric.agent.toIndex key).2
            (getPodStatsKey s.metric.agent.toIndex key).1 v t
          trace := .merged key (getPodStatsKey s.metric.agent.toIndex key).2
            (getPodStatsKey s.metric.agent.toIndex key).1 v t :: .reported key v :: s.trace }
  /-- The counters have not moved: the flow ages, and is listed from the third time on. -/
  | unchanged (b : PtrMap InetV4Flow FlowStatsEntry) (e : FlowStatsEntry)
      (hval : s.metric.baseMap.val key = some e) (hsame : e.stats = v)
      (hb : b.val = Function.update s.metric.baseMap.val key
        (some { e with agingCounter := e.agingCounter + 1 })) :
      Observation t s key v
        { metric := { s.metric with baseMap := b }
          toDeleteList := if 3 ≤ e.agingCounter + 1 then s.toDeleteList ++ [key]
            else s.toDeleteList
          trace := .reported key v :: s.trace }
  /-- The counters have moved: the new ones are stored, and a difference of zero is merged. -/
  | changed (b : PtrMap InetV4Flow FlowStatsEntry) (e : FlowStatsEntry)
      (hval : s.metric.baseMap.val key = some e) (hdiff : e.stats ≠ v)
      (hb : b.val = Function.update s.metric.baseMap.val key
        (some { stats := v, agingCounter := 0, timeStamp := t })) :
      Observation t s key v
        { s with
          metric := { s.metric with baseMap := b }.mergeStats
            (getPodStatsKey s.metric.agent.toIndex key).2
            (getPodStatsKey s.metric.agent.toIndex key).1 0 t
          trace := .merged key (getPodStatsKey s.metric.agent.toIndex key).2
            (getPodStatsKey s.metric.agent.toIndex key).1 0 t :: .reported key v :: s.trace }

/-- **One report, in one of three ways.** The pointer read before the entry is overwritten
reads the overwritten entry, so a change is merged as nothing. -/
theorem scanFlow_observes (t : Time) (s : Scan) (key : InetV4Flow) (v : FlowStats) :
    Observation t s key v (scanFlow t s key v) := by
  unfold scanFlow
  cases hp : s.metric.baseMap.find? key with
  | none =>
      exact .new _ (PtrMap.val_eq_none.mpr hp) (val_storeFlow_alloc _ key v t)
  | some p =>
      have hval := PtrMap.val_of_find? hp
      by_cases hsame : (s.metric.baseMap.deref p).stats = v
      · have hb : (s.metric.baseMap.modifyAt key fun e =>
            { e with agingCounter := e.agingCounter + 1 }).val
            = Function.update s.metric.baseMap.val key
              (some { s.metric.baseMap.deref p with
                agingCounter := (s.metric.baseMap.deref p).agingCounter + 1 }) := by
          rw [PtrMap.val_modifyAt, hval]
          rfl
        have hobs := Observation.unchanged (t := t) (s := s) _ _ hval hsame hb
        dsimp only
        rw [if_pos hsame, hb, Function.update_self]
        dsimp only [Option.getD_some]
        split_ifs at hobs ⊢
        · exact hobs
        · exact hobs
      · have hb := val_storeFlow hval v t
        have hp' : (storeFlow s.metric.baseMap key v t).find? key = some p :=
          (find?_storeFlow ..).trans hp
        -- the pointer is older than the store, and sees it all the same
        have hread : ((storeFlow s.metric.baseMap key v t).deref p).stats = v := by
          have hk := PtrMap.val_of_find? hp'
          rw [hb, Function.update_self] at hk
          rw [← Option.some.inj hk]
        have hobs := Observation.changed (t := t) (s := s) _ _ hval hsame hb
        dsimp only
        rw [if_neg hsame, hread, diffFlowStats_self]
        exact hobs

/-- **Loop rule for a scan**: what each observation keeps, the whole loop keeps. -/
theorem scanFlows_inv {I : Scan → Prop} {t : Time} {reports : List (InetV4Flow × FlowStats)}
    (hstep : ∀ s s' r, r ∈ reports → I s → Observation t s r.1 r.2 s' → I s') {s : Scan}
    (h0 : I s) : I (scanFlows t reports s) := by
  induction reports generalizing s with
  | nil => exact h0
  | cons r rs ih =>
      refine ih (fun s s' r' hr' => hstep s s' r' (List.mem_cons_of_mem _ hr')) ?_
      exact hstep s _ r (List.mem_cons_self ..) h0 (scanFlow_observes t s r.1 r.2)

/-- Whatever a report turns out to be, it is stored. -/
theorem Observation.stored {t : Time} {s s' : Scan} {key : InetV4Flow} {v : FlowStats}
    (h : Observation t s key v s') :
    ∃ e, s'.metric.baseMap.val = Function.update s.metric.baseMap.val key (some e)
      ∧ e.stats = v := by
  cases h with
  | new b _ hb => exact ⟨_, (congrArg PtrMap.val baseMap_mergeStats).trans hb, rfl⟩
  | unchanged b e _ hsame hb => exact ⟨_, hb, hsame⟩
  | changed b e _ _ hb => exact ⟨_, (congrArg PtrMap.val baseMap_mergeStats).trans hb, rfl⟩

/-- **A scan leaves `baseMap` with what was reported**, each key once, and with what it had. -/
theorem stored_scanFlows {t : Time} {reports : List (InetV4Flow × FlowStats)} {s : Scan}
    (hnd : (reports.map Prod.fst).Nodup) :
    (∀ r ∈ reports, ∃ e, (scanFlows t reports s).metric.baseMap.val r.1 = some e
      ∧ e.stats = r.2) ∧
    (∀ K, K ∉ reports.map Prod.fst →
      (scanFlows t reports s).metric.baseMap.val K = s.metric.baseMap.val K) := by
  induction reports generalizing s with
  | nil => exact ⟨fun r hr => absurd hr List.not_mem_nil, fun K _ => rfl⟩
  | cons r rs ih =>
      rw [List.map_cons, List.nodup_cons] at hnd
      obtain ⟨hr, hrs⟩ := hnd
      obtain ⟨hrep, hother⟩ := @ih (scanFlow t s r.1 r.2) hrs
      obtain ⟨e, he, hv⟩ := (scanFlow_observes t s r.1 r.2).stored
      refine ⟨?_, ?_⟩
      · intro r' hr'
        rcases List.mem_cons.mp hr' with rfl | hmem
        · refine ⟨e, ?_, hv⟩
          rw [scanFlows, List.foldl_cons]
          exact (hother r'.1 hr).trans (by rw [he, Function.update_self])
        · exact hrep r' hmem
      · intro K hK
        rw [List.map_cons, List.mem_cons, not_or] at hK
        rw [scanFlows, List.foldl_cons]
        exact (hother K hK.2).trans (by rw [he, Function.update_of_ne hK.1])

/-! ## What aging does -/

/-- An entry that was not merged into at `t` grows older. -/
def FlowStatsEntry.aged (t : Time) (e : FlowStatsEntry) : FlowStatsEntry :=
  if e.timeStamp ≠ t then { e with agingCounter := e.agingCounter + 1 } else e

/-- The entry is listed for deletion. -/
def FlowStatsEntry.Due (t : Time) (e : FlowStatsEntry) : Prop :=
  e.timeStamp ≠ t ∧ 3 ≤ e.agingCounter + 1

instance (t : Time) (e : FlowStatsEntry) : Decidable (e.Due t) :=
  inferInstanceAs (Decidable (_ ∧ _))

theorem ageEntry_val (t : Time) (s : PtrMap PodStatsKey FlowStatsEntry × List PodStatsKey)
    (k : PodStatsKey) :
    (ageEntry t s k).1.val = Function.update s.1.val k ((s.1.val k).map (FlowStatsEntry.aged t)) := by
  unfold ageEntry
  cases hp : s.1.find? k with
  | none =>
      have hv : s.1.val k = none := PtrMap.val_eq_none.mpr hp
      rw [hv, Option.map_none, ← hv, Function.update_eq_self]
  | some p =>
      have hv := PtrMap.val_of_find? hp
      by_cases ht : (s.1.deref p).timeStamp = t
      · -- merged into at `t`: the loop passes it over
        have haged : (s.1.deref p).aged t = s.1.deref p := by simp [FlowStatsEntry.aged, ht]
        dsimp only
        rw [if_neg (not_not.mpr ht), hv, Option.map_some, haged, ← hv, Function.update_eq_self]
      · have haged : (s.1.deref p).aged t
            = { s.1.deref p with agingCounter := (s.1.deref p).agingCounter + 1 } := by
          simp [FlowStatsEntry.aged, ht]
        dsimp only
        rw [if_pos ht, hv, Option.map_some, haged]
        have hm : (s.1.modifyAt k fun e => { e with agingCounter := e.agingCounter + 1 }).val
            = Function.update s.1.val k (some { s.1.deref p with
              agingCounter := (s.1.deref p).agingCounter + 1 }) := by
          rw [PtrMap.val_modifyAt, hv]
          rfl
        split_ifs <;> exact hm

theorem mem_ageEntry (t : Time) (s : PtrMap PodStatsKey FlowStatsEntry × List PodStatsKey)
    (k x : PodStatsKey) :
    x ∈ (ageEntry t s k).2 ↔ x ∈ s.2 ∨ (x = k ∧ ∃ e, s.1.val k = some e ∧ e.Due t) := by
  unfold ageEntry
  cases hp : s.1.find? k with
  | none =>
      have hv : s.1.val k = none := PtrMap.val_eq_none.mpr hp
      simp [hv]
  | some p =>
      have hv := PtrMap.val_of_find? hp
      by_cases ht : (s.1.deref p).timeStamp = t
      · dsimp only
        rw [if_neg (not_not.mpr ht), hv]
        simp [FlowStatsEntry.Due, ht]
      · have hm : (((s.1.modifyAt k fun e => { e with agingCounter := e.agingCounter + 1 }).val
            k).getD default).agingCounter = (s.1.deref p).agingCounter + 1 := by
          rw [PtrMap.val_modifyAt, Function.update_self, hv]
          rfl
        dsimp only
        rw [if_pos ht, hm, hv]
        split_ifs with h3
        · simp [FlowStatsEntry.Due, ht, h3]
        · simp [FlowStatsEntry.Due, ht, h3]

/-- The loop from any point on. -/
theorem foldl_ageEntry {t : Time} {order : List PodStatsKey} (hnd : order.Nodup)
    (s : PtrMap PodStatsKey FlowStatsEntry × List PodStatsKey) :
    (∀ k, (order.foldl (ageEntry t) s).1.val k
      = if k ∈ order then (s.1.val k).map (FlowStatsEntry.aged t) else s.1.val k) ∧
    (∀ k, k ∈ (order.foldl (ageEntry t) s).2
      ↔ k ∈ s.2 ∨ (k ∈ order ∧ ∃ e, s.1.val k = some e ∧ e.Due t)) := by
  induction order generalizing s with
  | nil => simp
  | cons x xs ih =>
      obtain ⟨hx, hxs⟩ := List.nodup_cons.mp hnd
      obtain ⟨hval, hmem⟩ := ih hxs (ageEntry t s x)
      rw [List.foldl_cons]
      refine ⟨fun k => ?_, fun k => ?_⟩
      · rw [hval, ageEntry_val]
        by_cases hk : k = x
        · subst hk; simp [hx]
        · simp [hk]
      · rw [hmem, mem_ageEntry, ageEntry_val]
        by_cases hk : k = x
        · subst hk; simp [hx]
        · simp [hk]

/-- **Aging a table ages its entries.** -/
theorem val_ageTable {t : Time} {order : List PodStatsKey}
    {m : PtrMap PodStatsKey FlowStatsEntry} (h : Enumerates order m) (k : PodStatsKey) :
    (ageTable t order m).1.val k = (m.val k).map (FlowStatsEntry.aged t) := by
  rw [ageTable, (foldl_ageEntry h.1 (m, [])).1 k]
  split_ifs with hk
  · rfl
  · -- the order leaves out no key, so this is none
    have hnone : m.val k = none := by
      rw [← Option.not_isSome_iff_eq_none, ← PtrMap.mem_keys, ← h.2, List.mem_toFinset]
      exact hk
    rw [hnone]
    rfl

/-- **It lists the entries that are due.** -/
theorem mem_ageTable {t : Time} {order : List PodStatsKey}
    {m : PtrMap PodStatsKey FlowStatsEntry} (h : Enumerates order m) (k : PodStatsKey) :
    k ∈ (ageTable t order m).2 ↔ ∃ e, m.val k = some e ∧ e.Due t := by
  rw [ageTable, (foldl_ageEntry h.1 (m, [])).2 k]
  constructor
  · rintro (hnil | ⟨-, he⟩)
    · exact absurd hnil List.not_mem_nil
    · exact he
  · rintro ⟨e, he, hdue⟩
    refine Or.inr ⟨?_, e, he, hdue⟩
    rw [← List.mem_toFinset, h.2, PtrMap.mem_keys, he]
    rfl

section FinishScan

variable {input : ScanInput} {s : Scan}

theorem val_finishScan (h : input.OrdersOf s.metric) (T : Table) (k : PodStatsKey) :
    ((finishScan input s).1.table T).val k
      = ((s.metric.table T).val k).map (FlowStatsEntry.aged input.t) := by
  cases T with
  | pod => exact val_ageTable h.1 k
  | svc => exact val_ageTable h.2.1 k
  | known => exact val_ageTable h.2.2 k

theorem mem_finishScan (h : input.OrdersOf s.metric) (T : Table) (k : PodStatsKey) :
    k ∈ (finishScan input s).2.listOf T
      ↔ ∃ e, (s.metric.table T).val k = some e ∧ e.Due input.t := by
  cases T with
  | pod => exact mem_ageTable h.1 k
  | svc => exact mem_ageTable h.2.1 k
  | known => exact mem_ageTable h.2.2 k

end FinishScan

/-! ## What an eviction does -/

theorem val_baseMap_evictEntries (ev : Eviction) (metric : InetV4FlowMetricsEntry)
    (k : InetV4Flow) :
    (evictEntries ev metric).baseMap.val k
      = if k ∈ ev.toDeleteList then none else metric.baseMap.val k :=
  PtrMap.val_foldl_erase ev.toDeleteList metric.baseMap k

theorem val_table_evictEntries (ev : Eviction) (metric : InetV4FlowMetricsEntry) (T : Table)
    (k : PodStatsKey) :
    ((evictEntries ev metric).table T).val k
      = if k ∈ ev.listOf T then none else (metric.table T).val k := by
  cases T with
  | pod => exact PtrMap.val_foldl_erase ev.toDeletePodStatsList metric.podStatsMap k
  | svc => exact PtrMap.val_foldl_erase ev.toDeleteSvcStatsList metric.svcStatsMap k
  | known => exact PtrMap.val_foldl_erase ev.toDeleteKnownStatsList metric.knownStatsMap k

/-- The flows an eviction leaves are those that were known and are not on its list. -/
theorem baseMap_evictEntries_eq_some {ev : Eviction} {metric : InetV4FlowMetricsEntry}
    {k : InetV4Flow} {e : FlowStatsEntry} :
    (evictEntries ev metric).baseMap.val k = some e
      ↔ k ∉ ev.toDeleteList ∧ metric.baseMap.val k = some e := by
  rw [val_baseMap_evictEntries, Option.ite_none_left_eq_some]

theorem table_evictEntries_eq_some {ev : Eviction} {metric : InetV4FlowMetricsEntry} {T : Table}
    {k : PodStatsKey} {e : FlowStatsEntry} :
    ((evictEntries ev metric).table T).val k = some e
      ↔ k ∉ ev.listOf T ∧ (metric.table T).val k = some e := by
  rw [val_table_evictEntries, Option.ite_none_left_eq_some]

end Kubpf.Agent
