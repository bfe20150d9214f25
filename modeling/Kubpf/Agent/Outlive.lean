import Kubpf.Agent.Endpoints
import Kubpf.Agent.Merged

/-!
# Aggregates outlive the flows that feed them

A flow ages when a scan finds its counters where they were; an aggregate ages when
a scan ends and its timestamp is not that scan's. The two are aged in different
loops, by different tests, and an aggregate must still not be dropped before the
flows that feed it.

As long as each scan is followed at once by its eviction, and reports every flow
of `baseMap`, it is not. Between rounds, an entry is no older than any flow that
feeds it (`Covered`). Within a scan, a flow's entry was either merged into by this
scan, and will not age, or it is no older than the flow, and strictly younger once
the flow has been reported (`Covering`). That one scan of advance is what the
aging loop takes back.
-/

namespace Kubpf.Agent

open Lib

/-- A scan and, at once, its eviction. -/
def AgentWorld.round (w : AgentWorld) (input : ScanInput) : Option AgentWorld :=
  run AgentWorld.step w [.scan input, .evict 0 false]

/-- The scan reports every flow of `baseMap`: all of them are still in the kernel map, and what
is in the kernel map is reported. -/
def ReportsTracked (w : AgentWorld) (input : ScanInput) : Prop :=
  ∀ K ∈ w.metric.baseMap.keys, K ∈ input.reports.map Prod.fst

instance (w : AgentWorld) (input : ScanInput) : Decidable (ReportsTracked w input) :=
  inferInstanceAs (Decidable (∀ K ∈ w.metric.baseMap.keys, K ∈ input.reports.map Prod.fst))

/-! ## Between rounds -/

/-- Every tracked flow is young, and no entry it feeds is older. -/
structure Covered (index : Index) (w : AgentWorld) : Prop where
  idx : w.metric.agent.toIndex = index
  none_pending : w.pending = []
  young : ∀ K e, w.metric.baseMap.val K = some e → e.agingCounter < 3
  fed : ∀ K e, w.metric.baseMap.val K = some e → ∀ sh ∈ flowShares index K,
    ∃ a, (w.metric.table sh.table).val sh.key = some a ∧ a.agingCounter ≤ e.agingCounter

theorem covered_init (index : Index) : Covered index (freshAgent index) where
  idx := rfl
  none_pending := rfl
  young := fun K e he => absurd ((PtrMap.val_empty K).symm.trans he) (by simp)
  fed := fun K e he => absurd ((PtrMap.val_empty K).symm.trans he) (by simp)

/-! ## Within a scan -/

/-- An entry is far enough behind its flow: this scan will not age it, or the flow has a lead
over it, which the flow gains when it is reported. -/
def Behind (t : Time) (reported : Prop) (e a : FlowStatsEntry) : Prop :=
  (a.timeStamp = t ∧ a.agingCounter = 0) ∨
    (a.agingCounter ≤ e.agingCounter ∧ (reported → a.agingCounter < e.agingCounter))

/-- What the loop over the kernel map keeps, `done` having been reported. Nothing is asked of a
flow that is listed for deletion. -/
structure Covering (index : Index) (t : Time) (w : AgentWorld) (done : List InetV4Flow)
    (s : Scan) : Prop where
  idx : s.metric.agent.toIndex = index
  known : ∀ K e, s.metric.baseMap.val K = some e → K ∈ w.metric.baseMap.keys ∨ K ∈ done
  young : ∀ K e, s.metric.baseMap.val K = some e → K ∉ s.toDeleteList → e.agingCounter < 3
  fed : ∀ K e, s.metric.baseMap.val K = some e → K ∉ s.toDeleteList → ∀ sh ∈ flowShares index K,
    ∃ a, (s.metric.table sh.table).val sh.key = some a ∧ Behind t (K ∈ done) e a

theorem covering_init {index : Index} {w : AgentWorld} (h : Covered index w) (t : Time) :
    Covering index t w [] { metric := w.metric, toDeleteList := [], trace := w.trace } where
  idx := h.idx
  known := fun K e he => Or.inl (PtrMap.mem_keys.mpr (Option.isSome_of_eq_some he))
  young := fun K e he _ => h.young K e he
  fed := by
    intro K e he _ sh hsh
    obtain ⟨a, ha, hle⟩ := h.fed K e he sh hsh
    exact ⟨a, ha, Or.inr ⟨hle, fun hmem => absurd hmem List.not_mem_nil⟩⟩

section Step

variable {index : Index} {t : Time} {w : AgentWorld} {done : List InetV4Flow} {s s' : Scan}
  {key : InetV4Flow} {v : FlowStats}

/-- An entry that was behind its flow still is, when the flow was not the one reported. -/
theorem behind_of_merges {K : InetV4Flow} {e : FlowStatsEntry} {T : Table} {k : PodStatsKey}
    (hne : K ≠ key) (hobs : Observation t s key v s')
    (h : ∃ a, (s.metric.table T).val k = some a ∧ Behind t (K ∈ done) e a) :
    ∃ a, (s'.metric.table T).val k = some a ∧ Behind t (K ∈ done ++ [key]) e a := by
  obtain ⟨a, ha, hbehind⟩ := h
  rcases hobs.merges.2 T k with hsame | ⟨-, a', ha', hage, hts⟩
  · refine ⟨a, hsame.trans ha, hbehind.imp_right (And.imp_right fun hlt hmem => hlt ?_)⟩
    rcases List.mem_append.mp hmem with hmem | hmem
    · exact hmem
    · exact absurd (List.mem_singleton.mp hmem) hne
  · -- merged into for another flow, which makes it as young as can be
    exact ⟨a', ha', Or.inl ⟨hts, hage⟩⟩

/-- Flows other than the one reported are covered as before. -/
theorem Covering.fed_of_ne (h : Covering index t w done s) (hobs : Observation t s key v s')
    {K : InetV4Flow} {e : FlowStatsEntry} (hne : K ≠ key)
    (he : s.metric.baseMap.val K = some e) (hlist : K ∉ s.toDeleteList) :
    ∀ sh ∈ flowShares index K, ∃ a, (s'.metric.table sh.table).val sh.key = some a
      ∧ Behind t (K ∈ done ++ [key]) e a :=
  fun sh hsh => behind_of_merges hne hobs (h.fed K e he hlist sh hsh)

/-- A report that is merged leaves the flow, and everything it feeds, as young as can be. -/
theorem covering_merged (h : Covering index t w done s) (hobs : Observation t s key v s')
    (hlist : s'.toDeleteList = s.toDeleteList)
    (hbase : s'.metric.baseMap.val = Function.update s.metric.baseMap.val key
      (some { stats := v, agingCounter := 0, timeStamp := t }))
    (htouched : ∀ sh ∈ flowShares index key, ∃ a,
      (s'.metric.table sh.table).val sh.key = some a ∧ a.timeStamp = t ∧ a.agingCounter = 0) :
    Covering index t w (done ++ [key]) s' := by
  refine ⟨hobs.merges.1.trans h.idx, ?_, ?_, ?_⟩
  · intro K e he
    by_cases hK : K = key
    · exact Or.inr (by rw [hK]; simp)
    · rw [hbase, Function.update_of_ne hK] at he
      exact (h.known K e he).imp_right (List.mem_append_left _)
  · intro K e he hnot
    rw [hlist] at hnot
    by_cases hK : K = key
    · rw [hbase, hK, Function.update_self] at he
      rw [← Option.some.inj he]
      exact (by decide : (0 : UInt8) < 3)
    · rw [hbase, Function.update_of_ne hK] at he
      exact h.young K e he hnot
  · intro K e he hnot
    rw [hlist] at hnot
    by_cases hK : K = key
    · subst hK
      intro sh hsh
      obtain ⟨a, ha, hyoung⟩ := htouched sh hsh
      exact ⟨a, ha, Or.inl hyoung⟩
    · rw [hbase, Function.update_of_ne hK] at he
      exact h.fed_of_ne hobs hK he hnot

/-- A report that finds nothing new puts the flow one scan ahead of what it feeds. -/
theorem covering_unchanged (h : Covering index t w done s) (hobs : Observation t s key v s')
    {e : FlowStatsEntry} (hval : s.metric.baseMap.val key = some e)
    (hlist : s'.toDeleteList
      = if 3 ≤ e.agingCounter + 1 then s.toDeleteList ++ [key] else s.toDeleteList)
    (hbase : s'.metric.baseMap.val = Function.update s.metric.baseMap.val key
      (some { e with agingCounter := e.agingCounter + 1 }))
    (htables : ∀ T, s'.metric.table T = s.metric.table T) :
    Covering index t w (done ++ [key]) s' := by
  have hsub : ∀ K, K ∉ s'.toDeleteList → K ∉ s.toDeleteList := by
    intro K hnot hmem
    rw [hlist] at hnot
    split_ifs at hnot
    · exact hnot (List.mem_append_left _ hmem)
    · exact hnot hmem
  -- the flow reported is listed unless it is young still
  have hself : key ∉ s'.toDeleteList → ¬ 3 ≤ e.agingCounter + 1 := by
    intro hnot hdue
    rw [hlist, if_pos hdue] at hnot
    exact hnot (by simp)
  refine ⟨hobs.merges.1.trans h.idx, ?_, ?_, ?_⟩
  · intro K e' he'
    by_cases hK : K = key
    · exact Or.inr (by rw [hK]; simp)
    · rw [hbase, Function.update_of_ne hK] at he'
      exact (h.known K e' he').imp_right (List.mem_append_left _)
  · intro K e' he' hnot
    by_cases hK : K = key
    · subst hK
      rw [hbase, Function.update_self] at he'
      rw [← Option.some.inj he']
      have := hself hnot
      dsimp only
      grind
    · rw [hbase, Function.update_of_ne hK] at he'
      exact h.young K e' he' (hsub K hnot)
  · intro K e' he' hnot
    by_cases hK : K = key
    · subst hK
      rw [hbase, Function.update_self] at he'
      rw [← Option.some.inj he']
      intro sh hsh
      obtain ⟨a, ha, hbehind⟩ := h.fed K e hval (hsub K hnot) sh hsh
      refine ⟨a, by rw [htables]; exact ha, hbehind.imp_right fun hle => ?_⟩
      have hyoung := h.young K e hval (hsub K hnot)
      -- the flow is below 3, so adding 1 does not wrap
      have hlead : a.agingCounter < e.agingCounter + 1 := by
        have := hle.1
        grind
      exact ⟨by dsimp only; grind, fun _ => hlead⟩
    · rw [hbase, Function.update_of_ne hK] at he'
      exact h.fed_of_ne hobs hK he' (hsub K hnot)

/-- **One report.** -/
theorem covering_observation (h : Covering index t w done s) (hobs : Observation t s key v s') :
    Covering index t w (done ++ [key]) s' := by
  have hidx := h.idx
  cases hobs with
  | new b hnone hb =>
      refine covering_merged h (.new b hnone hb) rfl
        ((congrArg PtrMap.val baseMap_mergeStats).trans hb) (fun sh hsh => ?_)
      rw [← hidx] at hsh
      obtain ⟨a, ha, hage, hts⟩ := val_mergeStats_of_mem ⟨sh, hsh, rfl, rfl⟩
      exact ⟨a, ha, hts, hage⟩
  | unchanged b e hval hsame hb =>
      exact covering_unchanged h (.unchanged b e hval hsame hb) hval rfl hb
        (fun T => table_withBaseMap ..)
  | changed b e hval hdiff hb =>
      refine covering_merged h (.changed b e hval hdiff hb) rfl
        ((congrArg PtrMap.val baseMap_mergeStats).trans hb) (fun sh hsh => ?_)
      rw [← hidx] at hsh
      obtain ⟨a, ha, hage, hts⟩ := val_mergeStats_of_mem ⟨sh, hsh, rfl, rfl⟩
      exact ⟨a, ha, hts, hage⟩

/-- **The whole loop.** -/
theorem covering_scanFlows {reports : List (InetV4Flow × FlowStats)}
    (h : Covering index t w done s) :
    Covering index t w (done ++ reports.map Prod.fst) (scanFlows t reports s) := by
  induction reports generalizing done s with
  | nil => rw [List.map_nil, List.append_nil]; exact h
  | cons r rs ih =>
      have hone := covering_observation h (scanFlow_observes t s r.1 r.2)
      have hrest := ih hone
      rw [List.append_assoc] at hrest
      exact hrest

end Step

/-! ## A round -/

/-- An entry behind its flow, once aged, is no older than the flow, and not listed. -/
theorem Behind.aged {t : Time} {e a : FlowStatsEntry} (h : Behind t True e a)
    (hyoung : e.agingCounter < 3) :
    (a.aged t).agingCounter ≤ e.agingCounter ∧ ¬ a.Due t := by
  -- merged into by this scan and not aged, or younger than the flow and aged by one
  rcases h with ⟨hts, hage⟩ | ⟨-, hlt⟩
  · refine ⟨?_, fun hdue => hdue.1 hts⟩
    rw [FlowStatsEntry.aged, if_neg (not_not.mpr hts), hage]
    exact UInt8.zero_le
  · have hlt := hlt trivial
    refine ⟨?_, fun hdue => ?_⟩
    · unfold FlowStatsEntry.aged
      split_ifs
      · dsimp only
        grind
      · exact UInt8.le_of_lt hlt
    · have := hdue.2
      grind

/-- An entry of `K` at `T` is left by the scan, survives the eviction, and is no older. -/
def Outlasts (w₁ w₂ : AgentWorld) (e : FlowStatsEntry) (T : Table) (k : PodStatsKey) : Prop :=
  ∃ a, (w₁.metric.table T).val k = some a ∧ (w₂.metric.table T).val k = some a
    ∧ a.agingCounter ≤ e.agingCounter

section Round

variable {index : Index} {w w₁ w₂ : AgentWorld} {input : ScanInput}

/-- **A flow that a round leaves in `baseMap` is young, and its entries outlast the round.** -/
theorem outlasts_round (h : Covered index w) (hall : ReportsTracked w input)
    (hscan : w.step (.scan input) = some w₁) (hevict : w₁.step (.evict 0 false) = some w₂) :
    w₂.metric.agent.toIndex = index ∧ w₂.pending = [] ∧
    ∀ K e, w₂.metric.baseMap.val K = some e → e.agingCounter < 3 ∧
      ∀ sh ∈ flowShares index K, Outlasts w₁ w₂ e sh.table sh.key := by
  cases AgentWorld.step_inv hscan with
  | scan _ horder =>
  cases AgentWorld.step_inv hevict with
  | evict _ ev hev =>
  have hcov : Covering index input.t w ([] ++ input.reports.map Prod.fst) (w.scanned input) :=
    covering_scanFlows (covering_init h input.t)
  rw [List.nil_append] at hcov
  dsimp only at hev ⊢
  rw [h.none_pending, List.nil_append] at hev ⊢
  have hee : (finishScan input (w.scanned input)).2 = ev := Option.some.inj hev
  subst hee
  refine ⟨hcov.idx, rfl, fun K e he => ?_⟩
  obtain ⟨hlist, he⟩ := baseMap_evictEntries_eq_some.mp he
  have hyoung := hcov.young K e he hlist
  have hdone : K ∈ input.reports.map Prod.fst := (hcov.known K e he).elim (hall K) id
  refine ⟨hyoung, fun sh hsh => ?_⟩
  obtain ⟨a, ha, hbehind⟩ := hcov.fed K e he hlist sh hsh
  have hahead : Behind input.t True e a :=
    hbehind.imp_right fun hb => ⟨hb.1, fun _ => hb.2 hdone⟩
  obtain ⟨hle, hdue⟩ := hahead.aged hyoung
  have hleft : ((finishScan input (w.scanned input)).1.table sh.table).val sh.key
      = some (a.aged input.t) := by
    rw [val_finishScan horder, ha, Option.map_some]
  -- the entry is not on the list, so the eviction leaves it
  have hkeep : sh.key ∉ (finishScan input (w.scanned input)).2.listOf sh.table := by
    rw [mem_finishScan horder]
    rintro ⟨a', ha', hdue'⟩
    rw [Option.some.inj (ha'.symm.trans ha)] at hdue'
    exact hdue hdue'
  exact ⟨a.aged input.t, hleft, table_evictEntries_eq_some.mpr ⟨hkeep, hleft⟩, hle⟩

theorem covered_round (h : Covered index w) (hall : ReportsTracked w input)
    (hround : w.round input = some w₂) : Covered index w₂ := by
  obtain ⟨w₁, hscan, hrest⟩ := run_cons_eq_some hround
  obtain ⟨w₂', hevict, hnil⟩ := run_cons_eq_some hrest
  rw [run_nil] at hnil
  rw [← Option.some.inj hnil]
  obtain ⟨hidx, hpend, hout⟩ := outlasts_round h hall hscan hevict
  refine ⟨hidx, hpend, fun K e he => (hout K e he).1, fun K e he sh hsh => ?_⟩
  obtain ⟨a, -, ha, hle⟩ := (hout K e he).2 sh hsh
  exact ⟨a, ha, hle⟩

theorem covered_rounds {inputs : List ScanInput} (h : Covered index w)
    (hall : Along AgentWorld.round ReportsTracked w inputs)
    (hr : run AgentWorld.round w inputs = some w₂) : Covered index w₂ :=
  run_inv_along (I := Covered index) (fun _ _ _ h hP hs => covered_round h hP hs) h hall hr

end Round

/-! ## By endpoints -/

theorem mem_flowShares_pod {index : Index} (h : index.NoSharedIp) {K : InetV4Flow} {ip : String}
    (hip : ip = getSrcIp K ∨ ip = getDstIp K) (hpod : index.isPod ip = true) :
    ∃ swapped, ⟨.pod, index.endpointKey ip, swapped⟩ ∈ flowShares index K := by
  rw [flowShares_eq h]
  rcases hip with rfl | rfl
  · exact ⟨false, by simp [endpointShares, hpod]⟩
  · exact ⟨true, by simp [endpointShares, hpod]⟩

theorem mem_flowShares_svc {index : Index} (h : index.NoSharedIp) {K : InetV4Flow} {ip : String}
    (hip : ip = getSrcIp K ∨ ip = getDstIp K) (hsvc : index.isSvc ip = true) :
    ∃ swapped, ⟨.svc, index.endpointKey ip, swapped⟩ ∈ flowShares index K := by
  rw [flowShares_eq h]
  rcases hip with rfl | rfl
  · exact ⟨false, by simp [endpointShares, hsvc]⟩
  · exact ⟨true, by simp [endpointShares, hsvc]⟩

theorem mem_flowShares_known {index : Index} (h : index.NoSharedIp) {K : InetV4Flow}
    (hmixed : index.mixed K = true) : ⟨.known, index.pairKey K, true⟩ ∈ flowShares index K := by
  rw [flowShares_eq h]
  simp [hmixed]

/--
**Aggregates outlive the flows that feed them.**

After any number of rounds, the last of them leading from `w` through `w₁` to `w₂`:
a flow in `baseMap` is younger than 3, and the pod or service at each of its ends,
and the pair if they are one of each, has an entry no older than the flow; it is
the entry the scan left, the eviction not having touched it.
-/
theorem aggregates_outlive_flows (index : Index) (hindex : index.NoSharedIp)
    (inputs : List ScanInput) (input : ScanInput) (w w₁ w₂ : AgentWorld)
    (hall : Along AgentWorld.round ReportsTracked (freshAgent index) (inputs ++ [input]))
    (hrun : run AgentWorld.round (freshAgent index) inputs = some w)
    (hscan : w.step (.scan input) = some w₁) (hevict : w₁.step (.evict 0 false) = some w₂)
    (K : InetV4Flow) (e : FlowStatsEntry) (he : w₂.metric.baseMap.val K = some e) :
    e.agingCounter < 3 ∧
    (∀ ip, ip = getSrcIp K ∨ ip = getDstIp K →
      (index.isPod ip = true → Outlasts w₁ w₂ e .pod (index.endpointKey ip)) ∧
      (index.isSvc ip = true → Outlasts w₁ w₂ e .svc (index.endpointKey ip))) ∧
    (index.mixed K = true → Outlasts w₁ w₂ e .known (index.pairKey K)) := by
  obtain ⟨hpast, hlast⟩ := (along_append hrun).mp hall
  have hcov : Covered index w := covered_rounds (covered_init index) hpast hrun
  obtain ⟨-, -, hout⟩ := outlasts_round hcov hlast.1 hscan hevict
  obtain ⟨hyoung, hshares⟩ := hout K e he
  refine ⟨hyoung, fun ip hip => ⟨fun hpod => ?_, fun hsvc => ?_⟩, fun hmixed => ?_⟩
  · obtain ⟨swapped, hmem⟩ := mem_flowShares_pod hindex hip hpod
    exact hshares _ hmem
  · obtain ⟨swapped, hmem⟩ := mem_flowShares_svc hindex hip hsvc
    exact hshares _ hmem
  · exact hshares _ (mem_flowShares_known hindex hmixed)

/-- The key of the pair. -/
def clientDns : PodStatsKey := ⟨("kube-system/dns/clusterIp", "default/client")⟩

/-- A scan that finds one answer of the name server. -/
def answerScan (t : Time) : ScanInput where
  t := t
  reports := [(answerFlow, ⟨92, 1, 0, 0⟩)]
  podOrder := [⟨("default/client", "")⟩]
  svcOrder := [⟨("kube-system/dns/clusterIp", "")⟩]
  knownOrder := [clientDns]

theorem aggregates_outlive_flows_answer :
    ∃ w w₁ w₂ e, run AgentWorld.round (freshAgent clientIndex) [answerScan 1, answerScan 2] = some w
      ∧ w.step (.scan (answerScan 3)) = some w₁ ∧ w₁.step (.evict 0 false) = some w₂
      ∧ w₂.metric.baseMap.val answerFlow = some e ∧ e.agingCounter = 2
      ∧ Outlasts w₁ w₂ e .known clientDns :=
  ⟨_, _, _, _, rfl, rfl, rfl, rfl, rfl,
    (aggregates_outlive_flows clientIndex (by decide) [answerScan 1, answerScan 2] (answerScan 3)
      _ _ _ (by decide) rfl rfl rfl answerFlow _ rfl).2.2 (by decide)⟩

end Kubpf.Agent
