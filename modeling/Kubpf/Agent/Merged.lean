import Kubpf.Agent.Runs

/-!
# What scans merge

Scans are meant to hand every increase of a flow's counters to `mergeStats`, so
that the amounts merged add up to the counters last read. They hand over the
first counters read and nothing else: a later change is stored before the
difference to it is taken, and the difference is zero.

The invariant follows one flow through a run in which it is not evicted. Before
its first report it is unknown and nothing has been merged; from then on it is
known, and what has been merged is that first report.
-/

namespace Kubpf.Agent

open Lib

/-- What a list of reports says about a flow. -/
def reportsOf (K : InetV4Flow) (reports : List (InetV4Flow × FlowStats)) : List FlowStats :=
  (reports.filter fun r => r.1 = K).map Prod.snd

/-- What the scans of a run are told about a flow. -/
def scansOf (K : InetV4Flow) : List AgentLabel → List FlowStats
  | [] => []
  | .scan input :: ls => reportsOf K input.reports ++ scansOf K ls
  | _ :: ls => scansOf K ls

/-- An eviction leaves the flow alone. -/
def Spares (K : InetV4Flow) (w : AgentWorld) : AgentLabel → Prop
  | .evict n false => ∀ ev ∈ w.pending[n]?, K ∉ ev.toDeleteList
  | _ => True

instance (K : InetV4Flow) (w : AgentWorld) : ∀ l, Decidable (Spares K w l)
  | .evict n false => inferInstanceAs (Decidable (∀ ev ∈ w.pending[n]?, K ∉ ev.toDeleteList))
  | .evict _ true => .isTrue trivial
  | .scan _ => .isTrue trivial
  | .informer _ => .isTrue trivial

/-! ## One flow through one scan -/

section

variable {A : Type} [AddCommMonoid A] (f : FlowStats → A)

/-- A flow is known, and so much has been merged for it. -/
def KnownWith (K : InetV4Flow) (sum : A) (baseMap : PtrMap InetV4Flow FlowStatsEntry)
    (trace : List Event) : Prop :=
  (∃ e, baseMap.val K = some e) ∧ mergedSum f K trace = sum

/-- A flow is unknown, and so much has been merged for it. -/
def UnknownWith (K : InetV4Flow) (sum : A) (baseMap : PtrMap InetV4Flow FlowStatsEntry)
    (trace : List Event) : Prop :=
  baseMap.val K = none ∧ mergedSum f K trace = sum

variable {f}

section OneFlow

variable {K : InetV4Flow} {sum : A} {t : Time} {s s' : Scan} {key : InetV4Flow}
  {v : FlowStats}

/-- **Once known, a flow stays known and nothing more is merged for it.** -/
theorem known_observation (hf : f 0 = 0) (h : KnownWith f K sum s.metric.baseMap s.trace)
    (hobs : Observation t s key v s') : KnownWith f K sum s'.metric.baseMap s'.trace := by
  obtain ⟨⟨e, he⟩, hsum⟩ := h
  refine ⟨?_, ?_⟩
  · obtain ⟨e', hb, -⟩ := hobs.stored
    by_cases hk : K = key
    · exact ⟨e', by rw [hb, hk, Function.update_self]⟩
    · exact ⟨e, by rw [hb, Function.update_of_ne hk]; exact he⟩
  · cases hobs with
    | new b hnone _ =>
        -- a flow that is merged in full is another one
        have hne : key ≠ K := by
          rintro rfl
          exact absurd (hnone.symm.trans he) (by simp)
        rw [mergedSum_merged, if_neg hne, zero_add]
        exact hsum
    | unchanged b e' _ _ _ => exact hsum
    | changed b e' _ _ _ =>
        rw [mergedSum_merged, hf, ite_self, zero_add]
        exact hsum

/-- A report of another flow. -/
theorem unknown_observation_of_ne (hne : key ≠ K)
    (h : UnknownWith f K sum s.metric.baseMap s.trace) (hobs : Observation t s key v s') :
    UnknownWith f K sum s'.metric.baseMap s'.trace := by
  obtain ⟨hnone, hsum⟩ := h
  refine ⟨?_, ?_⟩
  · obtain ⟨e, hb, -⟩ := hobs.stored
    rw [hb, Function.update_of_ne (Ne.symm hne)]
    exact hnone
  · cases hobs with
    | new b _ _ =>
        rw [mergedSum_merged, if_neg hne, zero_add]
        exact hsum
    | unchanged b e _ _ _ => exact hsum
    | changed b e _ _ _ =>
        rw [mergedSum_merged, if_neg hne, zero_add]
        exact hsum

/-- **The first report of an unknown flow is merged in full.** -/
theorem unknown_observation_self (h : UnknownWith f K sum s.metric.baseMap s.trace)
    (hobs : Observation t s K v s') : KnownWith f K (sum + f v) s'.metric.baseMap s'.trace := by
  obtain ⟨hnone, hsum⟩ := h
  cases hobs with
  | new b _ hb =>
      refine ⟨⟨_, by rw [baseMap_mergeStats, hb, Function.update_self]⟩, ?_⟩
      rw [mergedSum_merged, if_pos rfl, mergedSum_reported, hsum, add_comm]
  | unchanged b e hval _ hb => exact absurd (hnone.symm.trans hval) (by simp)
  | changed b e hval _ hb => exact absurd (hnone.symm.trans hval) (by simp)

end OneFlow

theorem known_scanFlows {K : InetV4Flow} {sum : A} {t : Time}
    {reports : List (InetV4Flow × FlowStats)} {s : Scan} (hf : f 0 = 0)
    (h : KnownWith f K sum s.metric.baseMap s.trace) :
    KnownWith f K sum (scanFlows t reports s).metric.baseMap (scanFlows t reports s).trace :=
  scanFlows_inv (I := fun s => KnownWith f K sum s.metric.baseMap s.trace)
    (fun _ _ _ _ hs hobs => known_observation hf hs hobs) h

theorem unknown_scanFlows {K : InetV4Flow} {sum : A} {t : Time}
    {reports : List (InetV4Flow × FlowStats)} {s : Scan} (hf : f 0 = 0)
    (h : UnknownWith f K sum s.metric.baseMap s.trace) :
    match reportsOf K reports with
    | [] => UnknownWith f K sum (scanFlows t reports s).metric.baseMap (scanFlows t reports s).trace
    | v :: _ =>
      KnownWith f K (sum + f v) (scanFlows t reports s).metric.baseMap (scanFlows t reports s).trace := by
  induction reports generalizing s with
  | nil => exact h
  | cons r rs ih =>
      obtain ⟨key, v⟩ := r
      have hobs := scanFlow_observes t s key v
      by_cases hkey : key = K
      · subst hkey
        have hfirst : reportsOf key ((key, v) :: rs) = v :: reportsOf key rs := by
          simp [reportsOf]
        -- later reports in the same scan find the flow known
        rw [hfirst]
        exact known_scanFlows (s := scanFlow t s key v) hf (unknown_observation_self h hobs)
      · have hrest : reportsOf K ((key, v) :: rs) = reportsOf K rs := by simp [reportsOf, hkey]
        rw [hrest]
        exact ih (unknown_observation_of_ne hkey h hobs)

/-! ## One flow through a run -/

theorem known_step {K : InetV4Flow} {sum : A} {w w' : AgentWorld} {l : AgentLabel}
    (hf : f 0 = 0) (h : KnownWith f K sum w.metric.baseMap w.trace) (hP : Spares K w l)
    (hs : w.step l = some w') : KnownWith f K sum w'.metric.baseMap w'.trace := by
  cases AgentWorld.step_inv hs with
  | scan input _ => exact known_scanFlows hf h
  | evictFails n ev hev => exact h
  | evict n ev hev =>
      have hK : K ∉ ev.toDeleteList := hP ev hev
      obtain ⟨⟨e, he⟩, hsum⟩ := h
      refine ⟨⟨e, ?_⟩, ?_⟩
      · exact baseMap_evictEntries_eq_some.mpr ⟨hK, he⟩
      · exact (mergedSum_dropped ..).trans hsum
  | informer index => exact h

theorem known_run {K : InetV4Flow} {sum : A} {w w' : AgentWorld} {ls : List AgentLabel}
    (hf : f 0 = 0) (h : KnownWith f K sum w.metric.baseMap w.trace)
    (hP : Along AgentWorld.step (Spares K) w ls) (hr : run AgentWorld.step w ls = some w') :
    KnownWith f K sum w'.metric.baseMap w'.trace :=
  run_inv_along (I := fun w => KnownWith f K sum w.metric.baseMap w.trace)
    (fun _ _ _ h hP hs => known_step hf h hP hs) h hP hr

/-- **Over a whole run, the first report is all that is merged.** -/
theorem unknown_run {K : InetV4Flow} {sum : A} {w w' : AgentWorld}
    {ls : List AgentLabel} (hf : f 0 = 0) (h : UnknownWith f K sum w.metric.baseMap w.trace)
    (hP : Along AgentWorld.step (Spares K) w ls) (hr : run AgentWorld.step w ls = some w') :
    match scansOf K ls with
    | [] => UnknownWith f K sum w'.metric.baseMap w'.trace
    | v :: _ => KnownWith f K (sum + f v) w'.metric.baseMap w'.trace := by
  induction ls generalizing w with
  | nil => rw [run_nil] at hr; rw [← Option.some.inj hr]; exact h
  | cons l ls ih =>
      obtain ⟨w₁, hs, hr₁⟩ := run_cons_eq_some hr
      obtain ⟨hl, hrest⟩ := (along_cons hs).mp hP
      cases AgentWorld.step_inv hs with
      | scan input _ =>
          have hscan := @unknown_scanFlows A _ f K sum input.t input.reports
            ⟨w.metric, [], w.trace⟩ hf h
          rw [scansOf]
          cases hfirst : reportsOf K input.reports with
          | nil =>
              rw [hfirst] at hscan
              exact ih hscan hrest hr₁
          | cons v vs =>
              rw [hfirst] at hscan
              exact known_run hf hscan hrest hr₁
      | evictFails n ev hev =>
          refine ih ?_ hrest hr₁
          exact h
      | evict n ev hev =>
          have hK : K ∉ ev.toDeleteList := hl ev hev
          refine ih ⟨?_, ?_⟩ hrest hr₁
          · rw [val_baseMap_evictEntries, if_neg hK]
            exact h.1
          · exact (mergedSum_dropped ..).trans h.2
      | informer index =>
          refine ih ?_ hrest hr₁
          exact h

end

/--
**What is merged for a flow adds up to its last counters exactly when they are its first.**

The run may be of any length, with other flows, other evictions and changes of
the indexes in it; the flow is unknown when it starts and is not evicted in it.
-/
theorem merged_eq_last_iff (K : InetV4Flow) (w w' : AgentWorld) (ls : List AgentLabel)
    (v₁ : FlowStats) (vs : List FlowStats) (hnew : w.metric.baseMap.val K = none)
    (hstays : Along AgentWorld.step (Spares K) w ls) (hrun : run AgentWorld.step w ls = some w')
    (hreports : scansOf K ls = v₁ :: vs) :
    mergedSum id K w'.trace
        = mergedSum id K w.trace + (v₁ :: vs).getLast (List.cons_ne_nil v₁ vs)
      ↔ v₁ = (v₁ :: vs).getLast (List.cons_ne_nil v₁ vs) := by
  have h0 : UnknownWith id K (mergedSum id K w.trace) w.metric.baseMap w.trace := ⟨hnew, rfl⟩
  have h := unknown_run rfl h0 hstays hrun
  rw [hreports] at h
  rw [h.2, id]
  constructor
  · intro heq
    -- 64-bit counters can be cancelled
    refine FlowStatsOf.ext ?_ ?_ ?_ ?_
    · have := congrArg FlowStatsOf.outBytes heq
      simp only [FlowStatsOf.outBytes_add] at this
      grind
    · have := congrArg FlowStatsOf.outPackets heq
      simp only [FlowStatsOf.outPackets_add] at this
      grind
    · have := congrArg FlowStatsOf.inBytes heq
      simp only [FlowStatsOf.inBytes_add] at this
      grind
    · have := congrArg FlowStatsOf.inPackets heq
      simp only [FlowStatsOf.inPackets_add] at this
      grind
  · intro heq
    rw [← heq]

/-- A name server answering a pod. -/
def answerFlow : InetV4Flow :=
  ⟨0x0a00600a, 0x0500f40a, ⟨17, .replicate 3 0, 0x3500, 0x00c0⟩⟩

/-- A scan that is told about one flow, while there are no aggregates. -/
def scanOne (t : Time) (K : InetV4Flow) (v : FlowStats) : AgentLabel :=
  .scan { t := t, reports := [(K, v)], podOrder := [], svcOrder := [], knownOrder := [] }

theorem merged_eq_last_iff_idle :
    ∃ w', run AgentWorld.step (freshAgent Index.empty)
        [scanOne 1 answerFlow ⟨92, 1, 60, 1⟩, scanOne 2 answerFlow ⟨92, 1, 60, 1⟩] = some w' ∧
      mergedSum id answerFlow w'.trace = ⟨92, 1, 60, 1⟩ :=
  ⟨_, rfl, (merged_eq_last_iff answerFlow (freshAgent Index.empty) _
    [scanOne 1 answerFlow ⟨92, 1, 60, 1⟩, scanOne 2 answerFlow ⟨92, 1, 60, 1⟩]
    ⟨92, 1, 60, 1⟩ [⟨92, 1, 60, 1⟩] (by decide) (by decide) rfl (by decide)).mpr rfl⟩

/-- A second answer, seen by the second scan, is merged as nothing. -/
theorem second_answer_not_merged :
    ∃ w', run AgentWorld.step (freshAgent Index.empty)
        [scanOne 1 answerFlow ⟨92, 1, 60, 1⟩, scanOne 2 answerFlow ⟨184, 2, 120, 2⟩] = some w' ∧
      (⟨92, 1, 60, 1⟩ : FlowStats) ≤ ⟨184, 2, 120, 2⟩ ∧
      (w'.metric.baseMap.val answerFlow).isSome ∧
      mergedSum id answerFlow w'.trace ≠ ⟨184, 2, 120, 2⟩ :=
  ⟨_, rfl, by decide, by decide, by decide⟩

end Kubpf.Agent
