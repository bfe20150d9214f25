import Kubpf.Unread

/-!
# Merging nothing twice

The kernel's entry and the agent's copy have to go together. As long as they do,
an entry that a scan takes for new traffic is new: all that was ever counted for
its flow and is not in it has gone with an earlier entry, and what was merged for
the flow came out of those. A deletion that fails in the kernel and is carried
out in `baseMap` breaks this: the next scan finds the old entry, takes it for a
new flow and merges it again.

What is compared are plain numbers, so that nothing depends on whether a 64-bit
sum has wrapped.
-/

namespace Kubpf

open Lib Kernel Agent

/-- All that the kernel has counted for a flow. -/
def countedTotal (K : InetV4Flow) : List Event → FlowStatsOf Nat
  | [] => 0
  | .counted key stats :: es => (if key = K then stats else 0) + countedTotal K es
  | _ :: es => countedTotal K es

/-- All that has been passed to `mergeStats` for it. -/
def mergedTotal (K : InetV4Flow) (trace : List Event) : FlowStatsOf Nat :=
  mergedSum FlowStatsOf.toNat K trace

/-- What the kernel's entry holds, nothing where there is none. -/
def heldTotal (K : InetV4Flow) (w : World) : FlowStatsOf Nat :=
  ((w.maps.v4FlowMap.val K).getD 0).toNat

theorem countedTotal_dropped (K : InetV4Flow) (ks : List InetV4Flow) (tr : List Event) :
    countedTotal K (ks.foldl (fun tr k => .dropped k :: tr) tr) = countedTotal K tr := by
  induction ks generalizing tr with
  | nil => rfl
  | cons k ks ih => exact ih _

theorem countedTotal_kept (K : InetV4Flow) (ks : List InetV4Flow) (tr : List Event) :
    countedTotal K (ks.map .kept ++ tr) = countedTotal K tr := by
  induction ks with
  | nil => rfl
  | cons k ks ih => exact ih

theorem mergedTotal_kept (K : InetV4Flow) (ks : List InetV4Flow) (tr : List Event) :
    mergedTotal K (ks.map .kept ++ tr) = mergedTotal K tr := by
  induction ks with
  | nil => rfl
  | cons k ks ih => exact ih

theorem countedTotal_scanFlows (K : InetV4Flow) (t : Time)
    (reports : List (InetV4Flow × FlowStats)) (s : Scan) :
    countedTotal K (scanFlows t reports s).trace = countedTotal K s.trace := by
  refine scanFlows_inv (I := fun s' => countedTotal K s'.trace = countedTotal K s.trace)
    (fun s₁ s₂ r _ h hobs => ?_) rfl
  cases hobs with
  | new b hnone hb => exact h
  | unchanged b e hval hsame hb => exact h
  | changed b e hval hdiff hb => exact h

/-! ## The invariant -/

/-- Every deletion that fails concerns an entry that is gone already. -/
def DeletesSucceed (w : World) : Label → Prop
  | .evict n false failing =>
    ∀ ev ∈ w.agent.pending[n]?, ∀ K ∈ ev.toDeleteList, K ∈ failing →
      w.maps.v4FlowMap.val K = none
  | _ => True

instance (w : World) : ∀ l, Decidable (DeletesSucceed w l)
  | .evict n false failing => inferInstanceAs
      (Decidable (∀ ev ∈ w.agent.pending[n]?, ∀ K ∈ ev.toDeleteList, K ∈ failing →
        w.maps.v4FlowMap.val K = none))
  | .evict _ true _ => .isTrue trivial
  | .packet _ _ => .isTrue trivial
  | .scan _ => .isTrue trivial
  | .informer _ => .isTrue trivial

/-- What has been merged has been counted; for a flow the agent does not know, what the kernel
holds has been counted besides. -/
structure MergedOnce (w : World) : Prop where
  unknown : ∀ K, w.agent.metric.baseMap.val K = none →
    mergedTotal K w.agent.trace + heldTotal K w ≤ countedTotal K w.agent.trace
  known : ∀ K e, w.agent.metric.baseMap.val K = some e →
    mergedTotal K w.agent.trace ≤ countedTotal K w.agent.trace

theorem MergedOnce.le {w : World} (h : MergedOnce w) (K : InetV4Flow) :
    mergedTotal K w.agent.trace ≤ countedTotal K w.agent.trace := by
  cases he : w.agent.metric.baseMap.val K with
  | none => exact (le_add_of_nonneg_right (FlowStatsOf.zero_le_nat _)).trans (h.unknown K he)
  | some e => exact h.known K e he

theorem mergedOnce_init (index : Index) : MergedOnce (World.init index) := by
  refine ⟨?_, ?_⟩
  · intro K _
    have hheld : heldTotal K (World.init index) = 0 := by
      have hnone : (World.init index).maps.v4FlowMap.val K = none := BpfHash.val_empty _ K
      rw [heldTotal, hnone]
      rfl
    rw [hheld]
    exact le_refl _
  · intro K e he
    exact absurd ((PtrMap.val_empty K).symm.trans he) (by simp)

theorem mergedOnce_packet {w : World} (h : MergedOnce w) (skb : SkBuff) (dir : CgroupDirection) :
    MergedOnce
      { maps := bpfFlowReader skb dir w.maps
        agent := { w.agent with trace := countedBy w.maps skb dir ++ w.agent.trace } } := by
  rcases val_v4_bpfFlowReader w.maps skb dir with ⟨key, htr, hval⟩ | ⟨htr, hval⟩
  · have hcounted : ∀ K, countedTotal K (countedBy w.maps skb dir ++ w.agent.trace)
        = (if key = K then packetStats skb.len dir else 0) + countedTotal K w.agent.trace := by
      intro K
      rw [htr]
      rfl
    have hmerged : ∀ K, mergedTotal K (countedBy w.maps skb dir ++ w.agent.trace)
        = mergedTotal K w.agent.trace := by
      intro K
      rw [htr]
      rfl
    refine ⟨?_, ?_⟩
    · intro K hK
      have hold := h.unknown K hK
      dsimp only
      rw [hcounted, hmerged, heldTotal]
      dsimp only
      rw [hval]
      by_cases hk : key = K
      · subst hk
        rw [Function.update_self, if_pos rfl, Option.getD_some]
        -- the entry gains at most the packet
        have hgain := FlowStatsOf.toNat_add_le ((w.maps.v4FlowMap.val key).getD 0)
          (packetStats skb.len dir)
        calc mergedTotal key w.agent.trace
              + ((w.maps.v4FlowMap.val key).getD 0
                + FlowStatsOf.ofNat (packetStats skb.len dir)).toNat
            ≤ mergedTotal key w.agent.trace
              + (((w.maps.v4FlowMap.val key).getD 0).toNat + packetStats skb.len dir) :=
              add_le_add (le_refl _) hgain
          _ = mergedTotal key w.agent.trace + heldTotal key w + packetStats skb.len dir :=
              (add_assoc _ _ _).symm
          _ ≤ countedTotal key w.agent.trace + packetStats skb.len dir :=
              add_le_add hold (le_refl _)
          _ = packetStats skb.len dir + countedTotal key w.agent.trace := add_comm _ _
      · rw [Function.update_of_ne (Ne.symm hk), if_neg hk, zero_add]
        exact hold
    · intro K e he
      dsimp only
      rw [hcounted, hmerged]
      exact (h.known K e he).trans (le_add_of_nonneg_left (FlowStatsOf.zero_le_nat _))
  · refine ⟨?_, ?_⟩
    · intro K hK
      have hold := h.unknown K hK
      dsimp only
      rw [htr, heldTotal]
      dsimp only
      rw [hval]
      exact hold
    · intro K e he
      dsimp only
      rw [htr]
      exact h.known K e he

section ReadsMap

variable {m : BpfHash InetV4Flow FlowStats} {reports : List (InetV4Flow × FlowStats)}
  {K : InetV4Flow}

/-- A flow that is not in the map is not reported. -/
theorem reportsOf_eq_nil (h : ReadsMap m reports) (hv : m.val K = none) :
    reportsOf K reports = [] := by
  rw [reportsOf, List.map_eq_nil_iff, List.filter_eq_nil_iff]
  intro r hr hrK
  have hkey : r.1 = K := of_decide_eq_true hrK
  have hval := h.2.1 r hr
  rw [hkey, hv] at hval
  cases hval

/-- One that is in the map is reported as it is there. -/
theorem exists_reportsOf {v : FlowStats} (h : ReadsMap m reports) (hv : m.val K = some v) :
    ∃ vs, reportsOf K reports = v :: vs := by
  obtain ⟨r, hr, hrK⟩ := List.mem_map.mp
    (h.2.2 K (BpfHash.mem_keys.mpr (Option.isSome_of_eq_some hv)))
  obtain ⟨v', vs, hfirst⟩ : ∃ v' vs, reportsOf K reports = v' :: vs := by
    refine List.exists_cons_of_ne_nil (fun hnil => ?_)
    rw [reportsOf, List.map_eq_nil_iff, List.filter_eq_nil_iff] at hnil
    exact hnil r hr (decide_eq_true hrK)
  have hin : v' ∈ reportsOf K reports := by rw [hfirst]; exact List.mem_cons_self
  obtain ⟨q, hq, hqv⟩ := List.mem_map.mp hin
  obtain ⟨hqmem, hqK⟩ := List.mem_filter.mp hq
  have hkey : q.1 = K := of_decide_eq_true hqK
  have hval := h.2.1 q hqmem
  rw [hkey, hv, hqv] at hval
  exact ⟨vs, by rw [hfirst, Option.some.inj hval]⟩

end ReadsMap

theorem mergedOnce_scan {w : World} (h : MergedOnce w) (input : ScanInput)
    (hreads : ReadsMap w.maps.v4FlowMap input.reports) :
    MergedOnce
      { w with
        agent :=
          { metric := (finishScan input (w.agent.scanned input)).1
            pending := w.agent.pending ++ [(finishScan input (w.agent.scanned input)).2]
            trace := .scanned input.t :: (w.agent.scanned input).trace } } := by
  have hzero : FlowStatsOf.toNat 0 = 0 := rfl
  have hcounted : ∀ K, countedTotal K (w.agent.scanned input).trace
      = countedTotal K w.agent.trace := fun K => countedTotal_scanFlows K ..
  -- one flow at a time, known or unknown before the scan
  have hkey : ∀ K, ((w.agent.scanned input).metric.baseMap.val K = none →
      mergedTotal K (w.agent.scanned input).trace + heldTotal K w
        ≤ countedTotal K w.agent.trace) ∧
      (∀ e, (w.agent.scanned input).metric.baseMap.val K = some e →
        mergedTotal K (w.agent.scanned input).trace ≤ countedTotal K w.agent.trace) := by
    intro K
    cases hK : w.agent.metric.baseMap.val K with
    | some e =>
        obtain ⟨⟨e', he'⟩, hsum⟩ := @known_scanFlows _ _ FlowStatsOf.toNat K _ input.t
          input.reports ⟨w.agent.metric, [], w.agent.trace⟩ hzero ⟨⟨e, hK⟩, rfl⟩
        refine ⟨fun hnone => absurd (he'.symm.trans hnone) (by simp), fun _ _ => ?_⟩
        exact le_of_eq_of_le hsum (h.known K e hK)
    | none =>
        have hscan := @unknown_scanFlows _ _ FlowStatsOf.toNat K _ input.t input.reports
          ⟨w.agent.metric, [], w.agent.trace⟩ hzero ⟨hK, rfl⟩
        have hold := h.unknown K hK
        cases hv : w.maps.v4FlowMap.val K with
        | none =>
            rw [reportsOf_eq_nil hreads hv] at hscan
            refine ⟨fun _ => ?_, fun e he => absurd (hscan.1.symm.trans he) (by simp)⟩
            exact le_of_eq_of_le (congrArg (· + heldTotal K w) hscan.2) hold
        | some v =>
            obtain ⟨vs, hfirst⟩ := exists_reportsOf hreads hv
            rw [hfirst] at hscan
            obtain ⟨⟨e, he⟩, hsum⟩ := hscan
            refine ⟨fun hnone => absurd (he.symm.trans hnone) (by simp), fun _ _ => ?_⟩
            have hheld : heldTotal K w = v.toNat := by rw [heldTotal, hv]; rfl
            rw [hheld] at hold
            exact le_of_eq_of_le hsum hold
  refine ⟨fun K hK => ?_, fun K e he => ?_⟩
  · exact le_of_le_of_eq ((hkey K).1 hK) (hcounted K).symm
  · exact le_of_le_of_eq ((hkey K).2 e he) (hcounted K).symm

theorem mergedOnce_evict {w : World} (h : MergedOnce w) (n : Nat) (failing : List InetV4Flow)
    (ev : Eviction)
    (hgone : ∀ K ∈ ev.toDeleteList, K ∈ failing → w.maps.v4FlowMap.val K = none) :
    MergedOnce
      { maps := { w.maps with
          v4FlowMap := ev.toDeleteList.foldl (deleteFlow failing) w.maps.v4FlowMap }
        agent :=
          { metric := evictEntries ev w.agent.metric
            pending := w.agent.pending.eraseIdx n
            trace := keptBy failing w.maps.v4FlowMap ev.toDeleteList
              ++ ev.toDeleteList.foldl (fun trace k => .dropped k :: trace) w.agent.trace } } := by
  have hcounted : ∀ K, countedTotal K (keptBy failing w.maps.v4FlowMap ev.toDeleteList
      ++ ev.toDeleteList.foldl (fun trace k => .dropped k :: trace) w.agent.trace)
        = countedTotal K w.agent.trace := by
    intro K
    rw [keptBy, countedTotal_kept, countedTotal_dropped]
  have hmerged : ∀ K, mergedTotal K (keptBy failing w.maps.v4FlowMap ev.toDeleteList
      ++ ev.toDeleteList.foldl (fun trace k => .dropped k :: trace) w.agent.trace)
        = mergedTotal K w.agent.trace := by
    intro K
    rw [keptBy, mergedTotal_kept]
    exact mergedSum_dropped ..
  refine ⟨?_, ?_⟩
  · intro K hK
    dsimp only at hK ⊢
    rw [hcounted, hmerged, heldTotal]
    dsimp only
    rw [val_foldl_deleteFlow]
    by_cases hlist : K ∈ ev.toDeleteList
    · -- the kernel's entry has gone with the agent's
      have hnone : (if K ∈ ev.toDeleteList ∧ K ∉ failing then none else w.maps.v4FlowMap.val K)
          = none := by
        by_cases hfail : K ∈ failing
        · rw [if_neg (fun hc => hc.2 hfail)]
          exact hgone K hlist hfail
        · rw [if_pos ⟨hlist, hfail⟩]
      rw [hnone]
      exact le_of_eq_of_le (add_zero _) (h.le K)
    · rw [if_neg (fun hc => hlist hc.1)]
      rw [val_baseMap_evictEntries, if_neg hlist] at hK
      exact h.unknown K hK
  · intro K e he
    dsimp only
    rw [hcounted, hmerged]
    exact h.le K

theorem mergedOnce_step {w w' : World} {l : Label} (h : MergedOnce w) (hP : DeletesSucceed w l)
    (hs : w.step l = some w') : MergedOnce w' := by
  cases World.step_inv hs with
  | packet skb dir => exact mergedOnce_packet h skb dir
  | scan input hreads _ => exact mergedOnce_scan h input hreads
  | evictFails n failing ev hev => exact ⟨h.unknown, h.known⟩
  | evict n failing ev hev => exact mergedOnce_evict h n failing ev (hP ev hev)
  | informer index => exact ⟨h.unknown, h.known⟩

/--
**No traffic is merged twice as long as no deletion of a live entry fails.**

In every run from empty maps and a new agent in which `m2.Delete` returns an
error for no entry that is there, whatever the order of packets, scans and
evictions: what has been merged for a flow never exceeds what has been counted.
-/
theorem merged_le_counted (index : Index) (ls : List Label) (w : World)
    (hsucceed : Along World.step DeletesSucceed (World.init index) ls)
    (hrun : run World.step (World.init index) ls = some w) (K : InetV4Flow) :
    mergedTotal K w.agent.trace ≤ countedTotal K w.agent.trace :=
  (run_inv_along (I := MergedOnce) (fun _ _ _ h hP hs => mergedOnce_step h hP hs)
    (mergedOnce_init index) hsucceed hrun).le K

/-- Scan and evict by turns until the flow is listed. -/
def agedAnswer : List Label :=
  [answerPacket, scanAnswers 1 ⟨92, 1, 0, 0⟩, .evict 0 false [],
    scanAnswers 2 ⟨92, 1, 0, 0⟩, .evict 0 false [],
    scanAnswers 3 ⟨92, 1, 0, 0⟩, .evict 0 false [], scanAnswers 4 ⟨92, 1, 0, 0⟩]

/-- The entry goes, comes back with a new answer and is merged anew. -/
theorem merged_le_counted_evicted :
    ∃ w, run World.step (World.init Index.empty)
        (agedAnswer ++ [.evict 0 false [], answerPacket, scanAnswers 5 ⟨92, 1, 0, 0⟩]) = some w ∧
      mergedTotal answerFlow w.agent.trace = ⟨184, 2, 0, 0⟩ ∧
      mergedTotal answerFlow w.agent.trace ≤ countedTotal answerFlow w.agent.trace :=
  ⟨_, rfl, by decide, merged_le_counted Index.empty
    (agedAnswer ++ [.evict 0 false [], answerPacket, scanAnswers 5 ⟨92, 1, 0, 0⟩]) _ (by decide) rfl
    answerFlow⟩

/-- The deletion fails in the kernel only: one answer is merged twice. -/
theorem kept_answer_merged_twice :
    ∃ w, run World.step (World.init Index.empty)
        (agedAnswer ++ [.evict 0 false [answerFlow], scanAnswers 5 ⟨92, 1, 0, 0⟩]) = some w ∧
      countedTotal answerFlow w.agent.trace = ⟨92, 1, 0, 0⟩ ∧
      mergedTotal answerFlow w.agent.trace = ⟨184, 2, 0, 0⟩ ∧
      ¬ mergedTotal answerFlow w.agent.trace ≤ countedTotal answerFlow w.agent.trace :=
  ⟨_, rfl, by decide, by decide, by decide⟩

end Kubpf
