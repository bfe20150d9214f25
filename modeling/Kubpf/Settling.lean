import Kubpf.Aging
import Kubpf.Agent.Outlive

/-!
# When the traffic stops

A flow that is idle for three scans is deleted, and so is an aggregate nothing is
merged into. Entries start from any age, and the eight-bit counter may be about
to wrap, but that does not matter: after a scan and its eviction no counter
stands at three or more, and each further scan that finds nothing new brings all
of them up by one. So four scans, each followed by its eviction, empty the map
and all four tables, whatever state they began in. What has been published
stays.
-/

namespace Kubpf

open Lib Kernel Agent

/-! ## Rounds without packets -/

/-- Scans, each followed by its own eviction while `n` earlier ones are outstanding. Every
`LoadPinnedMap` and every deletion succeeds. -/
def quietRounds (n : Nat) (inputs : List ScanInput) : List Label :=
  inputs.flatMap fun input => [.scan input, .evict n false []]

/-- The tables read no clock that a scan to come will read. -/
def Unstamped (times : List Time) (w : World) : Prop :=
  ∀ T k a, (w.agent.metric.table T).val k = some a → a.timeStamp ∉ times

/-- The agent knows what the kernel has. All entries have been idle for `n` scans, and none is
due. -/
structure Settled (n : Nat) (w : World) : Prop where
  known : ∀ K v, w.maps.v4FlowMap.val K = some v →
    ∃ e, w.agent.metric.baseMap.val K = some e ∧ e.stats = v
  flow : ∀ K e, w.agent.metric.baseMap.val K = some e →
    w.maps.v4FlowMap.val K = some e.stats ∧ n ≤ e.agingCounter.toNat ∧ e.agingCounter.toNat < 3
  entry : ∀ T k a, (w.agent.metric.table T).val k = some a →
    n ≤ a.agingCounter.toNat ∧ a.agingCounter.toNat < 3

/-- Nothing has been idle for three scans and is still there. -/
theorem Settled.empty {n : Nat} {w : World} (h : Settled n w) (hn : 3 ≤ n) :
    (∀ K, w.maps.v4FlowMap.val K = none) ∧ (∀ K, w.agent.metric.baseMap.val K = none) ∧
      ∀ T k, (w.agent.metric.table T).val k = none := by
  have hbase : ∀ K, w.agent.metric.baseMap.val K = none := by
    intro K
    cases he : w.agent.metric.baseMap.val K with
    | none => rfl
    | some e =>
        have := h.flow K e he
        omega
  refine ⟨fun K => ?_, hbase, fun T k => ?_⟩
  · cases hv : w.maps.v4FlowMap.val K with
    | none => rfl
    | some v =>
        obtain ⟨e, he, -⟩ := h.known K v hv
        rw [hbase K] at he
        cases he
  · cases ha : (w.agent.metric.table T).val k with
    | none => rfl
    | some a =>
        have := h.entry T k a ha
        omega

/-! ## Eight-bit ages -/

/-- A counter that one more scan does not bring to three. -/
theorem toNat_succ_lt {c : UInt8} (h : ¬ 3 ≤ c + 1) : (c + 1).toNat < 3 := by
  rw [UInt8.le_iff_toNat_le] at h
  exact Nat.lt_of_not_le h

/-- Below three nothing wraps. -/
theorem toNat_succ {c : UInt8} (h : c.toNat < 3) : (c + 1).toNat = c.toNat + 1 := by
  rw [UInt8.toNat_add]
  show (c.toNat + 1) % 2 ^ 8 = c.toNat + 1
  omega

/-! ## One round -/

/-- The world after a scan and its eviction. -/
def World.settle (w : World) (input : ScanInput) : World where
  maps := { w.maps with
    v4FlowMap := (PastScan.mk w.agent input).lists.toDeleteList.foldl (deleteFlow [])
      w.maps.v4FlowMap }
  agent :=
    { metric := evictEntries (PastScan.mk w.agent input).lists
        (finishScan input (w.agent.scanned input)).1
      pending := w.agent.pending
      trace := keptBy [] w.maps.v4FlowMap (PastScan.mk w.agent input).lists.toDeleteList
        ++ (PastScan.mk w.agent input).lists.toDeleteList.foldl
          (fun trace k => .dropped k :: trace) (.scanned input.t :: (w.agent.scanned input).trace) }

/-- **A round, taken apart.** -/
theorem run_round {w w' : World} {input : ScanInput} {ls : List Label}
    (hr : run World.step w (.scan input :: .evict w.agent.pending.length false [] :: ls) = some w') :
    ReadsMap w.maps.v4FlowMap input.reports ∧ input.OrdersOf (w.agent.scanned input).metric ∧
      run World.step (w.settle input) ls = some w' := by
  obtain ⟨w₁, hscan, hr₁⟩ := run_cons_eq_some hr
  obtain ⟨w₂, hevict, hr₂⟩ := run_cons_eq_some hr₁
  cases World.step_inv hscan with
  | scan _ hreads horder =>
      refine ⟨hreads, horder, ?_⟩
      cases World.step_inv hevict with
      | evict _ _ ev hev =>
          -- the eviction of a scan is the last of the outstanding ones
          rw [List.getElem?_append_right (Nat.le_refl _), Nat.sub_self] at hev
          have hlists : ev = (PastScan.mk w.agent input).lists := (Option.some.inj hev).symm
          subst hlists
          have herase : (w.agent.pending ++ [(finishScan input (w.agent.scanned input)).2]).eraseIdx
              w.agent.pending.length = w.agent.pending := by
            rw [List.eraseIdx_append_of_length_le (Nat.le_refl _), Nat.sub_self]
            simp
          dsimp only at hr₂
          rw [herase] at hr₂
          exact hr₂

section Round

variable {w : World} {input : ScanInput}

/-- The flows after a round are those of `baseMap` after the scan that it did not list. -/
theorem baseMap_settle {K : InetV4Flow} {e : FlowStatsEntry} :
    (w.settle input).agent.metric.baseMap.val K = some e ↔
      K ∉ (PastScan.mk w.agent input).lists.toDeleteList ∧
        (w.agent.scanned input).metric.baseMap.val K = some e :=
  baseMap_evictEntries_eq_some

theorem v4FlowMap_settle {K : InetV4Flow} {v : FlowStats} :
    (w.settle input).maps.v4FlowMap.val K = some v ↔
      K ∉ (PastScan.mk w.agent input).lists.toDeleteList ∧ w.maps.v4FlowMap.val K = some v := by
  have hval := val_foldl_deleteFlow [] (PastScan.mk w.agent input).lists.toDeleteList
    w.maps.v4FlowMap K
  rw [show (w.settle input).maps.v4FlowMap.val K = _ from hval]
  split_ifs with hdel
  · exact ⟨fun h => (by cases h), fun h => absurd hdel.1 h.1⟩
  · exact ⟨fun h => ⟨fun hmem => hdel ⟨hmem, List.not_mem_nil⟩, h⟩, fun h => h.2⟩

/-- A flow that a round leaves has just been stored, or was known and is not due. -/
theorem flow_settle (h : Synced w) (hreads : ReadsMap w.maps.v4FlowMap input.reports)
    {K : InetV4Flow} {e : FlowStatsEntry}
    (he : (w.settle input).agent.metric.baseMap.val K = some e) :
    (w.settle input).maps.v4FlowMap.val K = some e.stats ∧ e.agingCounter.toNat < 3 ∧
      ((PastScan.mk w.agent input).Idle K → ∃ old, w.agent.metric.baseMap.val K = some old ∧
        e.agingCounter = old.agingCounter + 1) := by
  obtain ⟨hnot, hscanned⟩ := baseMap_settle.mp he
  have hnd := hreads.1
  have hout := @outcome_scanFlows input.t ⟨w.agent.metric, [], w.agent.trace⟩ input.reports hnd
  -- every flow of `baseMap` was reported
  have hK : K ∈ input.reports.map Prod.fst := by
    by_contra hK
    have hold : w.agent.metric.baseMap.val K = some e := (hout.kept K hK).symm.trans hscanned
    exact hK ((h.eachOnce hreads).2 K (PtrMap.mem_keys.mpr (Option.isSome_of_eq_some hold)))
  obtain ⟨⟨K', v⟩, hr, rfl⟩ := List.mem_map.mp hK
  have hobs : e = observed input.t (w.agent.metric.baseMap.val K') v :=
    Option.some.inj (hscanned.symm.trans (hout.observed _ hr))
  have hkernel : w.maps.v4FlowMap.val K' = some v := hreads.2.1 _ hr
  rw [mem_toDeleteList_scanned hnd] at hnot
  rw [idle_iff hnd hr]
  cases hold : w.agent.metric.baseMap.val K' with
  | none =>
      rw [hobs, hold]
      have hfresh : ∀ P : FlowStatsEntry → Prop, ¬ ∃ e', (none : Option FlowStatsEntry) = some e' ∧
          P e' := by
        intro P hc
        obtain ⟨_, hc, _⟩ := hc
        cases hc
      refine ⟨v4FlowMap_settle.mpr ⟨?_, hkernel⟩, (by decide : (0 : UInt8).toNat < 3),
        fun hc => absurd hc (hfresh _)⟩
      rw [mem_toDeleteList_scanned hnd, hold]
      exact hfresh _
  | some old =>
      rw [hold, observed] at hobs
      by_cases hsame : old.stats = v
      · rw [if_pos hsame] at hobs
        have hdue : ¬ 3 ≤ old.agingCounter + 1 :=
          fun hdue => hnot ⟨old, hold, hsame ▸ hr, hdue⟩
        rw [hobs]
        refine ⟨v4FlowMap_settle.mpr ⟨?_, hsame ▸ hkernel⟩, toNat_succ_lt hdue, fun _ =>
          ⟨old, rfl, rfl⟩⟩
        rw [mem_toDeleteList_scanned hnd]
        exact hnot
      · rw [if_neg hsame] at hobs
        rw [hobs]
        refine ⟨v4FlowMap_settle.mpr ⟨?_, hkernel⟩, (by decide : (0 : UInt8).toNat < 3),
          fun hidle => ?_⟩
        · rw [mem_toDeleteList_scanned hnd]
          exact hnot
        · obtain ⟨e', he', hs⟩ := hidle
          exact absurd (Option.some.inj he' ▸ hs) hsame

/-- An entry that a round leaves has just been merged into, or was there and is not due. -/
theorem entry_settle (hnd : (input.reports.map Prod.fst).Nodup)
    (horder : input.OrdersOf (w.agent.scanned input).metric)
    (hts : ∀ T k a, (w.agent.metric.table T).val k = some a → a.timeStamp ≠ input.t)
    {T : Table} {k : PodStatsKey} {a : FlowStatsEntry}
    (ha : ((w.settle input).agent.metric.table T).val k = some a) :
    a.agingCounter.toNat < 3 ∧
      (a.timeStamp = input.t ∨ ∃ old, (w.agent.metric.table T).val k = some old ∧
        a.timeStamp = old.timeStamp) ∧
      ((PastScan.mk w.agent input).Skips T k → ∃ old,
        (w.agent.metric.table T).val k = some old ∧ a.agingCounter = old.agingCounter + 1) := by
  obtain ⟨hnot, hscanned⟩ := table_evictEntries_eq_some.mp ha
  rw [PastScan.lists, mem_finishScan horder] at hnot
  rw [val_finishScan horder] at hscanned
  obtain ⟨a₀, ha₀, rfl⟩ := Option.map_eq_some_iff.mp hscanned
  obtain ⟨hfed, hskipped⟩ := @val_table_scanned w.agent input hnd T k
  by_cases hskip : (PastScan.mk w.agent input).Skips T k
  · have hold : (w.agent.metric.table T).val k = some a₀ := (hskipped hskip).symm.trans ha₀
    have hne := hts T k a₀ hold
    have hdue : ¬ 3 ≤ a₀.agingCounter + 1 := fun hdue => hnot ⟨a₀, ha₀, hne, hdue⟩
    rw [FlowStatsEntry.aged, if_pos hne]
    exact ⟨toNat_succ_lt hdue, Or.inr ⟨a₀, hold, rfl⟩, fun _ => ⟨a₀, hold, rfl⟩⟩
  · obtain ⟨a₁, ha₁, hage, hstamp⟩ := hfed hskip
    obtain rfl : a₁ = a₀ := Option.some.inj (ha₁.symm.trans ha₀)
    rw [FlowStatsEntry.aged, if_neg (not_not.mpr hstamp), hage]
    exact ⟨by decide, Or.inl hstamp, fun hc => absurd hc hskip⟩

theorem synced_settle (h : Synced w) (hreads : ReadsMap w.maps.v4FlowMap input.reports) :
    Synced (w.settle input) := by
  have hevict := synced_evict (synced_scan h input hreads) w.agent.pending.length []
    (PastScan.mk w.agent input).lists
  exact ⟨hevict.read, hevict.behind⟩

end Round

/-! ## Round by round -/

section Rounds

variable {w : World} {input : ScanInput} {n : Nat}

/-- A settled agent finds every flow idle. -/
theorem Settled.idle (h : Settled n w) (hreads : ReadsMap w.maps.v4FlowMap input.reports)
    {r : InetV4Flow × FlowStats} (hr : r ∈ input.reports) :
    ∃ e, w.agent.metric.baseMap.val r.1 = some e ∧ e.stats = r.2 :=
  h.known r.1 r.2 (hreads.2.1 r hr)

theorem Settled.skips (h : Settled n w) (hreads : ReadsMap w.maps.v4FlowMap input.reports)
    (T : Table) (k : PodStatsKey) : (PastScan.mk w.agent input).Skips T k := by
  intro ⟨r, hr, hmerges, _⟩
  obtain ⟨e, he, hsame⟩ := h.idle hreads hr
  exact hmerges e he hsame

/-- **After any round nothing is due.** -/
theorem settled_round (h : Synced w) (hreads : ReadsMap w.maps.v4FlowMap input.reports)
    (horder : input.OrdersOf (w.agent.scanned input).metric)
    (hts : ∀ T k a, (w.agent.metric.table T).val k = some a → a.timeStamp ≠ input.t) :
    Settled 0 (w.settle input) where
  known := by
    intro K v hv
    obtain ⟨hnot, hkernel⟩ := v4FlowMap_settle.mp hv
    obtain ⟨hrep, -⟩ := @stored_scanFlows input.t input.reports ⟨w.agent.metric, [], w.agent.trace⟩
      hreads.1
    obtain ⟨r, hr, rfl⟩ := List.mem_map.mp
      (hreads.2.2 K (BpfHash.mem_keys.mpr (Option.isSome_of_eq_some hkernel)))
    obtain ⟨e, he, hes⟩ := hrep r hr
    have hsame : r.2 = v := Option.some.inj ((hreads.2.1 r hr).symm.trans hkernel)
    exact ⟨e, baseMap_settle.mpr ⟨hnot, he⟩, hes.trans hsame⟩
  flow := by
    intro K e he
    obtain ⟨hkernel, hlt, -⟩ := flow_settle h hreads he
    exact ⟨hkernel, Nat.zero_le _, hlt⟩
  entry := by
    intro T k a ha
    obtain ⟨hlt, -, -⟩ := entry_settle hreads.1 horder hts ha
    exact ⟨Nat.zero_le _, hlt⟩

/-- **A round more brings what is left up by one.** -/
theorem Settled.round (hset : Settled n w) (h : Synced w)
    (hreads : ReadsMap w.maps.v4FlowMap input.reports)
    (horder : input.OrdersOf (w.agent.scanned input).metric)
    (hts : ∀ T k a, (w.agent.metric.table T).val k = some a → a.timeStamp ≠ input.t) :
    Settled (n + 1) (w.settle input) where
  known := (settled_round h hreads horder hts).known
  flow := by
    intro K e he
    obtain ⟨hkernel, hlt, hidle⟩ := flow_settle h hreads he
    have hmem : (PastScan.mk w.agent input).Idle K := by
      obtain ⟨-, hbefore⟩ := v4FlowMap_settle.mp hkernel
      obtain ⟨old, hold, hsame⟩ := hset.known K e.stats hbefore
      obtain ⟨r, hr, rfl⟩ := List.mem_map.mp
        (hreads.2.2 K (BpfHash.mem_keys.mpr (Option.isSome_of_eq_some hbefore)))
      have hvalue : r.2 = e.stats := Option.some.inj ((hreads.2.1 r hr).symm.trans hbefore)
      refine ⟨old, hold, ?_⟩
      rw [hsame, ← hvalue]
      exact hr
    obtain ⟨old, hold, hage⟩ := hidle hmem
    obtain ⟨-, hle, hlt'⟩ := hset.flow K old hold
    rw [hage] at hlt ⊢
    rw [toNat_succ hlt'] at hlt ⊢
    exact ⟨hkernel, Nat.succ_le_succ hle, hlt⟩
  entry := by
    intro T k a ha
    obtain ⟨hlt, -, hskip⟩ := entry_settle hreads.1 horder hts ha
    obtain ⟨old, hold, hage⟩ := hskip (hset.skips hreads T k)
    obtain ⟨hle, hlt'⟩ := hset.entry T k old hold
    rw [hage] at hlt ⊢
    rw [toNat_succ hlt'] at hlt ⊢
    exact ⟨Nat.succ_le_succ hle, hlt⟩

/-- A settled agent publishes nothing. -/
theorem Settled.gauges_settle (h : Settled n w) (hreads : ReadsMap w.maps.v4FlowMap input.reports) :
    (w.settle input).agent.metric.agent.gauges = w.agent.metric.agent.gauges := by
  have hout := @outcome_scanFlows input.t ⟨w.agent.metric, [], w.agent.trace⟩ input.reports hreads.1
  obtain ⟨b, hb⟩ := hout.merged
  have hnone : input.reports.flatMap (portions w.agent.metric) = [] := by
    rw [List.flatMap_eq_nil_iff]
    intro r hr
    obtain ⟨e, he, hsame⟩ := h.idle hreads hr
    rw [portions, he, taken, if_pos hsame]
  rw [hnone] at hb
  show (w.agent.scanned input).metric.agent.gauges = _
  rw [AgentWorld.scanned, hb]
  rfl

/-- The clocks the tables have read after a round. -/
theorem unstamped_settle {times : List Time} (hnd : (input.reports.map Prod.fst).Nodup)
    (horder : input.OrdersOf (w.agent.scanned input).metric)
    (h : Unstamped (input.t :: times) w) (hnew : input.t ∉ times) :
    Unstamped times (w.settle input) := by
  intro T k a ha hmem
  have hts : ∀ T k a, (w.agent.metric.table T).val k = some a → a.timeStamp ≠ input.t :=
    fun T k a ha he => h T k a ha (he ▸ List.mem_cons_self ..)
  obtain ⟨-, hstamp, -⟩ := entry_settle hnd horder hts ha
  rcases hstamp with hstamp | ⟨old, hold, hstamp⟩
  · exact hnew (hstamp ▸ hmem)
  · exact h T k old hold (List.mem_cons_of_mem _ (hstamp ▸ hmem))

end Rounds

/-- **Rounds on top of rounds.** -/
theorem settled_rounds {w w' : World} {inputs : List ScanInput} {n : Nat} (hset : Settled n w)
    (h : Synced w) (hts : Unstamped (inputs.map ScanInput.t) w)
    (hnd : (inputs.map ScanInput.t).Nodup)
    (hr : run World.step w (quietRounds w.agent.pending.length inputs) = some w') :
    Settled (n + inputs.length) w' ∧ w'.agent.pending = w.agent.pending ∧
      w'.agent.metric.agent.gauges = w.agent.metric.agent.gauges := by
  induction inputs generalizing w n with
  | nil =>
      rw [quietRounds, List.flatMap_nil, run_nil] at hr
      exact Option.some.inj hr ▸ ⟨hset, rfl, rfl⟩
  | cons input inputs ih =>
      obtain ⟨hreads, horder, hr'⟩ := run_round hr
      rw [List.map_cons, List.nodup_cons] at hnd
      have hne : ∀ T k a, (w.agent.metric.table T).val k = some a → a.timeStamp ≠ input.t :=
        fun T k a ha he => hts T k a ha (he ▸ List.mem_cons_self ..)
      obtain ⟨hset', hpend, hgauges⟩ := ih (hset.round h hreads horder hne)
        (synced_settle h hreads) (unstamped_settle hreads.1 horder hts hnd.1) hnd.2 hr'
      refine ⟨?_, hpend, hgauges.trans (hset.gauges_settle hreads)⟩
      rw [List.length_cons, ← Nat.add_assoc, Nat.add_right_comm]
      exact hset'

/--
**Once the traffic stops, four scans empty everything.**

From every state a run can reach, from any contents of the kernel maps before
the agent started and with any evictions outstanding: let scans follow each
other without a packet, four or more, each with a time of its own and followed
by its eviction, which opens the map and deletes what it lists. Then the IPv4
map, `baseMap` and the three aggregate tables are empty, and the gauges are as
the first of these scans left them.
-/
theorem quiet_rounds_empty (maps : FlowMaps) (index : Index) (ls : List Label) (w w' : World)
    (hrun : run World.step { maps := maps, agent := freshAgent index } ls = some w)
    (first : ScanInput) (others : List ScanInput) (hlen : 3 ≤ others.length)
    (hnd : ((first :: others).map ScanInput.t).Nodup)
    (hts : Unstamped ((first :: others).map ScanInput.t) w)
    (hquiet : run World.step w (quietRounds w.agent.pending.length (first :: others)) = some w') :
    (∀ K, w'.maps.v4FlowMap.val K = none) ∧ (∀ K, w'.agent.metric.baseMap.val K = none) ∧
      (∀ T k, (w'.agent.metric.table T).val k = none) ∧
      w'.agent.pending = w.agent.pending ∧
      w'.agent.metric.agent.gauges
        = (finishScan first (w.agent.scanned first)).1.agent.gauges := by
  have hsync : Synced w := run_inv (fun _ _ _ h hs => synced_step h hs) (synced_fresh maps index) hrun
  obtain ⟨hreads, horder, hr⟩ := run_round hquiet
  have hne : ∀ T k a, (w.agent.metric.table T).val k = some a → a.timeStamp ≠ first.t :=
    fun T k a ha he => hts T k a ha (he ▸ List.mem_cons_self ..)
  rw [List.map_cons, List.nodup_cons] at hnd
  obtain ⟨hset, hpend, hgauges⟩ := settled_rounds (settled_round hsync hreads horder hne)
    (synced_settle hsync hreads) (unstamped_settle hreads.1 horder hts hnd.1) hnd.2 hr
  rw [Nat.zero_add] at hset
  obtain ⟨hv4, hbase, htables⟩ := hset.empty hlen
  exact ⟨hv4, hbase, htables, hpend, hgauges⟩

/-- One answer, which goes into all four tables, and four scans that find nothing new. -/
theorem quiet_rounds_empty_answer :
    ∃ w w', World.step (World.init clientIndex) answerPacket = some w ∧
      run World.step w (quietRounds 0 [answerScan 1, answerScan 2, answerScan 3, answerScan 4])
        = some w' ∧
      (∀ K, w'.maps.v4FlowMap.val K = none) ∧ (∀ K, w'.agent.metric.baseMap.val K = none) ∧
      (∀ T k, (w'.agent.metric.table T).val k = none) ∧ w'.agent.pending = [] ∧
      w'.agent.metric.agent.gauges = (finishScan (answerScan 1)
        (w.agent.scanned (answerScan 1))).1.agent.gauges := by
  have hsome : (run World.step (World.init clientIndex) (answerPacket ::
      quietRounds 0 [answerScan 1, answerScan 2, answerScan 3, answerScan 4])).isSome := by
    decide +kernel
  obtain ⟨w', hw'⟩ := Option.isSome_iff_exists.mp hsome
  obtain ⟨w, hw, hquiet⟩ := run_cons_eq_some hw'
  have hagent : w.agent.metric = (freshAgent clientIndex).metric ∧ w.agent.pending = [] := by
    cases hw
    exact ⟨rfl, rfl⟩
  refine ⟨w, w', hw, hquiet, ?_⟩
  have hend := quiet_rounds_empty FlowMaps.empty clientIndex [answerPacket] w w'
    ((run_cons hw []).trans rfl) (answerScan 1) [answerScan 2, answerScan 3, answerScan 4]
    (by decide) (by decide) (fun T k a ha => ?_) (by rw [hagent.2]; exact hquiet)
  · rw [hagent.2] at hend
    exact hend
  · rw [hagent.1, val_table_freshAgent] at ha
    cases ha

end Kubpf
