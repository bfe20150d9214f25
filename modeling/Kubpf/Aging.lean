import Kubpf.Agent.DueLists
import Kubpf.Unread

/-!
# Aging over a whole run

The kernel's entries go only where an eviction deletes them, and then the agent's
copies go too, so a scan that reads the kernel map is told of every flow of
`baseMap`, and of each once. With that the counters keep the numbers of idle scans
in every run (`Counted`), however long evictions go on finding no map to open.

Nothing else bounds these numbers. A flow that stays idle while its evictions fail
is due from the third scan to the 255th, and at the 256th it is a young one.
-/

namespace Kubpf

open Lib Kernel Agent

/-- The scans among the steps of a run, newest first. -/
def pastScans (past : List (World × Label)) : List PastScan :=
  past.filterMap fun
    | (w, .scan input) => some ⟨w.agent, input⟩
    | _ => none

/-- Each scan that is made lists what is due, and what was due and has neither changed nor gone. -/
def ListsDue (s : World × List (World × Label)) : Label → Prop
  | .scan input => (s.1.step (.scan input)).isSome →
    DueExactly (pastScans s.2) ⟨s.1.agent, input⟩ ∧ StaysDue (pastScans s.2) ⟨s.1.agent, input⟩
  | _ => True

/-- At each scan that is made, the numbers of idle scans are in range. -/
def IdleInRange (s : World × List (World × Label)) : Label → Prop
  | .scan input => (s.1.step (.scan input)).isSome →
    InRange (pastScans s.2) ⟨s.1.agent, input⟩
  | _ => True

/-! ## The counters in every run -/

/-- The counters keep the numbers of idle scans. -/
structure Counted (s : World × List (World × Label)) : Prop where
  synced : Synced s.1
  aged : Aged (pastScans s.2) s.1.agent.metric

/-- The kernel has every flow of `baseMap`, so each is reported. -/
theorem Synced.eachOnce {w : World} (h : Synced w) {input : ScanInput}
    (hreads : ReadsMap w.maps.v4FlowMap input.reports) :
    (PastScan.mk w.agent input).EachOnce := by
  refine ⟨hreads.1, fun K hK => ?_⟩
  obtain ⟨e, he⟩ := Option.isSome_iff_exists.mp (PtrMap.mem_keys.mp hK)
  exact hreads.2.2 K (BpfHash.mem_keys.mpr (Option.isSome_of_eq_some (h.behind K e he).1))

theorem counted_fresh (maps : FlowMaps) (index : Index) :
    Counted ({ maps := maps, agent := freshAgent index }, []) :=
  ⟨synced_fresh maps index, aged_init index⟩

theorem counted_step {s s' : World × List (World × Label)} {l : Label} (h : Counted s)
    (hs : recording World.step s l = some s') : Counted s' := by
  obtain ⟨w, past⟩ := s
  obtain ⟨w', hstep, rfl⟩ := recording_eq_some.mp hs
  dsimp only at hstep
  refine ⟨synced_step h.synced hstep, ?_⟩
  have haged : Aged (pastScans past) w.agent.metric := h.aged
  cases World.step_inv hstep with
  | packet skb dir => exact haged
  | scan input hreads horder => exact aged_scan haged (h.synced.eachOnce hreads) horder
  | evictFails n failing ev hev => exact haged
  | evict n failing ev hev => exact aged_evict haged ev
  | informer index =>
      refine ⟨haged.flow, fun T k a ha => ?_⟩
      rw [table_withAgent] at ha
      exact haged.entry T k a ha

theorem counted_run {maps : FlowMaps} {index : Index} {ls : List Label}
    {s : World × List (World × Label)}
    (hr : run (recording World.step) ({ maps := maps, agent := freshAgent index }, []) ls = some s) :
    Counted s :=
  run_inv (fun _ _ _ h hs => counted_step h hs) (counted_fresh maps index) hr

/-- **In every run the counters are the numbers of idle scans, in eight bits.** -/
theorem exists_aged_run {maps : FlowMaps} {index : Index} {ls : List Label} {w : World}
    (hr : run World.step { maps := maps, agent := freshAgent index } ls = some w) :
    ∃ past, run (recording World.step) ({ maps := maps, agent := freshAgent index }, []) ls
        = some (w, past) ∧ Aged (pastScans past) w.agent.metric := by
  obtain ⟨past, hrec⟩ := exists_run_recording.mpr hr
  exact ⟨past, hrec, (counted_run hrec).aged⟩

/-! ## The lists in runs where the numbers are in range -/

/-- The numbers have been in range so far, and the last scan's lists were right. -/
structure RightSoFar (s : World × List (World × Label)) : Prop where
  kept : KeptInRange (pastScans s.2) s.1.agent.metric
  exact : ∀ last older, pastScans s.2 = last :: older → DueExactly older last

theorem rightSoFar_fresh (maps : FlowMaps) (index : Index) :
    RightSoFar ({ maps := maps, agent := freshAgent index }, []) :=
  ⟨keptInRange_init index, fun _ _ h => absurd h (by simp [pastScans])⟩

/-- **At a scan, the lists are right exactly when the numbers are in range.** -/
theorem listsDue_iff {s : World × List (World × Label)} (h : Counted s) (hright : RightSoFar s)
    (l : Label) : IdleInRange s l ↔ ListsDue s l := by
  cases l with
  | packet skb dir => exact Iff.rfl
  | evict n openErr failing => exact Iff.rfl
  | informer index => exact Iff.rfl
  | scan input =>
      refine imp_congr_right fun hsome => ?_
      obtain ⟨w', hstep⟩ := Option.isSome_iff_exists.mp hsome
      cases World.step_inv hstep with
      | scan _ hreads horder =>
          rw [← dueExactly_iff h.aged hright.kept hreads.1 horder, iff_self_and]
          exact fun hexact => staysDue_of_exact hexact hright.exact

theorem rightSoFar_step {s s' : World × List (World × Label)} {l : Label} (h : Counted s)
    (hright : RightSoFar s) (hl : IdleInRange s l) (hs : recording World.step s l = some s') :
    RightSoFar s' := by
  have hdue := (listsDue_iff h hright l).mp hl
  obtain ⟨w, past⟩ := s
  obtain ⟨w', hstep, rfl⟩ := recording_eq_some.mp hs
  dsimp only at hstep
  have hkept : KeptInRange (pastScans past) w.agent.metric := hright.kept
  cases World.step_inv hstep with
  | packet skb dir => exact ⟨hkept, hright.exact⟩
  | scan input hreads horder =>
      have hsome : (w.step (.scan input)).isSome := Option.isSome_of_eq_some hstep
      refine ⟨keptInRange_scan (hl hsome) hreads.1 horder, ?_⟩
      rintro last older heq
      obtain ⟨rfl, rfl⟩ := List.cons.inj heq
      exact (hdue hsome).1
  | evictFails n failing ev hev => exact ⟨hkept, hright.exact⟩
  | evict n failing ev hev => exact ⟨keptInRange_evict hkept ev, hright.exact⟩
  | informer index =>
      refine ⟨⟨hkept.flows, fun T k hk => ?_⟩, hright.exact⟩
      rw [table_withAgent] at hk
      exact hkept.entries T k hk

/--
**Every scan lists what is due exactly as long as no idle scan is the 256th in a row.**

For every run of packets, scans, evictions at any later time or with no map to
open, and informer updates, of a new agent over whatever the kernel holds: the
scans list the flows and aggregates idle for three scans or more, and list them
again until they change or go, if and only if at no scan a flow, or an aggregate
that is there, has been idle for 256 scans, nor an aggregate idle for three or more
been passed over at the clock reading of its last merge.
-/
theorem lists_due_iff (maps : FlowMaps) (index : Index) (ls : List Label) :
    Along (recording World.step) IdleInRange ({ maps := maps, agent := freshAgent index }, []) ls
      ↔ Along (recording World.step) ListsDue
          ({ maps := maps, agent := freshAgent index }, []) ls := by
  refine along_congr (I := fun s => Counted s ∧ RightSoFar s) (fun _ _ _ h hl hs => ?_)
    (fun _ l h => listsDue_iff h.1 h.2 l) ?_ ls
  · exact ⟨counted_step h.1 hs, rightSoFar_step h.1 h.2 hl hs⟩
  · exact ⟨counted_fresh maps index, rightSoFar_fresh maps index⟩

/-! ## A flow that is due no longer -/

/-- A scan that finds one answer and nothing since, no aggregates being kept. -/
def idleScan (t : Time) : ScanInput where
  t := t
  reports := [(answerFlow, ⟨92, 1, 0, 0⟩)]
  podOrder := []
  svcOrder := []
  knownOrder := []

/-- Such scans, each followed by an eviction that has no map to open. -/
def idleRounds (n : Nat) : List Label :=
  (List.range n).flatMap fun t => [.scan (idleScan (t + 1)), .evict 0 true []]

/-- The flow is alone, and has been idle for `n` scans. -/
structure IdleFor (n : Nat) (w : World) (past : List (World × Label)) : Prop where
  reads : ReadsMap w.maps.v4FlowMap [(answerFlow, ⟨92, 1, 0, 0⟩)]
  stored : ∃ e, w.agent.metric.baseMap.val answerFlow = some e ∧ e.stats = ⟨92, 1, 0, 0⟩
  alone : ∀ T, Enumerates [] (w.agent.metric.table T)
  none_pending : w.agent.pending = []
  idle : streak (PastScan.Idle answerFlow) (pastScans past) = n

section IdleFor

variable {n : Nat} {w : World} {past : List (World × Label)}

theorem IdleFor.idle_scan (h : IdleFor n w past) (t : Time) :
    (PastScan.mk w.agent (idleScan t)).Idle answerFlow := by
  obtain ⟨e, he, hes⟩ := h.stored
  refine ⟨e, he, ?_⟩
  rw [hes]
  exact List.mem_singleton_self _

/-- The scan leaves everything but the flow's counter. -/
theorem IdleFor.scanned (h : IdleFor n w past) (t : Time) :
    ∃ b, (w.agent.scanned (idleScan t)).metric = { w.agent.metric with baseMap := b } ∧
      ∃ e, b.val answerFlow = some e ∧ e.stats = ⟨92, 1, 0, 0⟩ := by
  obtain ⟨e, he, hes⟩ := h.stored
  have hobs := scanFlow_observes t ⟨w.agent.metric, [], w.agent.trace⟩ answerFlow ⟨92, 1, 0, 0⟩
  change ∃ b, (scanFlow t ⟨w.agent.metric, [], w.agent.trace⟩ answerFlow ⟨92, 1, 0, 0⟩).metric
    = { w.agent.metric with baseMap := b } ∧ _
  generalize scanFlow t ⟨w.agent.metric, [], w.agent.trace⟩ answerFlow ⟨92, 1, 0, 0⟩ = s' at hobs ⊢
  cases hobs with
  | new b hnone hb => exact absurd (hnone.symm.trans he) (by simp)
  | unchanged b e' hval hsame hb =>
      refine ⟨b, rfl, { e' with agingCounter := e'.agingCounter + 1 }, ?_, hsame⟩
      rw [hb, Function.update_self]
  | changed b e' hval hdiff hb =>
      obtain rfl := Option.some.inj (hval.symm.trans he)
      exact absurd hes hdiff

/-- One more round, one more idle scan. -/
theorem IdleFor.round (h : IdleFor n w past) (t : Time) :
    (w.step (.scan (idleScan t))).isSome ∧
    ∃ w' past', run (recording World.step) (w, past) [.scan (idleScan t), .evict 0 true []]
        = some (w', past') ∧ IdleFor (n + 1) w' past' ∧
      pastScans past' = ⟨w.agent, idleScan t⟩ :: pastScans past := by
  obtain ⟨b, hmetric, hstored⟩ := h.scanned t
  have horder : (idleScan t).OrdersOf (w.agent.scanned (idleScan t)).metric := by
    rw [hmetric]
    exact ⟨h.alone .pod, h.alone .svc, h.alone .known⟩
  have hreads : ReadsMap w.maps.v4FlowMap (idleScan t).reports := h.reads
  obtain ⟨out, hout⟩ : ∃ out, out = finishScan (idleScan t) (w.agent.scanned (idleScan t)) :=
    ⟨_, rfl⟩
  obtain ⟨trace, htrace⟩ : ∃ trace, trace = .scanned t :: (w.agent.scanned (idleScan t)).trace :=
    ⟨_, rfl⟩
  have hscan : w.step (.scan (idleScan t))
      = some { w with agent := { metric := out.1, pending := [out.2], trace := trace } } := by
    simp only [World.step, AgentWorld.step]
    rw [if_pos hreads, if_pos horder, h.none_pending, hout, htrace]
    rfl
  have hrec : recording World.step (w, past) (.scan (idleScan t))
      = some ({ w with agent := { metric := out.1, pending := [out.2], trace := trace } },
        (w, .scan (idleScan t)) :: past) := recording_eq_some.mpr ⟨_, hscan, rfl⟩
  -- the eviction is spent without effect
  refine ⟨Option.isSome_of_eq_some hscan,
    { w with agent := { metric := out.1, pending := [], trace := trace } }, _,
    (run_cons hrec _).trans rfl, ⟨h.reads, ?_, ?_, rfl, ?_⟩, rfl⟩
  · rw [hout, finishScan, hmetric]
    exact hstored
  · intro T
    have htable : out.1.table T = (w.agent.scanned (idleScan t)).metric.table T := by
      rw [hout]
      cases T <;> rfl
    dsimp only
    rw [htable, hmetric, table_withBaseMap]
    exact h.alone T
  · exact (streak_cons_of_pos (h.idle_scan t)).trans (congrArg (· + 1) h.idle)

end IdleFor

theorem idleRounds_succ (n : Nat) :
    idleRounds (n + 1) = idleRounds n ++ [.scan (idleScan (n + 1)), .evict 0 true []] := by
  rw [idleRounds, List.range_succ, List.flatMap_append]
  rfl

/-- After an answer, its first scan and `n` more. -/
theorem idleFor_rounds (n : Nat) :
    ∃ w past, run (recording World.step) (World.init Index.empty, [])
        (answerPacket :: idleRounds (n + 1)) = some (w, past) ∧ IdleFor n w past := by
  induction n with
  | zero =>
      refine ⟨_, _, rfl, by decide, ⟨_, rfl, by decide⟩, fun T => ?_, rfl, by decide⟩
      cases T <;> decide
  | succ n ih =>
      obtain ⟨w, past, hrun, hidle⟩ := ih
      obtain ⟨-, w', past', hround, hidle', -⟩ := hidle.round (n + 1 + 1)
      refine ⟨w', past', ?_, hidle'⟩
      rw [idleRounds_succ (n + 1), ← List.cons_append, run_append hrun]
      exact hround

/-- The 257th scan is the 256th to find the flow idle. It was on the list of the scan before, and is
not on this one's. -/
theorem due_flow_unlisted :
    ∃ w past, run (recording World.step) (World.init Index.empty, [])
        (answerPacket :: idleRounds 256) = some (w, past) ∧
      (w.step (.scan (idleScan 257))).isSome ∧
      (∃ last ∈ (pastScans past).head?, answerFlow ∈ last.lists.toDeleteList) ∧
      streak (PastScan.Idle answerFlow) (⟨w.agent, idleScan 257⟩ :: pastScans past) = 256 ∧
      answerFlow ∉ (PastScan.mk w.agent (idleScan 257)).lists.toDeleteList ∧
      ¬ ListsDue (w, past) (.scan (idleScan 257)) := by
  obtain ⟨w₀, past₀, hrun₀, hidle₀⟩ := idleFor_rounds 254
  obtain ⟨-, w, past, hround, hidle, hpast⟩ := hidle₀.round 256
  obtain ⟨hmade, -⟩ := hidle.round 257
  have hrun : run (recording World.step) (World.init Index.empty, [])
      (answerPacket :: idleRounds 256) = some (w, past) := by
    rw [idleRounds_succ 255, ← List.cons_append, run_append hrun₀]
    exact hround
  have hlast : answerFlow ∈ (PastScan.mk w₀.agent (idleScan 256)).lists.toDeleteList := by
    rw [mem_toDeleteList_iff (counted_run hrun₀).aged (by decide),
      streak_cons_of_pos (hidle₀.idle_scan 256), hidle₀.idle]
    exact ⟨hidle₀.idle_scan 256, by decide⟩
  have hstreak : streak (PastScan.Idle answerFlow) (⟨w.agent, idleScan 257⟩ :: pastScans past)
      = 256 := by
    rw [streak_cons_of_pos (hidle.idle_scan 257), hidle.idle]
  have hnot : answerFlow ∉ (PastScan.mk w.agent (idleScan 257)).lists.toDeleteList := by
    rw [mem_toDeleteList_iff (counted_run hrun).aged (by decide), hstreak]
    exact fun hc => absurd hc.2 (by decide)
  refine ⟨w, past, hrun, hmade, ⟨_, by rw [hpast]; rfl, hlast⟩, hstreak, hnot, fun hdue => hnot ?_⟩
  rw [(hdue hmade).1.flows, hstreak]
  decide

end Kubpf
