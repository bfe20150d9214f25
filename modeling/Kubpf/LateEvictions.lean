import Kubpf.Agent.Idle
import Kubpf.Aging

/-!
# Late evictions

Scans and evictions take the mutex in any order, and several evictions may be
waiting. Whether one of them still removes idle entries only is settled by the
scans that overtake it: each of them must find no traffic for what is on its
lists. One thing more is in the way, the counter of eight bits: a listed entry
that is found idle for the 256th time looks like one that has just had traffic.

Packets are not in the condition. What the kernel counts after a scan has listed
a flow is not seen by anyone until the next scan.
-/

namespace Kubpf

open Lib Kernel Agent

/-! ## The evictions that wait -/

/-- The evictions outstanding after these steps, each with the scans made since it was listed. -/
def waiting : List (World × Label) → List Waiting
  | [] => []
  | (w, .scan input) :: past =>
    (waiting past).map (fun q => q.after ⟨w.agent, input⟩) ++
      [⟨(PastScan.mk w.agent input).lists, []⟩]
  | (_, .evict n _ _) :: past => (waiting past).eraseIdx n
  | (_, .packet _ _) :: past => waiting past
  | (_, .informer _) :: past => waiting past

/-- No scan that is made finds traffic for what an outstanding eviction has on its lists, or
finds it idle for the 256th time, or a multiple of that. -/
def SparesListed (s : World × List (World × Label)) : Label → Prop
  | .scan input => (s.1.step (.scan input)).isSome →
    ∀ ev ∈ s.1.agent.pending, SparesList (pastScans s.2) ⟨s.1.agent, input⟩ ev
  | _ => True

/-- Whatever the step removes has an aging counter of 3 at least, and no scan has found traffic for
it since it was listed. -/
def EvictsOnlyIdle (s : World × List (World × Label)) : Label → Prop
  | .evict n false _ => EvictsAged s.1.agent (.evict n false) ∧
    ∀ q ∈ (waiting s.2)[n]?, NoneSince s.1.agent.metric q
  | _ => True

/-! ## In every run -/

/-- What waits are the outstanding goroutines. -/
structure Queued (s : World × List (World × Label)) : Prop where
  counted : Counted s
  pending : (waiting s.2).map Waiting.eviction = s.1.agent.pending

theorem queued_fresh (maps : FlowMaps) (index : Index) :
    Queued ({ maps := maps, agent := freshAgent index }, []) :=
  ⟨counted_fresh maps index, rfl⟩

theorem queued_step {s s' : World × List (World × Label)} {l : Label} (h : Queued s)
    (hs : recording World.step s l = some s') : Queued s' := by
  refine ⟨counted_step h.counted hs, ?_⟩
  have hpending := h.pending
  obtain ⟨w, past⟩ := s
  obtain ⟨w', hstep, rfl⟩ := recording_eq_some.mp hs
  dsimp only at hstep hpending ⊢
  cases World.step_inv hstep with
  | packet skb dir => exact hpending
  | scan input hreads horder =>
      rw [waiting, List.map_append, List.map_map, ← hpending]
      rfl
  | evictFails n failing ev hev => rw [waiting, ← List.eraseIdx_map, hpending]
  | evict n failing ev hev => rw [waiting, ← List.eraseIdx_map, hpending]
  | informer index => exact hpending

/-- An eviction that could run next would remove idle entries only. -/
def AllIdle (s : World × List (World × Label)) : Prop :=
  ∀ q ∈ waiting s.2, OnlyIdle s.1.agent.metric q

theorem allIdle_iff {s : World × List (World × Label)} (h : Queued s) :
    AllIdle s ↔ ∀ n failing, EvictsOnlyIdle s (.evict n false failing) := by
  have hev : ∀ n : Nat, s.1.agent.pending[n]? = ((waiting s.2)[n]?).map Waiting.eviction := by
    intro n
    rw [← h.pending, List.getElem?_map]
  constructor
  · intro hall n failing
    have hq : ∀ q ∈ (waiting s.2)[n]?, OnlyIdle s.1.agent.metric q :=
      fun q hq => hall q (List.mem_of_getElem? hq)
    refine ⟨fun ev hmem => ?_, fun q hmem => (hq q hmem).since⟩
    rw [hev] at hmem
    obtain ⟨q, hn, rfl⟩ := Option.mem_map.mp hmem
    exact ⟨(hq q hn).flows, (hq q hn).entries⟩
  · intro hall q hmem
    obtain ⟨n, hn⟩ := List.mem_iff_getElem?.mp hmem
    obtain ⟨haged, hsince⟩ := hall n []
    obtain ⟨hflows, hentries⟩ := haged q.eviction (by rw [hev, hn]; rfl)
    exact ⟨hflows, hentries, hsince q hn⟩

/-- **A step leaves the outstanding evictions right exactly if it spares what they have listed.** -/
theorem allIdle_step_iff {s s' : World × List (World × Label)} {l : Label} (h : Queued s)
    (hall : AllIdle s) (hs : recording World.step s l = some s') :
    AllIdle s' ↔ SparesListed s l := by
  obtain ⟨w, past⟩ := s
  obtain ⟨w', hstep, rfl⟩ := recording_eq_some.mp hs
  dsimp only at hstep
  have haged : Aged (pastScans past) w.agent.metric := h.counted.aged
  cases World.step_inv hstep with
  | packet skb dir => exact iff_of_true hall trivial
  | scan input hreads horder =>
      have honce := h.counted.synced.eachOnce hreads
      have hlisted := onlyIdle_listed haged honce horder
      -- the list just made is right in any case, and the others if they are spared
      constructor
      · intro hafter _ ev hev
        rw [← h.pending] at hev
        obtain ⟨q, hq, rfl⟩ := List.mem_map.mp hev
        refine (onlyIdle_scan_iff haged honce horder (hall q hq)).mp (hafter _ ?_)
        exact List.mem_append_left _ (List.mem_map_of_mem hq)
      · intro hspares q hq
        have hmade := hspares (Option.isSome_of_eq_some hstep)
        rw [← h.pending, List.forall_mem_map] at hmade
        rcases List.mem_append.mp hq with hq | hq
        · obtain ⟨q', hq', rfl⟩ := List.mem_map.mp hq
          exact (onlyIdle_scan_iff haged honce horder (hall q' hq')).mpr (hmade q' hq')
        · rw [List.mem_singleton.mp hq]
          exact hlisted
  | evictFails n failing ev hev =>
      exact iff_of_true (fun q hq => hall q (List.mem_of_mem_eraseIdx hq)) trivial
  | evict n failing ev hev =>
      refine iff_of_true (fun q hq => ?_) trivial
      exact onlyIdle_evict (hall q (List.mem_of_mem_eraseIdx hq)) ev
  | informer index =>
      exact iff_of_true (fun q hq => onlyIdle_withAgent (hall q hq) _) trivial

/--
**Evictions remove only what is idle as long as scans spare what is listed, and no longer.**

For every run of packets, scans, evictions at any later time or with no map to
open, and informer updates, of a new agent over whatever the kernel holds: if
every scan spares what the outstanding evictions have listed, every eviction of
the run removes only entries whose counter is 3 or more and that have had no
traffic since they were listed. And the scans spare it exactly if, whichever
outstanding eviction ran next in any state reached, it would remove only such
entries.
-/
theorem evictions_idle_iff (maps : FlowMaps) (index : Index) (ls : List Label) :
    (Along (recording World.step) SparesListed ({ maps := maps, agent := freshAgent index }, []) ls
      → Along (recording World.step) EvictsOnlyIdle
          ({ maps := maps, agent := freshAgent index }, []) ls) ∧
    (Along (recording World.step) SparesListed ({ maps := maps, agent := freshAgent index }, []) ls
      ↔ ∀ ls₁ s, ls₁ <+: ls →
          run (recording World.step) ({ maps := maps, agent := freshAgent index }, []) ls₁ = some s →
          ∀ n failing, EvictsOnlyIdle s (.evict n false failing)) := by
  have hempty : AllIdle ({ maps := maps, agent := freshAgent index }, []) :=
    fun q hq => absurd hq List.not_mem_nil
  have hstuck : ∀ (s : World × List (World × Label)) (l : Label), recording World.step s l = none →
      SparesListed s l := by
    intro s l hs
    cases l with
    | packet skb dir => trivial
    | evict n openErr failing => trivial
    | informer index => trivial
    | scan input =>
        intro hsome
        rw [recording, Option.map_eq_none_iff] at hs
        rw [hs] at hsome
        cases hsome
  refine ⟨along_mono (I := fun s => Queued s ∧ AllIdle s) (fun s l s' h hl hs => ?_)
    (fun s l h _ => ?_) ⟨queued_fresh maps index, hempty⟩, ?_⟩
  · exact ⟨queued_step h.1 hs, (allIdle_step_iff h.1 h.2 hs).mpr hl⟩
  · cases l with
    | packet skb dir => trivial
    | scan input => trivial
    | informer index => trivial
    | evict n openErr failing =>
        cases openErr with
        | true => trivial
        | false => exact (allIdle_iff h.1).mp h.2 n failing
  · rw [along_iff_forall_reached (I := Queued) (fun _ _ _ h hs => queued_step h hs)
      (fun _ _ _ h hall hs => allIdle_step_iff h hall hs) (fun _ => hstuck)
      (queued_fresh maps index) hempty]
    refine forall₄_congr fun ls₁ s _ hr => allIdle_iff ?_
    exact run_inv (fun _ _ _ h hs => queued_step h hs) (queued_fresh maps index) hr

end Kubpf
