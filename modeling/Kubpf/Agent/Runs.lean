import Kubpf.Lib.Transition
import Kubpf.Agent.UpdateStats

/-!
# Runs of the agent

The agent by itself, against whatever the kernel reports: scans, the evictions
they leave behind, each carried out once and at any later time, and changes to
the indexes in between. An eviction whose map cannot be opened is spent without
effect.
-/

namespace Kubpf.Agent

open Lib

/-- The metrics entry, the goroutines started and not yet run, and what has been seen to
happen. -/
structure AgentWorld where
  metric : InetV4FlowMetricsEntry
  pending : List Eviction
  trace : List Event

/-- A new agent with these indexes. -/
def freshAgent (index : Index) : AgentWorld where
  metric := newInetV4FlowMetricsEntry { index with gauges := ∅ }
  pending := []
  trace := []

theorem val_table_freshAgent (index : Index) (T : Table) (k : PodStatsKey) :
    ((freshAgent index).metric.table T).val k = none := by
  cases T <;> exact PtrMap.val_empty k

inductive AgentLabel where
  /-- The locked part of `UpdateStats`. -/
  | scan (input : ScanInput)
  /-- The `n`-th outstanding goroutine runs; `openErr` is `LoadPinnedMap` failing. -/
  | evict (n : Nat) (openErr : Bool)
  /-- The informers have written the indexes. -/
  | informer (index : Index)

/-- The loop of a scan over the kernel map, from this state of the agent. -/
def AgentWorld.scanned (w : AgentWorld) (input : ScanInput) : Scan :=
  scanFlows input.t input.reports { metric := w.metric, toDeleteList := [], trace := w.trace }

def AgentWorld.step (w : AgentWorld) : AgentLabel → Option AgentWorld
  | .scan input =>
    let s := w.scanned input
    if input.OrdersOf s.metric then
      some
        { metric := (finishScan input s).1
          pending := w.pending ++ [(finishScan input s).2]
          trace := .scanned input.t :: s.trace }
    else none
  | .evict n openErr =>
    match w.pending[n]? with
    | none => none
    | some ev =>
      -- the goroutine returns early, and nobody starts it again
      if openErr then some { w with pending := w.pending.eraseIdx n }
      else
        some
          { metric := evictEntries ev w.metric
            pending := w.pending.eraseIdx n
            trace := ev.toDeleteList.foldl (fun trace k => .dropped k :: trace) w.trace }
  | .informer index =>
    some { w with
      metric := { w.metric with
        agent := { index with gauges := w.metric.agent.gauges } } }

/-! ## What a step can be -/

/-- The steps of the agent, taken apart. -/
inductive AgentStep (w : AgentWorld) : AgentLabel → AgentWorld → Prop
  | scan (input : ScanInput) (horder : input.OrdersOf (w.scanned input).metric) :
      AgentStep w (.scan input)
        { metric := (finishScan input (w.scanned input)).1
          pending := w.pending ++ [(finishScan input (w.scanned input)).2]
          trace := .scanned input.t :: (w.scanned input).trace }
  | evictFails (n : Nat) (ev : Eviction) (hev : w.pending[n]? = some ev) :
      AgentStep w (.evict n true) { w with pending := w.pending.eraseIdx n }
  | evict (n : Nat) (ev : Eviction) (hev : w.pending[n]? = some ev) :
      AgentStep w (.evict n false)
        { metric := evictEntries ev w.metric
          pending := w.pending.eraseIdx n
          trace := ev.toDeleteList.foldl (fun trace k => .dropped k :: trace) w.trace }
  | informer (index : Index) :
      AgentStep w (.informer index)
        { w with
          metric := { w.metric with
            agent := { index with gauges := w.metric.agent.gauges } } }

theorem AgentWorld.step_inv {w w' : AgentWorld} {l : AgentLabel} (h : w.step l = some w') :
    AgentStep w l w' := by
  cases l with
  | scan input =>
      simp only [AgentWorld.step] at h
      split_ifs at h with horder
      cases h
      exact .scan input horder
  | evict n openErr =>
      simp only [AgentWorld.step] at h
      cases hev : w.pending[n]? with
      | none => rw [hev] at h; cases h
      | some ev =>
          rw [hev] at h
          cases openErr with
          | true => cases h; exact .evictFails n ev hev
          | false => cases h; exact .evict n ev hev
  | informer index => cases h; exact .informer index

/-! ## Reading the trace -/

/-- The counters passed to `mergeStats` for a flow. -/
def mergedStats (K : InetV4Flow) (trace : List Event) : List FlowStats :=
  trace.filterMap fun
    | .merged key _ _ stats _ => if key = K then some stats else none
    | _ => none

/-- Their sum, each read through `f`: as 64-bit counters, or as numbers. -/
def mergedSum {A : Type} [AddCommMonoid A] (f : FlowStats → A) (K : InetV4Flow)
    (trace : List Event) : A :=
  ((mergedStats K trace).map f).sum

section MergedSum

variable {A : Type} [AddCommMonoid A] (f : FlowStats → A) (K : InetV4Flow)

theorem mergedSum_merged (key : InetV4Flow) (kt : Nat) (psk : PodStatsKey) (v : FlowStats)
    (t : Time) (tr : List Event) :
    mergedSum f K (.merged key kt psk v t :: tr)
      = (if key = K then f v else 0) + mergedSum f K tr := by
  unfold mergedSum mergedStats
  by_cases h : key = K
  · simp [h]
  · simp [h]

@[simp] theorem mergedSum_reported (key : InetV4Flow) (v : FlowStats) (tr : List Event) :
    mergedSum f K (.reported key v :: tr) = mergedSum f K tr := rfl

@[simp] theorem mergedSum_scanned (t : Time) (tr : List Event) :
    mergedSum f K (.scanned t :: tr) = mergedSum f K tr := rfl

theorem mergedSum_dropped (ks : List InetV4Flow) (tr : List Event) :
    mergedSum f K (ks.foldl (fun tr k => .dropped k :: tr) tr) = mergedSum f K tr := by
  induction ks generalizing tr with
  | nil => rfl
  | cons k ks ih => exact ih _

end MergedSum

end Kubpf.Agent
