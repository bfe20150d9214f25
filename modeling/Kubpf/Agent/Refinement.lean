import Kubpf.Agent.Locking

/-!
# The sections are atomic

Scans and evictions were taken as single steps before they were taken apart into
threads. Nothing is lost by that: whatever the threads do, the tables go through
the states of a run in which scans and evictions are steps. A thread changes the
tables in one move, and an eviction listed by a scan is outstanding until the
thread that carries it out is past that move.
-/

namespace Kubpf.Agent

open Lib

/-- The eviction a thread has yet to carry out. -/
def Thread.outstanding : Thread → List Eviction
  | .updateStats (.scanned ev) | .updateStats (.unlocked ev) => [ev]
  | .eviction ev .start | .eviction ev .locked | .eviction ev .opened => [ev]
  | _ => []

/-- The same tables, and the same evictions outstanding in some order. -/
structure Abstracts (w : LockWorld) (a : AgentWorld) : Prop where
  metric : a.metric = w.metric
  pending : a.pending.Perm (w.threads.flatMap Thread.outstanding)

/-! ## What a scan does is independent of the trace -/

/-- The scans differ in their traces only. -/
def Scan.Same (s s' : Scan) : Prop := s.metric = s'.metric ∧ s.toDeleteList = s'.toDeleteList

theorem same_scanFlow {s s' : Scan} (h : s.Same s') (t : Time) (key : InetV4Flow) (v : FlowStats) :
    (scanFlow t s key v).Same (scanFlow t s' key v) := by
  obtain ⟨metric, toDeleteList, trace⟩ := s
  obtain ⟨metric', toDeleteList', trace'⟩ := s'
  obtain ⟨rfl, rfl⟩ := h
  unfold scanFlow
  dsimp only
  cases metric.baseMap.find? key with
  | none => exact ⟨rfl, rfl⟩
  | some p =>
      dsimp only
      split_ifs <;> exact ⟨rfl, rfl⟩

theorem same_scanFlows {s s' : Scan} (h : s.Same s') (t : Time)
    (reports : List (InetV4Flow × FlowStats)) :
    (scanFlows t reports s).Same (scanFlows t reports s') := by
  induction reports generalizing s s' with
  | nil => exact h
  | cons r rs ih => exact ih (same_scanFlow h t r.1 r.2)

theorem Scan.Same.finishScan_eq {s s' : Scan} (h : s.Same s') (input : ScanInput) :
    finishScan input s = finishScan input s' := by
  unfold finishScan
  rw [h.1, h.2]

/-! ## What a move does to the tables -/

/-- A thread's move, as the agent sees it. -/
inductive Effect (env : Env) (metric : InetV4FlowMetricsEntry) (th : Thread) (o : Outcome) : Prop
  /-- The tables stay, and what the thread had to evict it or its child still has. -/
  | quiet (hm : o.metric = metric)
      (ho : o.thread.outstanding ++ o.spawned.flatMap Thread.outstanding = th.outstanding)
  | scans (s : Scan)
      (hs : s = scanFlows env.input.t env.input.reports ⟨metric, [], []⟩)
      (horder : env.input.OrdersOf s.metric) (hm : o.metric = (finishScan env.input s).1)
      (hth : th.outstanding = [])
      (ho : o.thread.outstanding ++ o.spawned.flatMap Thread.outstanding
        = [(finishScan env.input s).2])
  | evicts (ev : Eviction) (hm : o.metric = evictEntries ev metric) (hth : th.outstanding = [ev])
      (ho : o.thread.outstanding ++ o.spawned.flatMap Thread.outstanding = [])
  | givesUp (ev : Eviction) (hm : o.metric = metric) (hth : th.outstanding = [ev])
      (ho : o.thread.outstanding ++ o.spawned.flatMap Thread.outstanding = [])

theorem takeLock_effect {env : Env} {metric : InetV4FlowMetricsEntry} {holder : Option Nat}
    {i : Nat} {th next : Thread} {o : Outcome} (h : takeLock i holder metric next = some o)
    (hnext : next.outstanding = th.outstanding) : Effect env metric th o := by
  cases holder with
  | none => cases h; exact .quiet rfl (by rw [List.flatMap_nil, List.append_nil]; exact hnext)
  | some j => cases h

/-- **Every move is one of the four.** -/
theorem move_effect {env : Env} {metric : InetV4FlowMetricsEntry} {holder : Option Nat} {i : Nat}
    {th : Thread} {o : Outcome} (h : th.move env metric holder i = some o) :
    Effect env metric th o := by
  cases th with
  | updateStats pc =>
      cases pc with
      | start => exact takeLock_effect h rfl
      | locked =>
          rw [Thread.move] at h
          split_ifs at h
          · cases h; exact .quiet rfl rfl
          · cases h; exact .quiet rfl rfl
      | opened =>
          simp only [Thread.move] at h
          split_ifs at h with horder
          cases h
          exact .scans _ rfl horder rfl rfl rfl
      | scanned ev => cases h; exact .quiet rfl rfl
      | unlocked ev => cases h; exact .quiet rfl rfl
      | returned => cases h
  | eviction ev pc =>
      cases pc with
      | start => exact takeLock_effect h rfl
      | locked =>
          rw [Thread.move] at h
          split_ifs at h
          · cases h; exact .givesUp ev rfl rfl rfl
          · cases h; exact .quiet rfl rfl
      | opened => cases h; exact .evicts ev rfl rfl rfl
      | returning => cases h; exact .quiet rfl rfl
      | returned => cases h
  | getStats pc =>
      cases pc with
      | start => exact takeLock_effect h rfl
      | locked => cases h; exact .quiet rfl rfl
      | returned => cases h

/-! ## The simulation -/

/-- The threads before and after a move have the other threads in common. -/
theorem outstanding_after {w : LockWorld} {i : Nat} {th : Thread} {o : Outcome}
    (hi : w.threads[i]? = some th) :
    ∃ rest : List Eviction, (w.threads.flatMap Thread.outstanding).Perm (th.outstanding ++ rest) ∧
      ((w.after i o).threads.flatMap Thread.outstanding).Perm
        (o.thread.outstanding ++ o.spawned.flatMap Thread.outstanding ++ rest) := by
  obtain ⟨hlt, hget⟩ := List.getElem?_eq_some_iff.mp hi
  have hbefore : w.threads.Perm (th :: w.threads.eraseIdx i) := by
    rw [← hget]
    exact (List.getElem_cons_eraseIdx_perm hlt).symm
  have hafter : (w.threads.set i o.thread).Perm (o.thread :: w.threads.eraseIdx i) :=
    List.set_perm_cons_eraseIdx hlt o.thread
  refine ⟨(w.threads.eraseIdx i).flatMap Thread.outstanding, ?_, ?_⟩
  · exact hbefore.flatMap_right _
  · rw [LockWorld.after, List.flatMap_append]
    refine ((hafter.flatMap_right Thread.outstanding).append_right _).trans ?_
    rw [List.flatMap_cons, List.append_assoc, List.append_assoc]
    -- the threads started go to the end of the list, past the others
    exact List.Perm.append_left _ List.perm_append_comm

/-- An outstanding eviction has a place in the list, and is gone from it once carried out. -/
theorem exists_pending {pending rest : List Eviction} {ev : Eviction}
    (h : pending.Perm ([ev] ++ rest)) :
    ∃ n, pending[n]? = some ev ∧ (pending.eraseIdx n).Perm rest := by
  obtain ⟨n, hn⟩ := List.mem_iff_getElem?.mp (h.mem_iff.mpr (List.mem_cons_self ..))
  obtain ⟨hlt, hget⟩ := List.getElem?_eq_some_iff.mp hn
  have hsplit : (ev :: pending.eraseIdx n).Perm pending := by
    rw [← hget]
    exact List.getElem_cons_eraseIdx_perm hlt
  exact ⟨n, hn, List.Perm.cons_inv (hsplit.trans h)⟩

theorem abstracts_init (index : Index) : Abstracts (LockWorld.init index) (freshAgent index) :=
  ⟨rfl, List.Perm.refl _⟩

/-- **Each move is one step of the agent, or none.** -/
theorem abstracts_step {w w' : LockWorld} {a : AgentWorld} {l : LockLabel} (h : Abstracts w a)
    (hs : w.step l = some w') :
    ∃ ks a', run AgentWorld.step a ks = some a' ∧ Abstracts w' a' := by
  have hcalls : ∀ th : Thread, th.outstanding = [] →
      Abstracts { w with threads := w.threads ++ [th] } a := by
    intro th hth
    refine ⟨h.metric, ?_⟩
    rw [List.flatMap_append, List.flatMap_cons, hth]
    simpa using h.pending
  cases l with
  | callUpdateStats => cases hs; exact ⟨[], a, rfl, hcalls _ rfl⟩
  | callGetStats => cases hs; exact ⟨[], a, rfl, hcalls _ rfl⟩
  | move i env =>
      obtain ⟨th, o, hi, ho, rfl⟩ := LockWorld.step_move_inv hs
      obtain ⟨rest, hbefore, hafter⟩ := @outstanding_after w i th o hi
      have hpend := h.pending.trans hbefore
      cases move_effect ho with
      | quiet hm hout =>
          rw [hout] at hafter
          exact ⟨[], a, rfl, h.metric.trans hm.symm, hpend.trans hafter.symm⟩
      | scans s hscan horder hm hth hout =>
          rw [hth, List.nil_append] at hpend
          rw [hout] at hafter
          -- the thread scans without a trace, the agent with its own
          have hstart : Scan.Same ⟨a.metric, [], a.trace⟩ ⟨w.metric, [], []⟩ := ⟨h.metric, rfl⟩
          have hsame : (a.scanned env.input).Same s := by
            rw [hscan]
            exact same_scanFlows hstart _ _
          have hstep : a.step (.scan env.input) = some
              { metric := (finishScan env.input (a.scanned env.input)).1
                pending := a.pending ++ [(finishScan env.input (a.scanned env.input)).2]
                trace := .scanned env.input.t :: (a.scanned env.input).trace } := by
            simp only [AgentWorld.step]
            rw [hsame.1]
            exact if_pos horder
          refine ⟨[.scan env.input], _, (run_cons hstep []).trans rfl, ?_, ?_⟩
          · rw [hsame.finishScan_eq]
            exact hm.symm
          · rw [hsame.finishScan_eq]
            refine (hpend.append_right _).trans (List.perm_append_comm.trans ?_)
            exact hafter.symm
      | evicts ev hm hth hout =>
          rw [hth] at hpend
          rw [hout, List.nil_append] at hafter
          obtain ⟨n, hn, hrest⟩ := exists_pending hpend
          have hstep : a.step (.evict n false) = some
              { metric := evictEntries ev a.metric
                pending := a.pending.eraseIdx n
                trace := ev.toDeleteList.foldl (fun trace k => .dropped k :: trace)
                  a.trace } := by
            simp only [AgentWorld.step, hn]
            rfl
          refine ⟨[.evict n false], _, (run_cons hstep []).trans rfl, ?_, ?_⟩
          · rw [h.metric]
            exact hm.symm
          · exact hrest.trans hafter.symm
      | givesUp ev hm hth hout =>
          rw [hth] at hpend
          rw [hout, List.nil_append] at hafter
          obtain ⟨n, hn, hrest⟩ := exists_pending hpend
          have hstep : a.step (.evict n true)
              = some { a with pending := a.pending.eraseIdx n } := by
            simp only [AgentWorld.step, hn]
            rfl
          exact ⟨[.evict n true], _, (run_cons hstep []).trans rfl, h.metric.trans hm.symm,
            hrest.trans hafter.symm⟩

/-- **Whatever the threads do, the tables are those of a run of the agent.** -/
theorem threads_refine_agent {index : Index} {ls : List LockLabel} {w : LockWorld}
    (hr : run LockWorld.step (LockWorld.init index) ls = some w) :
    ∃ ks a, run AgentWorld.step (freshAgent index) ks = some a ∧ Abstracts w a :=
  run_simulate (R := Abstracts) (fun _ _ _ _ h hs => abstracts_step h hs) (abstracts_init index) hr

end Kubpf.Agent
