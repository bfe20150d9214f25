import Kubpf.Agent.Refinement
import Kubpf.Agent.ScanLoop

/-!
# The daemon

The parts of the agent put together: the goroutine that waits for ticks, the
calls of `UpdateStats` it makes, the goroutines these leave behind, and the
informers, which write the indexes under a mutex of their own.

Only the goroutine calls `UpdateStats`, and it waits for the call to return. So
calls never overlap, whatever the mutex does, and the tables go through a run of
the agent. When a call cannot open the map it returns with the mutex. The
goroutine makes at most one more call, and never comes back from that.

A scan's loop over the kernel map is one move here. Their mutex does not keep the
informers out of it in the source, where `getPodStatsKey` reads the indexes for
each flow; what is said below of the tables is said of runs in which no informer
writes while such a loop is under way. Between any two moves they write freely,
also while a goroutine holds `stateMutex`.
-/

namespace Kubpf.Agent

open Lib

/-! ## The parts and their labels -/

structure Daemon where
  loop : ScanLoop
  /-- The tables, their mutex, and every goroutine that has asked for it. -/
  lock : LockWorld
  /-- The call of `UpdateStats` the loop is in. -/
  call : Option Nat

def Daemon.init (index : Index) : Daemon where
  loop := .init
  lock := .init index
  call := none

inductive DaemonLabel where
  /-- A step of the loop or of its channels. -/
  | loop (l : LoopLabel)
  /-- The `i`-th goroutine makes its next move. -/
  | move (i : Nat) (env : Env)
  /-- The informers have written the indexes, not in the middle of a scan's loop. -/
  | informer (index : Index)

/-- The indexes are replaced; the gauges are not the informers'. -/
def InetV4FlowMetricsEntry.reindex (metric : InetV4FlowMetricsEntry) (index : Index) :
    InetV4FlowMetricsEntry :=
  { metric with agent := { index with gauges := metric.agent.gauges } }

/-- The call the loop is in has returned. -/
def Daemon.CallReturned (d : Daemon) : Prop :=
  ∃ i ∈ d.call, d.lock.threads[i]? = some (.updateStats .returned)

instance (d : Daemon) : Decidable d.CallReturned :=
  match h : d.call with
  | none => .isFalse fun ⟨i, hi, _⟩ => by rw [h] at hi; cases hi
  | some i =>
    decidable_of_iff (d.lock.threads[i]? = some (.updateStats .returned))
      ⟨fun ht => ⟨i, h, ht⟩, fun ⟨j, hj, ht⟩ => by rw [h] at hj; cases hj; exact ht⟩

def Daemon.step (d : Daemon) : DaemonLabel → Option Daemon
  | .loop .callUpdateStats =>
    (d.loop.step .callUpdateStats).map fun loop =>
      { loop, lock := { d.lock with threads := d.lock.threads ++ [.updateStats .start] }
        call := some d.lock.threads.length }
  | .loop .returnUpdateStats =>
    if d.CallReturned then
      (d.loop.step .returnUpdateStats).map fun loop => { d with loop, call := none }
    else none
  | .loop l => (d.loop.step l).map fun loop => { d with loop }
  | .move i env => (d.lock.step (.move i env)).map fun lock => { d with lock }
  | .informer index =>
    some { d with lock := { d.lock with metric := d.lock.metric.reindex index } }

/-- The steps, taken apart. -/
inductive DaemonStep (d : Daemon) : DaemonLabel → Daemon → Prop
  | call (loop : ScanLoop) (hloop : d.loop.step .callUpdateStats = some loop) :
      DaemonStep d (.loop .callUpdateStats)
        { loop, lock := { d.lock with threads := d.lock.threads ++ [.updateStats .start] }
          call := some d.lock.threads.length }
  | ret (loop : ScanLoop) (hret : d.CallReturned)
      (hloop : d.loop.step .returnUpdateStats = some loop) :
      DaemonStep d (.loop .returnUpdateStats) { d with loop, call := none }
  /-- The loop waits, receives or stops its ticker, or something is sent to it. -/
  | loop (l : LoopLabel) (loop : ScanLoop) (hcall : l ≠ .callUpdateStats)
      (hret : l ≠ .returnUpdateStats) (hloop : d.loop.step l = some loop) :
      DaemonStep d (.loop l) { d with loop }
  | move (i : Nat) (env : Env) (lock : LockWorld) (hlock : d.lock.step (.move i env) = some lock) :
      DaemonStep d (.move i env) { d with lock }
  | informer (index : Index) :
      DaemonStep d (.informer index)
        { d with lock := { d.lock with metric := d.lock.metric.reindex index } }

theorem Daemon.step_inv {d d' : Daemon} {l : DaemonLabel} (h : d.step l = some d') :
    DaemonStep d l d' := by
  cases l with
  | loop l =>
      cases l with
      | callUpdateStats =>
          obtain ⟨loop, hloop, rfl⟩ := Option.map_eq_some_iff.mp h
          exact .call loop hloop
      | returnUpdateStats =>
          rw [Daemon.step] at h
          split_ifs at h with hret
          obtain ⟨loop, hloop, rfl⟩ := Option.map_eq_some_iff.mp h
          exact .ret loop hret hloop
      | tick =>
          obtain ⟨loop, hloop, rfl⟩ := Option.map_eq_some_iff.mp h
          exact .loop _ loop (by simp) (by simp) hloop
      | closeStop =>
          obtain ⟨loop, hloop, rfl⟩ := Option.map_eq_some_iff.mp h
          exact .loop _ loop (by simp) (by simp) hloop
      | selectStop =>
          obtain ⟨loop, hloop, rfl⟩ := Option.map_eq_some_iff.mp h
          exact .loop _ loop (by simp) (by simp) hloop
      | selectTick =>
          obtain ⟨loop, hloop, rfl⟩ := Option.map_eq_some_iff.mp h
          exact .loop _ loop (by simp) (by simp) hloop
      | stopTicker =>
          obtain ⟨loop, hloop, rfl⟩ := Option.map_eq_some_iff.mp h
          exact .loop _ loop (by simp) (by simp) hloop
  | move i env =>
      obtain ⟨lock, hlock, rfl⟩ := Option.map_eq_some_iff.mp h
      exact .move i env lock hlock
  | informer index => cases h; exact .informer index

/-! ## One call at a time -/

/-- The goroutine is a call of `UpdateStats`. -/
def Thread.isUpdate : Thread → Bool
  | .updateStats _ => true
  | _ => false

theorem takeLock_thread {i : Nat} {holder : Option Nat} {metric : InetV4FlowMetricsEntry}
    {next : Thread} {o : Outcome} (h : takeLock i holder metric next = some o) :
    o.thread = next ∧ o.spawned = [] := by
  cases holder with
  | none => cases h; exact ⟨rfl, rfl⟩
  | some j => cases h

/-- **No goroutine becomes a call**, and the only ones started are evictions. -/
theorem move_isUpdate {env : Env} {metric : InetV4FlowMetricsEntry} {holder : Option Nat} {i : Nat}
    {th : Thread} {o : Outcome} (h : th.move env metric holder i = some o) :
    o.thread.isUpdate = th.isUpdate ∧ ∀ new ∈ o.spawned, new.isUpdate = false := by
  have hnil : ∀ {l : List Thread}, l = [] → ∀ new ∈ l, new.isUpdate = false := by
    intro l hl new hnew
    rw [hl] at hnew
    cases hnew
  cases th with
  | updateStats pc =>
      cases pc with
      | start =>
          obtain ⟨hth, hs⟩ := takeLock_thread h
          exact ⟨by rw [hth]; rfl, hnil hs⟩
      | locked =>
          rw [Thread.move] at h
          split_ifs at h
          · cases h; exact ⟨rfl, hnil rfl⟩
          · cases h; exact ⟨rfl, hnil rfl⟩
      | opened =>
          simp only [Thread.move] at h
          split_ifs at h
          cases h
          exact ⟨rfl, hnil rfl⟩
      | scanned ev => cases h; exact ⟨rfl, hnil rfl⟩
      | unlocked ev =>
          cases h
          refine ⟨rfl, fun new hnew => ?_⟩
          rw [List.mem_singleton.mp hnew]
          rfl
      | returned => cases h
  | eviction ev pc =>
      cases pc with
      | start =>
          obtain ⟨hth, hs⟩ := takeLock_thread h
          exact ⟨by rw [hth]; rfl, hnil hs⟩
      | locked =>
          rw [Thread.move] at h
          split_ifs at h
          · cases h; exact ⟨rfl, hnil rfl⟩
          · cases h; exact ⟨rfl, hnil rfl⟩
      | opened => cases h; exact ⟨rfl, hnil rfl⟩
      | returning => cases h; exact ⟨rfl, hnil rfl⟩
      | returned => cases h
  | getStats pc =>
      cases pc with
      | start =>
          obtain ⟨hth, hs⟩ := takeLock_thread h
          exact ⟨by rw [hth]; rfl, hnil hs⟩
      | locked => cases h; exact ⟨rfl, hnil rfl⟩
      | returned => cases h

/-- The goroutines after a move: the one that moved, the others, and those started. -/
theorem getElem?_after {w : LockWorld} {i j : Nat} {th th' : Thread} {o : Outcome}
    (hi : w.threads[i]? = some th) (h : (w.after i o).threads[j]? = some th') :
    (j = i ∧ th' = o.thread) ∨ (j ≠ i ∧ w.threads[j]? = some th') ∨ th' ∈ o.spawned := by
  have hlt : i < w.threads.length := (List.getElem?_eq_some_iff.mp hi).1
  rw [LockWorld.after] at h
  by_cases hj : j < (w.threads.set i o.thread).length
  · rw [List.getElem?_append_left hj] at h
    by_cases hji : j = i
    · subst hji
      rw [List.getElem?_set_self hlt] at h
      exact Or.inl ⟨rfl, (Option.some.inj h).symm⟩
    · rw [List.getElem?_set_ne (Ne.symm hji)] at h
      exact Or.inr (Or.inl ⟨hji, h⟩)
  · rw [List.getElem?_append_right (Nat.not_lt.mp hj)] at h
    exact Or.inr (Or.inr (List.mem_of_getElem? h))

/-- The loop knows the call it is in, and there is no other that has not returned. -/
structure Serial (d : Daemon) : Prop where
  inCall : d.call.isSome ↔ d.loop.pc = .inUpdateStats
  own : ∀ i, d.call = some i → ∃ pc, d.lock.threads[i]? = some (.updateStats pc)
  only : ∀ i pc, d.lock.threads[i]? = some (.updateStats pc) → pc ≠ .returned → d.call = some i

theorem serial_init (index : Index) : Serial (Daemon.init index) where
  inCall := by simp [Daemon.init, ScanLoop.init]
  own := by
    intro i h
    cases h
  only := by
    intro i pc h
    simp [Daemon.init, LockWorld.init] at h

/-- A step of the loop that neither calls nor returns stays inside a call or outside. -/
theorem inUpdateStats_iff {s s' : ScanLoop} {l : LoopLabel} (hcall : l ≠ .callUpdateStats)
    (hret : l ≠ .returnUpdateStats) (h : s.step l = some s') :
    s'.pc = .inUpdateStats ↔ s.pc = .inUpdateStats := by
  cases ScanLoop.step_inv h with
  | tick _ => rfl
  | closeStop _ => rfl
  | selectStop hpc _ => simp [hpc]
  | selectTick hpc _ => simp [hpc]
  | stopTicker hpc => simp [hpc]
  | callUpdateStats _ => exact absurd rfl hcall
  | returnUpdateStats _ => exact absurd rfl hret

/-- **Calls do not come to overlap.** -/
theorem serial_step {d d' : Daemon} {l : DaemonLabel} (h : Serial d) (hs : d.step l = some d') :
    Serial d' := by
  cases Daemon.step_inv hs with
  | call loop hloop =>
      cases ScanLoop.step_inv hloop with
      | callUpdateStats hpc =>
          have hnone : d.call = none := by
            rw [← Option.not_isSome_iff_eq_none, h.inCall, hpc]
            simp
          refine ⟨by simp, fun i hi => ?_, fun i pc hi hne => ?_⟩
          · cases hi
            exact ⟨.start, List.getElem?_concat_length⟩
          · rcases Nat.lt_or_ge i d.lock.threads.length with hlt | hge
            · -- an older call would still be under way
              rw [List.getElem?_append_left hlt] at hi
              exact absurd (hnone.symm.trans (h.only i pc hi hne)) (by simp)
            · have hle := (List.getElem?_eq_some_iff.mp hi).1
              rw [List.length_append, List.length_singleton] at hle
              have hi' : i = d.lock.threads.length := by omega
              rw [hi']
  | ret loop hret hloop =>
      cases ScanLoop.step_inv hloop with
      | returnUpdateStats hpc =>
          obtain ⟨j, hj, hth⟩ := hret
          refine ⟨by simp, fun i hi => (by cases hi), fun i pc hi hne => ?_⟩
          -- the call that is over is the only one there was
          have hij : i = j := Option.some.inj ((h.only i pc hi hne).symm.trans hj)
          subst hij
          rw [hth] at hi
          cases hi
          exact absurd rfl hne
  | loop l loop hcall hret hloop =>
      exact ⟨h.inCall.trans (inUpdateStats_iff hcall hret hloop).symm, h.own, h.only⟩
  | move i env lock hlock =>
      obtain ⟨th, o, hi, ho, rfl⟩ := LockWorld.step_move_inv hlock
      obtain ⟨hkind, hspawn⟩ := move_isUpdate ho
      refine ⟨h.inCall, fun j hj => ?_, fun j pc hj hne => ?_⟩
      · obtain ⟨pc, hpc⟩ := h.own j hj
        by_cases hji : j = i
        · subst hji
          have hth : th = .updateStats pc := Option.some.inj (hi.symm.trans hpc)
          rw [hth] at hkind
          cases hoth : o.thread with
          | updateStats pc' => exact ⟨pc', by rw [← hoth]; exact getElem?_after_self hi o⟩
          | eviction ev pc' => rw [hoth] at hkind; cases hkind
          | getStats pc' => rw [hoth] at hkind; cases hkind
        · refine ⟨pc, ?_⟩
          have hlt := (List.getElem?_eq_some_iff.mp hpc).1
          show (d.lock.threads.set i o.thread ++ o.spawned)[j]? = _
          rw [List.getElem?_append_left (by rw [List.length_set]; exact hlt),
            List.getElem?_set_ne (Ne.symm hji)]
          exact hpc
      · rcases getElem?_after hi hj with ⟨rfl, hth⟩ | ⟨-, hold⟩ | hnew
        · rw [← hth] at hkind
          cases hthi : th with
          | updateStats pc' =>
              refine h.only j pc' (hi.trans (congrArg some hthi)) fun hpc' => ?_
              rw [hthi, hpc'] at ho
              cases ho
          | eviction ev pc' => rw [hthi] at hkind; cases hkind
          | getStats pc' => rw [hthi] at hkind; cases hkind
        · exact h.only j pc hold hne
        · exact absurd (hspawn _ hnew) (by simp [Thread.isUpdate])
  | informer index => exact ⟨h.inCall, h.own, h.only⟩

/-! ## The daemon is the agent -/

/-- **Each step is one of the agent's, or none of them.** -/
theorem abstracts_daemon_step {d d' : Daemon} {a : AgentWorld} {l : DaemonLabel}
    (h : Abstracts d.lock a) (hs : d.step l = some d') :
    ∃ ks a', run AgentWorld.step a ks = some a' ∧ Abstracts d'.lock a' := by
  cases Daemon.step_inv hs with
  | call loop hloop => exact abstracts_step (l := .callUpdateStats) h rfl
  | ret loop hret hloop => exact ⟨[], a, rfl, h⟩
  | loop l loop hcall hret hloop => exact ⟨[], a, rfl, h⟩
  | move i env lock hlock => exact abstracts_step h hlock
  | informer index =>
      have hstep : a.step (.informer index) = some { a with metric := a.metric.reindex index } := rfl
      refine ⟨[.informer index], _, (run_cons hstep []).trans rfl, ?_, h.pending⟩
      rw [h.metric]

/-! ## Ticks and calls -/

/-- What of a run concerns the loop. -/
def loopLabels (ls : List DaemonLabel) : List LoopLabel :=
  ls.filterMap fun
    | .loop l => some l
    | _ => none

/-- Calls made so far. -/
def Daemon.calls (d : Daemon) : Nat := d.lock.threads.countP Thread.isUpdate

theorem countP_set {T : Type} {P : T → Bool} {l : List T} {i : Nat} {x y : T}
    (hx : l[i]? = some x) (hP : P y = P x) : (l.set i y).countP P = l.countP P := by
  obtain ⟨hlt, rfl⟩ := List.getElem?_eq_some_iff.mp hx
  have hbefore := (List.getElem_cons_eraseIdx_perm hlt).countP_eq P
  have hafter := (List.set_perm_cons_eraseIdx hlt y).countP_eq P
  rw [List.countP_cons] at hbefore hafter
  rw [hafter, ← hbefore, hP]

theorem calls_move {d : Daemon} {i : Nat} {env : Env} {lock : LockWorld}
    (h : d.lock.step (.move i env) = some lock) :
    lock.threads.countP Thread.isUpdate = d.calls := by
  obtain ⟨th, o, hi, ho, rfl⟩ := LockWorld.step_move_inv h
  obtain ⟨hkind, hspawn⟩ := move_isUpdate ho
  have hnone : o.spawned.countP Thread.isUpdate = 0 :=
    List.countP_eq_zero.mpr fun new hnew => by rw [hspawn new hnew]; simp
  rw [LockWorld.after, List.countP_append, hnone, Nat.add_zero]
  exact countP_set hi hkind

/-- **The loop takes part in a run as in one of its own**, and has as many goroutines to show as it
has made calls. -/
theorem loop_run {d d' : Daemon} {ls : List DaemonLabel} (h : run Daemon.step d ls = some d') :
    run ScanLoop.step d.loop (loopLabels ls) = some d'.loop ∧
      d'.calls = d.calls + (loopLabels ls).count .callUpdateStats := by
  induction ls generalizing d with
  | nil =>
      rw [run_nil] at h
      cases h
      exact ⟨rfl, rfl⟩
  | cons l ls ih =>
      obtain ⟨d₁, hs, hr⟩ := run_cons_eq_some h
      obtain ⟨hrest, hcalls⟩ := ih hr
      cases Daemon.step_inv hs with
      | call loop hloop =>
          refine ⟨(run_cons hloop _).trans hrest, ?_⟩
          have hone : Daemon.calls ⟨loop, { d.lock with
              threads := d.lock.threads ++ [.updateStats .start] }, some d.lock.threads.length⟩
              = d.calls + 1 := List.countP_append ..
          have hcount : (loopLabels (.loop .callUpdateStats :: ls)).count .callUpdateStats
              = (loopLabels ls).count .callUpdateStats + 1 := List.count_cons_self
          omega
      | ret loop hret hloop =>
          refine ⟨(run_cons hloop _).trans hrest, hcalls.trans ?_⟩
          exact congrArg (d.calls + ·) (List.count_cons_of_ne (by simp)).symm
      | loop l loop hcall hret hloop =>
          refine ⟨(run_cons hloop _).trans hrest, hcalls.trans ?_⟩
          exact congrArg (d.calls + ·) (List.count_cons_of_ne hcall).symm
      | move i env lock hlock =>
          refine ⟨hrest, hcalls.trans ?_⟩
          exact congrArg (· + _) (calls_move hlock)
      | informer index => exact ⟨hrest, hcalls⟩

/--
**`UpdateStats` is never called while a call is under way, and the daemon's tables are those of
a run of the agent.**

For every run of the daemon, ticks, stops, calls, evictions and failing opens coming
in any order, and the informers' writes anywhere but inside the loop of a scan: two
calls that have not returned are the same call, there has been one call for each
tick received, but for one that may be outstanding, and some run of the agent has
led to the same tables and the same outstanding evictions.
-/
theorem daemon_calls_serial (index : Index) (ls : List DaemonLabel) (d : Daemon)
    (hrun : run Daemon.step (Daemon.init index) ls = some d) :
    (∀ (i j : Nat) (pc pc' : UpdatePc), d.lock.threads[i]? = some (.updateStats pc) →
      pc ≠ .returned → d.lock.threads[j]? = some (.updateStats pc') → pc' ≠ .returned → i = j) ∧
    d.calls + d.loop.owed = (loopLabels ls).count .selectTick ∧
    ∃ ks a, run AgentWorld.step (freshAgent index) ks = some a ∧ Abstracts d.lock a := by
  refine ⟨?_, ?_, ?_⟩
  · have hserial : Serial d :=
      run_inv (I := Serial) (fun _ _ _ h hs => serial_step h hs) (serial_init index) hrun
    intro i j pc pc' hi hpc hj hpc'
    exact Option.some.inj ((hserial.only i pc hi hpc).symm.trans (hserial.only j pc' hj hpc'))
  · obtain ⟨hloop, hcalls⟩ := loop_run hrun
    have hticks := calls_run hloop
    have hzero : (Daemon.init index).calls = 0 := rfl
    have howed : (Daemon.init index).loop.owed = 0 := rfl
    omega
  · exact run_simulate (fun d l d' a h hs => abstracts_daemon_step h hs) (abstracts_init index) hrun

/-- A map that opens and is empty. -/
def emptyMap : Env := quietEnv missingMap.input

/-- A scan, a tick that comes while it runs, and the scan for that, which takes the mutex before the
first one's eviction does. -/
def busyDaemon : List DaemonLabel :=
  [.loop .tick, .loop .selectTick, .loop .callUpdateStats, .move 0 emptyMap, .move 0 emptyMap,
    .loop .tick, .move 0 emptyMap, .move 0 emptyMap, .move 0 emptyMap, .loop .returnUpdateStats,
    .loop .selectTick, .loop .callUpdateStats, .move 2 emptyMap]

theorem daemon_calls_serial_busy :
    ∃ d, run Daemon.step (Daemon.init Index.empty) busyDaemon = some d ∧ d.calls = 2 ∧
      ∃ ks a, run AgentWorld.step (freshAgent Index.empty) ks = some a ∧ Abstracts d.lock a := by
  have hrun : (run Daemon.step (Daemon.init Index.empty) busyDaemon).isSome = true := by
    decide +kernel
  have howed : (run Daemon.step (Daemon.init Index.empty) busyDaemon).map (·.loop.owed)
      = some 0 := by decide +kernel
  obtain ⟨d, hd⟩ := Option.isSome_iff_exists.mp hrun
  obtain ⟨-, hcalls, hagent⟩ := daemon_calls_serial Index.empty busyDaemon d hd
  rw [hd] at howed
  have hzero : d.loop.owed = 0 := Option.some.inj howed
  have hticks : (loopLabels busyDaemon).count .selectTick = 2 := by decide
  exact ⟨d, hd, by omega, hagent⟩

/-! ## A call that cannot open its map -/

/-- The call the loop is in has not got the mutex. -/
def Daemon.Waiting (d : Daemon) : Prop :=
  ∃ i ∈ d.call, d.lock.threads[i]? = some (.updateStats .start)

/-- The mutex is held as it should be, or by a call that is over. -/
def Held (w : LockWorld) : Prop := Exclusive w ∨ ∃ i, Leaked i w

/-- The mutex is lost, and calls do not overlap. -/
structure Doomed (d : Daemon) : Prop where
  serial : Serial d
  leaked : ∃ i, Leaked i d.lock

theorem held_lock_step {w w' : LockWorld} {l : LockLabel} (h : Held w) (hs : w.step l = some w') :
    Held w' := by
  rcases h with hex | ⟨i, hleak⟩
  · cases l with
    | callUpdateStats => exact Or.inl (exclusive_step (l := .callUpdateStats) hex trivial hs)
    | callGetStats => exact Or.inl (exclusive_step (l := .callGetStats) hex trivial hs)
    | move i env =>
        by_cases hfail : ScanFailsToOpen w (.move i env)
        · exact Or.inr ⟨i, leaked_of_scanFailsToOpen hex hfail hs⟩
        · exact Or.inl (exclusive_step (l := .move i env) hex hfail hs)
  · exact Or.inr ⟨i, leaked_step hleak hs⟩

theorem held_step {d d' : Daemon} {l : DaemonLabel} (h : Held d.lock) (hs : d.step l = some d') :
    Held d'.lock := by
  cases Daemon.step_inv hs with
  | call loop hloop => exact held_lock_step (l := .callUpdateStats) h rfl
  | ret loop hret hloop => exact h
  | loop l loop hcall hret hloop => exact h
  | move i env lock hlock => exact held_lock_step h hlock
  | informer index => exact h

/-- **Where the open fails, the daemon is doomed**: no scan gets as far once the mutex is lost. -/
theorem doomed_of_scanFailsToOpen {d d' : Daemon} {i : Nat} {env : Env} (hserial : Serial d)
    (hheld : Held d.lock) (hfail : ScanFailsToOpen d.lock (.move i env))
    (hs : d.step (.move i env) = some d') : Doomed d' ∧ d'.lock.metric = d.lock.metric := by
  have hserial' := serial_step hserial hs
  cases Daemon.step_inv hs with
  | move i env lock hlock =>
      refine ⟨⟨hserial', i, ?_⟩, metric_of_scanFailsToOpen hfail hlock⟩
      rcases hheld with hex | ⟨j, hleak⟩
      · exact leaked_of_scanFailsToOpen hex hfail hlock
      · -- nobody is inside any more
        have hout := hleak.2.2 _ (List.mem_of_getElem? hfail.1)
        cases hout

theorem doomed_step {d d' : Daemon} {l : DaemonLabel} (h : Doomed d) (hs : d.step l = some d') :
    Doomed d' := by
  refine ⟨serial_step h.serial hs, ?_⟩
  obtain ⟨i, hleak⟩ := h.leaked
  refine ⟨i, ?_⟩
  cases Daemon.step_inv hs with
  | call loop hloop => exact leaked_step (l := .callUpdateStats) hleak rfl
  | ret loop hret hloop => exact hleak
  | loop l loop hcall hret hloop => exact hleak
  | move i env lock hlock => exact leaked_step hleak hlock
  | informer index => exact hleak

/-! What the tables are from then on -/

theorem reindex_reindex (metric : InetV4FlowMetricsEntry) (index index' : Index) :
    (metric.reindex index).reindex index' = metric.reindex index' := rfl

/-- With the mutex lost, no move changes the tables. -/
theorem metric_of_leaked {i j : Nat} {w w' : LockWorld} {env : Env} (h : Leaked i w)
    (hs : w.step (.move j env) = some w') : w'.metric = w.metric := by
  obtain ⟨th, o, hj, ho, rfl⟩ := LockWorld.step_move_inv hs
  have hout : th.inside = false := h.2.2 th (List.mem_of_getElem? hj)
  rw [h.1] at ho
  cases th with
  | updateStats pc =>
      cases pc with
      | start => cases ho
      | locked => cases hout
      | opened => cases hout
      | scanned ev => cases hout
      | unlocked ev => cases ho; rfl
      | returned => cases ho
  | eviction ev pc =>
      cases pc with
      | start => cases ho
      | locked => cases hout
      | opened => cases hout
      | returning => cases hout
      | returned => cases ho
  | getStats pc =>
      cases pc with
      | start => cases ho
      | locked => cases hout
      | returned => cases ho

/-- **Only the informers write any more**, and only the indexes. -/
theorem frozen_step {d d' : Daemon} {l : DaemonLabel} {metric : InetV4FlowMetricsEntry}
    (h : Doomed d) (hm : ∃ index, d.lock.metric = metric.reindex index) (hs : d.step l = some d') :
    ∃ index, d'.lock.metric = metric.reindex index := by
  obtain ⟨i, hleak⟩ := h.leaked
  cases Daemon.step_inv hs with
  | call loop hloop => exact hm
  | ret loop hret hloop => exact hm
  | loop l loop hcall hret hloop => exact hm
  | move j env lock hlock =>
      obtain ⟨index, hindex⟩ := hm
      exact ⟨index, (metric_of_leaked hleak hlock).trans hindex⟩
  | informer index =>
      obtain ⟨old, hold⟩ := hm
      refine ⟨index, ?_⟩
      show d.lock.metric.reindex index = _
      rw [hold, reindex_reindex]

/-! What the loop does from then on -/

theorem waiting_of_call {d d' : Daemon} (hs : d.step (.loop .callUpdateStats) = some d') :
    d'.Waiting := by
  cases Daemon.step_inv hs with
  | call loop hloop => exact ⟨d.lock.threads.length, rfl, List.getElem?_concat_length⟩
  | loop _ _ hcall _ _ => exact absurd rfl hcall

/-- **A call that waits for a lost mutex waits on**, and the loop with it. -/
theorem waiting_step {d d' : Daemon} {l : DaemonLabel} (h : Doomed d) (hw : d.Waiting)
    (hs : d.step l = some d') :
    d'.Waiting ∧ ∀ k, l = .loop k → k = .tick ∨ k = .closeStop := by
  obtain ⟨j, hj, hth⟩ := hw
  have hpc : d.loop.pc = .inUpdateStats := h.serial.inCall.mp (Option.isSome_of_eq_some hj)
  obtain ⟨i, hleak⟩ := h.leaked
  cases Daemon.step_inv hs with
  | call loop hloop =>
      cases ScanLoop.step_inv hloop with
      | callUpdateStats hpc' => exact absurd (hpc.symm.trans hpc') (by simp)
  | ret loop hret hloop =>
      -- the call would have returned
      obtain ⟨j', hj', hth'⟩ := hret
      have he : j' = j := Option.some.inj (hj'.symm.trans hj)
      subst he
      exact absurd (hth.symm.trans hth') (by simp)
  | loop l loop hcall hret hloop =>
      refine ⟨⟨j, hj, hth⟩, fun k hk => ?_⟩
      cases hk
      cases ScanLoop.step_inv hloop with
      | tick _ => exact Or.inl rfl
      | closeStop _ => exact Or.inr rfl
      | selectStop hpc' _ => exact absurd (hpc.symm.trans hpc') (by simp)
      | selectTick hpc' _ => exact absurd (hpc.symm.trans hpc') (by simp)
      | stopTicker hpc' => exact absurd (hpc.symm.trans hpc') (by simp)
      | callUpdateStats _ => exact absurd rfl hcall
      | returnUpdateStats _ => exact absurd rfl hret
  | move n env lock hlock =>
      refine ⟨⟨j, hj, ?_⟩, fun k hk => by cases hk⟩
      obtain ⟨th, o, hn, ho, rfl⟩ := LockWorld.step_move_inv hlock
      have hne : j ≠ n := by
        rintro rfl
        -- the mutex is not to be had
        have hthn : th = .updateStats .start := Option.some.inj (hn.symm.trans hth)
        rw [hthn, hleak.1] at ho
        cases ho
      have hlt := (List.getElem?_eq_some_iff.mp hth).1
      show (d.lock.threads.set n o.thread ++ o.spawned)[j]? = _
      rw [List.getElem?_append_left (by rw [List.length_set]; exact hlt),
        List.getElem?_set_ne (Ne.symm hne)]
      exact hth
  | informer index => exact ⟨⟨j, hj, hth⟩, fun k hk => by cases hk⟩

theorem waiting_run {d d' : Daemon} {ls : List DaemonLabel} (h : Doomed d) (hw : d.Waiting)
    (hr : run Daemon.step d ls = some d') :
    d'.Waiting ∧ ∀ k ∈ loopLabels ls, k = .tick ∨ k = .closeStop := by
  induction ls generalizing d with
  | nil =>
      rw [run_nil] at hr
      cases hr
      exact ⟨hw, fun k hk => by cases hk⟩
  | cons l ls ih =>
      obtain ⟨d₁, hs, hr₁⟩ := run_cons_eq_some hr
      obtain ⟨hw₁, hl⟩ := waiting_step h hw hs
      obtain ⟨hw', hls⟩ := ih (doomed_step h hs) hw₁ hr₁
      refine ⟨hw', fun k hk => ?_⟩
      cases l with
      | loop k' =>
          rcases List.mem_cons.mp hk with rfl | hk
          · exact hl k rfl
          · exact hls k hk
      | move i env => exact hls k hk
      | informer index => exact hls k hk

/--
**A scan that cannot open its map is the last.**

In every run of the daemon: once a call of `UpdateStats` fails to open the map, no
table ever changes again, though the informers go on writing the indexes; and if
the loop makes another call, that call waits for the mutex in every later state,
and the loop receives neither ticks nor the stop.
-/
theorem failed_open_is_last (index : Index) (ls : List DaemonLabel) (d d₁ d' : Daemon) (i : Nat)
    (env : Env) (hrun : run Daemon.step (Daemon.init index) ls = some d)
    (hfail : ScanFailsToOpen d.lock (.move i env)) (hs : d.step (.move i env) = some d₁)
    (rest : List DaemonLabel) (hrest : run Daemon.step d₁ rest = some d') :
    (∃ index', d'.lock.metric = d.lock.metric.reindex index') ∧
    ∀ before after, rest = before ++ .loop .callUpdateStats :: after →
      d'.Waiting ∧ ∀ k ∈ loopLabels after, k = .tick ∨ k = .closeStop := by
  have hinv : Serial d ∧ Held d.lock :=
    run_inv (I := fun d => Serial d ∧ Held d.lock)
      (fun _ _ _ h hs => ⟨serial_step h.1 hs, held_step h.2 hs⟩)
      ⟨serial_init index, Or.inl (exclusive_init index)⟩ hrun
  obtain ⟨hdoomed, hmetric⟩ := doomed_of_scanFailsToOpen hinv.1 hinv.2 hfail hs
  refine ⟨?_, ?_⟩
  · have hfrozen : Doomed d' ∧ ∃ index', d'.lock.metric = d.lock.metric.reindex index' :=
      run_inv (I := fun e => Doomed e ∧ ∃ index', e.lock.metric = d.lock.metric.reindex index')
        (fun _ _ _ h hs => ⟨doomed_step h.1 hs, frozen_step h.1 h.2 hs⟩)
        ⟨hdoomed, d.lock.metric.agent.toIndex, hmetric⟩ hrest
    exact hfrozen.2
  · intro before after hsplit
    rw [hsplit] at hrest
    obtain ⟨d₂, hbefore, hcons⟩ := run_append_eq_some hrest
    obtain ⟨d₃, hcall, hafter⟩ := run_cons_eq_some hcons
    have hdoomed₂ : Doomed d₂ :=
      run_inv (I := Doomed) (fun _ _ _ h hs => doomed_step h hs) hdoomed hbefore
    exact waiting_run (doomed_step hdoomed₂ hcall) (waiting_of_call hcall) hafter

/-- The second scan cannot open the map, and two more ticks come. -/
theorem failed_open_is_last_unmounted :
    ∃ d', run Daemon.step (Daemon.init Index.empty)
        (busyDaemon ++ .move 2 missingMap ::
          ([.loop .returnUpdateStats, .loop .tick, .loop .selectTick] ++
            .loop .callUpdateStats :: [.loop .tick, .loop .closeStop])) = some d' ∧
      d'.Waiting := by
  have hrun : (run Daemon.step (Daemon.init Index.empty)
      (busyDaemon ++ .move 2 missingMap ::
        ([.loop .returnUpdateStats, .loop .tick, .loop .selectTick] ++
          .loop .callUpdateStats :: [.loop .tick, .loop .closeStop]))).isSome = true := by
    decide +kernel
  have hfail : (run Daemon.step (Daemon.init Index.empty) busyDaemon).map
      (·.lock.threads[2]?) = some (some (.updateStats .locked)) := by decide +kernel
  obtain ⟨d', hd'⟩ := Option.isSome_iff_exists.mp hrun
  obtain ⟨d, hd, hrest⟩ := run_append_eq_some hd'
  obtain ⟨d₁, hs, hrest₁⟩ := run_cons_eq_some hrest
  rw [hd] at hfail
  exact ⟨d', hd', ((failed_open_is_last Index.empty busyDaemon d d₁ d' 2 missingMap hd
    ⟨Option.some.inj hfail, rfl⟩ hs _ hrest₁).2 _ _ rfl).1⟩

end Kubpf.Agent
