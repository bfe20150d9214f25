import Kubpf.PodTotals
import Kubpf.Agent.Refinement
import Kubpf.Kernel.Deletions

/-!
# Scans and evictions do not stop the traffic

In `World` a scan reads the kernel map at one moment, and an eviction deletes from
it at one moment. `UpdateStats` does no such thing: it fetches one entry after
another, and its goroutine deletes one key after another, while the kernel program
goes on counting, in entries the iterator has passed and in entries it has yet to
come to, in flows that are gone and in new ones that take their room. Here every
call of the agent is a task that moves on its own under `stateMutex`, and it takes
one move for each entry it reads or deletes.

Nothing is lost by taking scans and evictions as single steps. While the informers
are quiet, every run of the tasks ends where a run of `World` ends that counts the
same packets, those of each flow in the same order (`machine_refines_world`).
-/

namespace Kubpf

open Lib Kernel Agent

/-! ## Tasks -/

/-- The loop over the kernel map, between two calls of `mIter.Next`. -/
structure Iteration where
  t : Time
  /-- The entries that were there when the iterator was made. -/
  due : Finset InetV4Flow
  /-- What `mIter.Next` has delivered, oldest first. -/
  reports : List (InetV4Flow × FlowStats)
  toDeleteList : List InetV4Flow

/-- `m.Iterate()`, and the time taken. -/
def iterate (now : Time) (maps : FlowMaps) : Iteration where
  t := now
  due := maps.v4FlowMap.table.keys
  reports := []
  toDeleteList := []

inductive ScanPc where
  | start
  /-- Past `Lock`: the map is opened next. -/
  | locked
  | iterating (it : Iteration)
  /-- The lists are complete: `Unlock` is next. -/
  | scanned (ev : Eviction)
  /-- The goroutine is started next. -/
  | unlocked (ev : Eviction)
  | returned

/-- The goroutine `UpdateStats` starts. -/
inductive PrunePc where
  | start
  | locked
  /-- In the loop over `toDeleteList`, with these keys still to come. -/
  | deleting (left : List InetV4Flow)
  /-- Returning: the deferred calls are next. -/
  | returning
  | returned

inductive Task where
  | updateStats (pc : ScanPc)
  | eviction (ev : Eviction) (pc : PrunePc)
  | getStats (pc : GetPc)

namespace Task

/-- The mutex is taken and not yet given back. -/
def inside : Task → Bool
  | .updateStats .locked | .updateStats (.iterating _) | .updateStats (.scanned _) => true
  | .eviction _ .locked | .eviction _ (.deleting _) | .eviction _ .returning => true
  | .getStats .locked => true
  | _ => false

/-- The task is in the loop over the kernel map. -/
def iterating : Task → Bool
  | .updateStats (.iterating _) => true
  | _ => false

/-- The task is in a loop that reads or deletes entries of the kernel map. -/
def midway : Task → Bool
  | .updateStats (.iterating _) | .eviction _ (.deleting _) => true
  | _ => false

/-- The eviction a task has yet to carry out. -/
def outstanding : Task → List Eviction
  | .updateStats (.scanned ev) | .updateStats (.unlocked ev) => [ev]
  | .eviction ev .start | .eviction ev .locked | .eviction ev (.deleting _) => [ev]
  | _ => []

theorem inside_of_midway {task : Task} (h : task.midway = true) : task.inside = true := by
  cases task with
  | updateStats pc => cases pc <;> first | rfl | cases h
  | eviction ev pc => cases pc <;> first | rfl | cases h
  | getStats pc => cases h

end Task

structure Machine where
  maps : FlowMaps
  metric : InetV4FlowMetricsEntry
  /-- The task that holds `stateMutex`. -/
  holder : Option Nat
  tasks : List Task

/-- Empty maps and a new agent. -/
def Machine.init (index : Index) : Machine where
  maps := FlowMaps.empty
  metric := newInetV4FlowMetricsEntry { index with gauges := ∅ }
  holder := none
  tasks := []

/-- What a task may find when it moves. -/
structure Surroundings where
  /-- `LoadPinnedMap` fails. -/
  openErr : Bool
  /-- `time.Now()`. -/
  now : Time
  /-- The entry `mIter.Next` comes to, or the end. -/
  next : Option InetV4Flow
  /-- The orders in which `range` walks the aggregate tables. -/
  podOrder : List PodStatsKey
  svcOrder : List PodStatsKey
  knownOrder : List PodStatsKey
  /-- `m2.Delete` returns an error. -/
  deleteErr : Bool

/-- The scan a finished iteration amounts to. -/
def Iteration.input (it : Iteration) (env : Surroundings) : ScanInput where
  t := it.t
  reports := it.reports
  podOrder := env.podOrder
  svcOrder := env.svcOrder
  knownOrder := env.knownOrder

/-- The loops of the goroutine over the aggregates' lists. -/
def evictAggregates (ev : Eviction) (metric : InetV4FlowMetricsEntry) : InetV4FlowMetricsEntry :=
  { metric with
    knownStatsMap := ev.toDeleteKnownStatsList.foldl PtrMap.erase metric.knownStatsMap
    podStatsMap := ev.toDeletePodStatsList.foldl PtrMap.erase metric.podStatsMap
    svcStatsMap := ev.toDeleteSvcStatsList.foldl PtrMap.erase metric.svcStatsMap }

/-- What a move leaves. -/
structure Moved where
  task : Task
  maps : FlowMaps
  metric : InetV4FlowMetricsEntry
  holder : Option Nat
  spawned : List Task

/-- The next move of the `i`-th task. -/
def Task.move (env : Surroundings) (m : Machine) (i : Nat) : Task → Option Moved
  | .updateStats .start => lock (.updateStats .locked)
  | .updateStats .locked =>
    if env.openErr then on (.updateStats .returned) m.maps m.metric m.holder []
    else on (.updateStats (.iterating (iterate env.now m.maps))) m.maps m.metric m.holder []
  | .updateStats (.iterating it) =>
    match env.next with
    | some keyOut =>
      match m.maps.v4FlowMap.val keyOut with
      | none => none
      | some valueOut =>
        -- an iterator does not come to an entry twice
        if keyOut ∈ it.reports.map Prod.fst then none
        else
          let s := scanFlow it.t ⟨m.metric, it.toDeleteList, []⟩ keyOut valueOut
          let it' : Iteration :=
            { it with
              reports := it.reports ++ [(keyOut, valueOut)], toDeleteList := s.toDeleteList }
          on (.updateStats (.iterating it')) m.maps s.metric m.holder []
    | none =>
      -- it may miss an entry made after it, but none that was there all along
      if it.due ⊆ (it.reports.map Prod.fst).toFinset ∧ (it.input env).OrdersOf m.metric then
        let last := finishScan (it.input env) ⟨m.metric, it.toDeleteList, []⟩
        on (.updateStats (.scanned last.2)) m.maps last.1 m.holder []
      else none
  | .updateStats (.scanned ev) => on (.updateStats (.unlocked ev)) m.maps m.metric none []
  | .updateStats (.unlocked ev) =>
    on (.updateStats .returned) m.maps m.metric m.holder [.eviction ev .start]
  | .updateStats .returned => none
  | .eviction ev .start => lock (.eviction ev .locked)
  | .eviction ev .locked =>
    if env.openErr then on (.eviction ev .returning) m.maps m.metric m.holder []
    else on (.eviction ev (.deleting ev.toDeleteList)) m.maps m.metric m.holder []
  | .eviction ev (.deleting (toDelete :: left)) =>
    -- an error is only logged
    let maps := if env.deleteErr then m.maps else m.maps.op (.delete toDelete)
    let metric := { m.metric with baseMap := m.metric.baseMap.erase toDelete }
    on (.eviction ev (.deleting left)) maps metric m.holder []
  | .eviction ev (.deleting []) =>
    on (.eviction ev .returning) m.maps (evictAggregates ev m.metric) m.holder []
  | .eviction ev .returning => on (.eviction ev .returned) m.maps m.metric none []
  | .eviction _ .returned => none
  | .getStats .start => lock (.getStats .locked)
  | .getStats .locked => on (.getStats .returned) m.maps m.metric none []
  | .getStats .returned => none
where
  /-- `stateMutex.Lock()`, which waits while the mutex is held. -/
  lock (next : Task) : Option Moved :=
    match m.holder with
    | none => on next m.maps m.metric (some i) []
    | some _ => none
  on (task : Task) (maps : FlowMaps) (metric : InetV4FlowMetricsEntry) (holder : Option Nat)
      (spawned : List Task) : Option Moved :=
    some { task, maps, metric, holder, spawned }

inductive MachineLabel where
  | packet (skb : SkBuff) (dir : CgroupDirection)
  | informer (index : Index)
  /-- The ticker fires. -/
  | callUpdateStats
  | callGetStats
  /-- The `i`-th task makes its next move. -/
  | move (i : Nat) (env : Surroundings)

/-- The machine after the `i`-th task's move. -/
def Machine.after (m : Machine) (i : Nat) (o : Moved) : Machine where
  maps := o.maps
  metric := o.metric
  holder := o.holder
  tasks := m.tasks.set i o.task ++ o.spawned

def Machine.step (m : Machine) : MachineLabel → Option Machine
  | .packet skb dir => some { m with maps := bpfFlowReader skb dir m.maps }
  | .informer index =>
    some { m with metric := { m.metric with agent := { index with gauges := m.metric.agent.gauges } } }
  | .callUpdateStats => some { m with tasks := m.tasks ++ [.updateStats .start] }
  | .callGetStats => some { m with tasks := m.tasks ++ [.getStats .start] }
  | .move i env =>
    match m.tasks[i]? with
    | none => none
    | some task => (task.move env m i).map (m.after i)

/-- A move, taken apart. -/
theorem Machine.step_move_inv {m m' : Machine} {i : Nat} {env : Surroundings}
    (h : m.step (.move i env) = some m') :
    ∃ task o, m.tasks[i]? = some task ∧ task.move env m i = some o ∧ m' = m.after i o := by
  rw [Machine.step] at h
  cases hi : m.tasks[i]? with
  | none => rw [hi] at h; cases h
  | some task =>
      rw [hi] at h
      obtain ⟨o, ho, hm⟩ := Option.map_eq_some_iff.mp h
      exact ⟨task, o, rfl, ho, hm.symm⟩

/-! ## What a move can be -/

/-- A task's move, as the world sees it. -/
inductive MoveEffect (env : Surroundings) (m : Machine) (i : Nat) (task : Task) (o : Moved) : Prop
  /-- Maps and tables stay, and what the task had to evict it or its child still has. -/
  | quiet (hmaps : o.maps = m.maps) (hm : o.metric = m.metric)
      (hmid : task.midway = false) (hmid' : o.task.midway = false)
      (ho : o.task.outstanding ++ o.spawned.flatMap Task.outstanding = task.outstanding)
  | begins (hmaps : o.maps = m.maps) (hm : o.metric = m.metric)
      (hth : task = .updateStats .locked) (hspawned : o.spawned = [])
      (ho : o.task = .updateStats (.iterating (iterate env.now m.maps)))
  | reads (it : Iteration) (key : InetV4Flow) (value : FlowStats) (hmaps : o.maps = m.maps)
      (hth : task = .updateStats (.iterating it)) (hspawned : o.spawned = [])
      (hval : m.maps.v4FlowMap.val key = some value) (hnew : key ∉ it.reports.map Prod.fst)
      (hm : o.metric = (scanFlow it.t ⟨m.metric, it.toDeleteList, []⟩ key value).metric)
      (ho : o.task = .updateStats (.iterating
        { it with
          reports := it.reports ++ [(key, value)]
          toDeleteList := (scanFlow it.t ⟨m.metric, it.toDeleteList, []⟩ key value).toDeleteList }))
  | finishes (it : Iteration) (hmaps : o.maps = m.maps)
      (hth : task = .updateStats (.iterating it)) (hspawned : o.spawned = [])
      (hdue : it.due ⊆ (it.reports.map Prod.fst).toFinset)
      (horder : (it.input env).OrdersOf m.metric)
      (hm : o.metric = (finishScan (it.input env) ⟨m.metric, it.toDeleteList, []⟩).1)
      (ho : o.task = .updateStats (.scanned
        (finishScan (it.input env) ⟨m.metric, it.toDeleteList, []⟩).2))
  | opens (ev : Eviction) (hmaps : o.maps = m.maps) (hm : o.metric = m.metric)
      (hth : task = .eviction ev .locked) (hspawned : o.spawned = [])
      (ho : o.task = .eviction ev (.deleting ev.toDeleteList))
  | deletes (ev : Eviction) (toDelete : InetV4Flow) (left : List InetV4Flow)
      (hmaps : o.maps = if env.deleteErr then m.maps else m.maps.op (.delete toDelete))
      (hm : o.metric = { m.metric with baseMap := m.metric.baseMap.erase toDelete })
      (hth : task = .eviction ev (.deleting (toDelete :: left))) (hspawned : o.spawned = [])
      (ho : o.task = .eviction ev (.deleting left))
  | evicts (ev : Eviction) (hmaps : o.maps = m.maps) (hm : o.metric = evictAggregates ev m.metric)
      (hth : task = .eviction ev (.deleting [])) (hspawned : o.spawned = [])
      (ho : o.task = .eviction ev .returning)
  | givesUp (ev : Eviction) (hmaps : o.maps = m.maps) (hm : o.metric = m.metric)
      (hth : task = .eviction ev .locked) (hspawned : o.spawned = [])
      (ho : o.task = .eviction ev .returning)

/-- A task outside the critical section changes neither maps nor tables. -/
theorem MoveEffect.quiet_or_inside {env : Surroundings} {m : Machine} {i : Nat} {task : Task}
    {o : Moved} (h : MoveEffect env m i task o) :
    (o.maps = m.maps ∧ o.metric = m.metric ∧
      o.task.outstanding ++ o.spawned.flatMap Task.outstanding = task.outstanding) ∨
    task.inside = true := by
  cases h with
  | quiet hmaps hm hit hit' ho => exact Or.inl ⟨hmaps, hm, ho⟩
  | begins hmaps hm hth hspawned ho => exact Or.inr (by rw [hth]; rfl)
  | reads it key value hmaps hth hspawned hval hnew hm ho => exact Or.inr (by rw [hth]; rfl)
  | finishes it hmaps hth hspawned hdue horder hm ho => exact Or.inr (by rw [hth]; rfl)
  | opens ev hmaps hm hth hspawned ho => exact Or.inr (by rw [hth]; rfl)
  | deletes ev toDelete left hmaps hm hth hspawned ho => exact Or.inr (by rw [hth]; rfl)
  | evicts ev hmaps hm hth hspawned ho => exact Or.inr (by rw [hth]; rfl)
  | givesUp ev hmaps hm hth hspawned ho => exact Or.inr (by rw [hth]; rfl)

/-- How a move passes the critical section. -/
inductive Passing (m : Machine) (i : Nat) (task : Task) (o : Moved) : Prop
  | enters (hfree : m.holder = none) (hnow : o.holder = some i)
  | stays (hth : task.inside = true) (hnow : o.holder = m.holder)
  /-- `UpdateStats` that cannot open the map leaves without giving the mutex back. -/
  | leaves (hth : task.inside = true) (ho : o.task.inside = false)
  | away (ho : o.task.inside = false) (hnow : o.holder = m.holder)

/-- Everything a move does. -/
structure MoveInv (env : Surroundings) (m : Machine) (i : Nat) (task : Task) (o : Moved) : Prop where
  effect : MoveEffect env m i task o
  passing : Passing m i task o
  spawned : ∀ new ∈ o.spawned, new.inside = false

theorem lock_inv {env : Surroundings} {m : Machine} {i : Nat} {task next : Task} {o : Moved}
    (h : Task.move.lock m i next = some o) (hmid : task.midway = false)
    (hmid' : next.midway = false) (hnext : next.outstanding = task.outstanding) :
    MoveInv env m i task o := by
  unfold Task.move.lock at h
  cases hm : m.holder with
  | some j => rw [hm] at h; cases h
  | none =>
      rw [hm] at h
      cases h
      have ho : next.outstanding ++ List.flatMap Task.outstanding [] = task.outstanding := by
        rw [List.flatMap_nil, List.append_nil]
        exact hnext
      exact ⟨.quiet rfl rfl hmid hmid' ho, .enters hm rfl, by simp⟩

/-- **Every move is one of the eight**, and passes the critical section in one of the four ways. -/
theorem task_move_inv {env : Surroundings} {m : Machine} {i : Nat} {task : Task} {o : Moved}
    (h : task.move env m i = some o) : MoveInv env m i task o := by
  cases task with
  | updateStats pc =>
      cases pc with
      | start => exact lock_inv h rfl rfl rfl
      | locked =>
          rw [Task.move] at h
          split_ifs at h
          · cases h; exact ⟨.quiet rfl rfl rfl rfl rfl, .leaves rfl rfl, by simp⟩
          · cases h; exact ⟨.begins rfl rfl rfl rfl rfl, .stays rfl rfl, by simp⟩
      | iterating it =>
          rw [Task.move] at h
          cases hnext : env.next with
          | some key =>
              rw [hnext] at h
              cases hval : m.maps.v4FlowMap.val key with
              | none => simp only [hval] at h; cases h
              | some value =>
                  simp only [hval] at h
                  split_ifs at h with hnew
                  cases h
                  exact ⟨.reads it key value rfl rfl rfl hval hnew rfl rfl, .stays rfl rfl, by simp⟩
          | none =>
              rw [hnext] at h
              simp only at h
              split_ifs at h with hend
              cases h
              exact ⟨.finishes it rfl rfl rfl hend.1 hend.2 rfl rfl, .stays rfl rfl, by simp⟩
      | scanned ev => cases h; exact ⟨.quiet rfl rfl rfl rfl rfl, .leaves rfl rfl, by simp⟩
      | unlocked ev =>
          cases h
          refine ⟨.quiet rfl rfl rfl rfl rfl, .away rfl rfl, fun new hnew => ?_⟩
          rw [List.mem_singleton.mp hnew]
          rfl
      | returned => cases h
  | eviction ev pc =>
      cases pc with
      | start => exact lock_inv h rfl rfl rfl
      | locked =>
          rw [Task.move] at h
          split_ifs at h
          · cases h; exact ⟨.givesUp ev rfl rfl rfl rfl rfl, .stays rfl rfl, by simp⟩
          · cases h; exact ⟨.opens ev rfl rfl rfl rfl rfl, .stays rfl rfl, by simp⟩
      | deleting left =>
          cases left with
          | nil => cases h; exact ⟨.evicts ev rfl rfl rfl rfl rfl, .stays rfl rfl, by simp⟩
          | cons toDelete left =>
              cases h
              exact ⟨.deletes ev toDelete left rfl rfl rfl rfl rfl, .stays rfl rfl, by simp⟩
      | returning => cases h; exact ⟨.quiet rfl rfl rfl rfl rfl, .leaves rfl rfl, by simp⟩
      | returned => cases h
  | getStats pc =>
      cases pc with
      | start => exact lock_inv h rfl rfl rfl
      | locked => cases h; exact ⟨.quiet rfl rfl rfl rfl rfl, .leaves rfl rfl, by simp⟩
      | returned => cases h

/-! ## Whoever is inside holds the mutex -/

/-- A task inside holds the mutex. The converse fails once an `UpdateStats` could not open the
map. -/
def Guarded (m : Machine) : Prop :=
  ∀ i task, m.tasks[i]? = some task → task.inside = true → m.holder = some i

theorem guarded_init (index : Index) : Guarded (Machine.init index) := by
  intro i task hi
  simp [Machine.init] at hi

/-- Where a task of the machine after a move comes from. -/
theorem getElem?_after {m : Machine} {i j : Nat} {o : Moved} {task : Task}
    (h : (m.after i o).tasks[j]? = some task) :
    (j = i ∧ task = o.task) ∨ (j ≠ i ∧ m.tasks[j]? = some task) ∨ task ∈ o.spawned := by
  rw [Machine.after, List.getElem?_append, List.length_set] at h
  split_ifs at h with hlt
  · rcases eq_or_ne j i with rfl | hne
    · rw [List.getElem?_set_self hlt] at h
      exact Or.inl ⟨rfl, (Option.some.inj h).symm⟩
    · rw [List.getElem?_set_ne (Ne.symm hne)] at h
      exact Or.inr (Or.inl ⟨hne, h⟩)
  · exact Or.inr (Or.inr (List.mem_of_getElem? h))

/-- **Every move keeps the mutex with the task inside.** -/
theorem guarded_after {env : Surroundings} {m : Machine} {i : Nat} {task : Task} {o : Moved}
    (hg : Guarded m) (hi : m.tasks[i]? = some task) (h : MoveInv env m i task o) :
    Guarded (m.after i o) := by
  intro j th hj hin
  rcases getElem?_after hj with ⟨rfl, rfl⟩ | ⟨hne, hj⟩ | hnew
  · -- the task that moved
    cases h.passing with
    | enters hfree hnow => exact hnow
    | stays hth hnow => exact hnow.trans (hg j task hi hth)
    | leaves hth ho => rw [ho] at hin; cases hin
    | away ho hnow => rw [ho] at hin; cases hin
  · -- the others have not moved, and kept it from entering
    have hold : m.holder = some j := hg j th hj hin
    cases h.passing with
    | enters hfree hnow => rw [hfree] at hold; cases hold
    | stays hth hnow => exact hnow.trans hold
    | leaves hth ho =>
        have hboth : some i = some j := (hg i task hi hth).symm.trans hold
        exact absurd (Option.some.inj hboth).symm hne
    | away ho hnow => exact hnow.trans hold
  · rw [h.spawned th hnew] at hin
    cases hin

theorem guarded_call {m : Machine} {task : Task} (hg : Guarded m) (htask : task.inside = false) :
    Guarded { m with tasks := m.tasks ++ [task] } := by
  intro i th hi hin
  rw [List.getElem?_append] at hi
  split_ifs at hi with hlt
  · exact hg i th hi hin
  · rw [List.mem_singleton.mp (List.mem_of_getElem? hi), htask] at hin
    cases hin

theorem guarded_step {m m' : Machine} {l : MachineLabel} (hg : Guarded m)
    (hs : m.step l = some m') : Guarded m' := by
  cases l with
  | packet skb dir => cases hs; exact hg
  | informer index => cases hs; exact hg
  | callUpdateStats => cases hs; exact guarded_call hg rfl
  | callGetStats => cases hs; exact guarded_call hg rfl
  | move i env =>
      obtain ⟨task, o, hi, ho, rfl⟩ := Machine.step_move_inv hs
      exact guarded_after hg hi (task_move_inv ho)

/-! ## The world that follows -/

/-- No loop over the kernel map is under way, and the world is where the machine is. -/
structure Level (m : Machine) (w : World) : Prop where
  rest : ∀ task ∈ m.tasks, task.midway = false
  maps : w.maps.Same m.maps
  metric : w.agent.metric = m.metric
  pending : w.agent.pending.Perm (m.tasks.flatMap Task.outstanding)

/-- The `i`-th task iterates, and the world waits where the iteration began; the packets `es` are
yet to come. -/
structure Behind (m : Machine) (w : World) (i : Nat) (it : Iteration) (start : FlowMaps)
    (es : List Pkt) : Prop where
  task : m.tasks[i]? = some (.updateStats (.iterating it))
  maps : w.maps.Same start
  due : it.due = start.v4FlowMap.table.keys
  since : flowStore.Interleaved start es (it.reports.map fun r => (.inl r.1, r.2)) m.maps
  scan : (scanFlows it.t it.reports ⟨w.agent.metric, [], []⟩).Same
    ⟨m.metric, it.toDeleteList, []⟩
  pending : w.agent.pending.Perm (m.tasks.flatMap Task.outstanding)

/-- The `i`-th task deletes, and the world waits where the first deletion was; `os` has happened to
the maps since, and its packets are yet to come. -/
structure Amid (m : Machine) (w : World) (i : Nat) (ev : Eviction) (past left : List InetV4Flow)
    (start : FlowMaps) (os : List MapOp) : Prop where
  task : m.tasks[i]? = some (.eviction ev (.deleting left))
  maps : w.maps.Same start
  since : m.maps = start.ops os
  parts : ev.toDeleteList = past ++ left
  listed : ∀ k, .delete k ∈ os → k ∈ ev.toDeleteList
  metric : m.metric = { w.agent.metric with
    baseMap := past.foldl PtrMap.erase w.agent.metric.baseMap }
  pending : w.agent.pending.Perm (m.tasks.flatMap Task.outstanding)

/-- The world follows the machine, but for the packets still to come. -/
inductive Follows (m : Machine) (w : World) : List Pkt → Prop
  | level (h : Level m w) : Follows m w []
  | behind (i : Nat) (it : Iteration) (start : FlowMaps) {es : List Pkt}
      (h : Behind m w i it start es) : Follows m w es
  | amid (i : Nat) (ev : Eviction) (past left : List InetV4Flow) (start : FlowMaps)
      (os : List MapOp) (h : Amid m w i ev past left start os) : Follows m w (opPackets os)

theorem level_init (index : Index) : Level (Machine.init index) (World.init index) where
  rest := by simp [Machine.init]
  maps := FlowMaps.same_equiv.refl _
  metric := rfl
  pending := List.Perm.refl _

/-! ## Steps of the world -/

@[simp] theorem packetsOf_packetLabels (pkts : List Pkt) : packetsOf (packetLabels pkts) = pkts := by
  induction pkts with
  | nil => rfl
  | cons p pkts ih => exact congrArg (p :: ·) ih

theorem maxEntries_foldl_deleteFlow (failing ks : List InetV4Flow)
    (m : BpfHash InetV4Flow FlowStats) :
    (ks.foldl (deleteFlow failing) m).maxEntries = m.maxEntries := by
  induction ks generalizing m with
  | nil => rfl
  | cons k ks ih =>
      refine (ih _).trans ?_
      unfold deleteFlow
      split_ifs <;> rfl

/-- The keys that no deletion removes are those whose deletion fails. -/
theorem same_foldl_deleteFlow {toDeleteList ks : List InetV4Flow}
    (h : ∀ k ∈ ks, k ∈ toDeleteList) (m : BpfHash InetV4Flow FlowStats) :
    (toDeleteList.foldl (deleteFlow (toDeleteList.filter (· ∉ ks))) m).Same (m.deleteElems ks) := by
  refine ⟨?_, funext fun k => ?_⟩
  · rw [BpfHash.maxEntries_deleteElems]
    exact maxEntries_foldl_deleteFlow ..
  · rw [val_foldl_deleteFlow, BpfHash.val_deleteElems]
    refine if_congr ?_ rfl rfl
    rw [List.mem_filter, not_and, decide_eq_true_eq, not_not]
    exact ⟨fun hk => hk.2 hk.1, fun hk => ⟨h k hk, fun _ => hk⟩⟩

/-- What the tasks have outstanding before and after a move, next to what the others have. -/
theorem exists_others {m : Machine} {i : Nat} {task : Task} (hi : m.tasks[i]? = some task)
    (o : Moved) :
    ∃ rest, (m.tasks.flatMap Task.outstanding).Perm (task.outstanding ++ rest) ∧
      ((m.after i o).tasks.flatMap Task.outstanding).Perm
        (o.task.outstanding ++ o.spawned.flatMap Task.outstanding ++ rest) := by
  obtain ⟨hlt, hget⟩ := List.getElem?_eq_some_iff.mp hi
  have hbefore : m.tasks.Perm (task :: m.tasks.eraseIdx i) := by
    rw [← hget]
    exact (List.getElem_cons_eraseIdx_perm hlt).symm
  have hafter : (m.tasks.set i o.task).Perm (o.task :: m.tasks.eraseIdx i) :=
    List.set_perm_cons_eraseIdx hlt o.task
  refine ⟨(m.tasks.eraseIdx i).flatMap Task.outstanding, hbefore.flatMap_right _, ?_⟩
  rw [Machine.after, List.flatMap_append]
  refine ((hafter.flatMap_right Task.outstanding).append_right _).trans ?_
  rw [List.flatMap_cons, List.append_assoc, List.append_assoc]
  exact List.Perm.append_left _ List.perm_append_comm

/-- A scan of the world does what the machine's does to the same tables. -/
theorem step_scan {w : World} {input : ScanInput} {s : Scan}
    (hreads : ReadsMap w.maps.v4FlowMap input.reports)
    (hscan : (scanFlows input.t input.reports ⟨w.agent.metric, [], []⟩).Same s)
    (horder : input.OrdersOf s.metric) :
    ∃ trace, w.step (.scan input) = some
      { w with
        agent :=
          { metric := (finishScan input s).1
            pending := w.agent.pending ++ [(finishScan input s).2]
            trace := trace } } := by
  have htrace : (w.agent.scanned input).Same
      (scanFlows input.t input.reports ⟨w.agent.metric, [], []⟩) :=
    @same_scanFlows ⟨w.agent.metric, [], w.agent.trace⟩ ⟨w.agent.metric, [], []⟩ ⟨rfl, rfl⟩
      input.t input.reports
  have hsame : (w.agent.scanned input).Same s :=
    ⟨htrace.1.trans hscan.1, htrace.2.trans hscan.2⟩
  have horder' : input.OrdersOf (w.agent.scanned input).metric := by
    rw [hsame.1]
    exact horder
  refine ⟨.scanned input.t :: (w.agent.scanned input).trace, ?_⟩
  simp only [World.step, AgentWorld.step]
  rw [if_pos hreads, if_pos horder', hsame.finishScan_eq]
  rfl

/-! ## The snapshot -/

/-- The keys of the readings are keys of the IPv4 map. -/
theorem map_fst_reports (reports : List (InetV4Flow × FlowStats)) :
    (reports.map fun r => ((.inl r.1 : FlowMapKey), r.2)).map Prod.fst
      = (reports.map Prod.fst).map .inl := by
  rw [List.map_map, List.map_map]
  rfl

/-- **What an iteration delivered is what the map held** once the packets went first that are of
flows still to be delivered. -/
theorem readsMap_snapshot {start : FlowMaps} {it : Iteration} {before : List Pkt}
    (hnodup : ((it.reports.map fun r => ((.inl r.1 : FlowMapKey), r.2)).map Prod.fst).Nodup)
    (hread : ∀ r ∈ it.reports.map fun r => ((.inl r.1 : FlowMapKey), r.2),
      flowStore.get (flowStore.acts start before) r.1 = some r.2)
    (hbefore : ∀ e ∈ before, ∃ key ∈
      (it.reports.map fun r => ((.inl r.1 : FlowMapKey), r.2)).map Prod.fst,
      flowStore.key e = some key)
    (hdue : start.v4FlowMap.table.keys ⊆ (it.reports.map Prod.fst).toFinset) :
    ReadsMap (flowStore.acts start before).v4FlowMap it.reports := by
  rw [map_fst_reports] at hnodup hbefore
  refine ⟨hnodup.of_map, fun r hr => hread (.inl r.1, r.2) (List.mem_map_of_mem hr), ?_⟩
  intro k hk
  -- what was not delivered was not there at first, and no packet that goes first put it there
  by_contra hnot
  have hkeep : (flowStore.acts start before).v4FlowMap.val k = start.v4FlowMap.val k := by
    refine flowStore.get_acts (k := .inl k) fun e he hek => hnot ?_
    obtain ⟨key, hkey, hek'⟩ := hbefore e he
    obtain ⟨k', hk', rfl⟩ := List.mem_map.mp hkey
    have heq : (Sum.inl k : FlowMapKey) = .inl k' := Option.some.inj (hek.symm.trans hek')
    rw [Sum.inl.inj heq]
    exact hk'
  rw [BpfHash.mem_keys, hkeep, ← BpfHash.mem_keys] at hk
  exact hnot (List.mem_toFinset.mp (hdue hk))

theorem readsMap_congr {v4 v4' : BpfHash InetV4Flow FlowStats} (h : v4.Same v4')
    {reports : List (InetV4Flow × FlowStats)} (hr : ReadsMap v4' reports) : ReadsMap v4 reports := by
  rw [ReadsMap, h.val, h.keys_eq]
  exact hr

/-- **The world catches up with a finished iteration**: some of the waiting packets, the scan, and
the others. -/
theorem Behind.catch_up {m : Machine} {w : World} {i : Nat} {it : Iteration} {start : FlowMaps}
    {es : List Pkt} (h : Behind m w i it start es) {env : Surroundings}
    (hdue : it.due ⊆ (it.reports.map Prod.fst).toFinset)
    (horder : (it.input env).OrdersOf m.metric) :
    ∃ ls w', run World.step w ls = some w' ∧ w'.maps.Same m.maps ∧
      w'.agent.metric = (finishScan (it.input env) ⟨m.metric, it.toDeleteList, []⟩).1 ∧
      w'.agent.pending = w.agent.pending
        ++ [(finishScan (it.input env) ⟨m.metric, it.toDeleteList, []⟩).2] ∧
      ∀ o, (packetsOf ls).filter (fun p => flowKey p.1 p.2 = o)
        = es.filter fun p => flowKey p.1 p.2 = o := by
  obtain ⟨before, after, hread, hbefore, hfilter, hsame⟩ := h.since.exists_snapshot
  have hmaps : (flowStore.acts w.maps before).Same (flowStore.acts start before) :=
    flowStore.acts_congr h.maps before
  have hreads : ReadsMap (flowStore.acts w.maps before).v4FlowMap it.reports :=
    readsMap_congr hmaps.v4 (readsMap_snapshot h.since.nodup hread hbefore (h.due ▸ hdue))
  obtain ⟨trace₁, hrun₁⟩ := run_packetLabels before w
  obtain ⟨trace₂, hstep⟩ := @step_scan
    { maps := flowStore.acts w.maps before, agent := { w.agent with trace := trace₁ } }
    (it.input env) _ hreads h.scan horder
  obtain ⟨trace₃, hrun₂⟩ := run_packetLabels after
    { maps := flowStore.acts w.maps before
      agent :=
        { metric := (finishScan (it.input env) ⟨m.metric, it.toDeleteList, []⟩).1
          pending := w.agent.pending
            ++ [(finishScan (it.input env) ⟨m.metric, it.toDeleteList, []⟩).2]
          trace := trace₂ } }
  refine ⟨packetLabels before ++ (.scan (it.input env) :: packetLabels after), _,
    (run_append hrun₁).trans ((run_cons hstep _).trans hrun₂), ?_, rfl, rfl, fun o => ?_⟩
  · exact flowStore.same_equiv.trans (flowStore.acts_congr hmaps after) hsame
  · have hpackets : packetsOf (packetLabels before ++ (.scan (it.input env) :: packetLabels after))
        = before ++ after := by
      rw [packetsOf_append, packetsOf_packetLabels]
      exact congrArg (before ++ ·) (packetsOf_packetLabels after)
    rw [hpackets]
    exact hfilter o

/-! ## The deletions -/

/-- **The world catches up with a finished loop of deletions**: some of the waiting packets, the
eviction, and the others. -/
theorem Amid.catch_up {m : Machine} {w : World} {i : Nat} {ev : Eviction} {past : List InetV4Flow}
    {start : FlowMaps} {os : List MapOp} (h : Amid m w i ev past [] start os) {n : Nat}
    (hn : w.agent.pending[n]? = some ev) :
    ∃ ls w', run World.step w ls = some w' ∧ w'.maps.Same m.maps ∧
      w'.agent.metric = evictAggregates ev m.metric ∧
      w'.agent.pending = w.agent.pending.eraseIdx n ∧
      ∀ o, (packetsOf ls).filter (fun p => flowKey p.1 p.2 = o)
        = (opPackets os).filter fun p => flowKey p.1 p.2 = o := by
  obtain ⟨before, after, ks, hks, hfilter, hsame⟩ := deletions_at_once start os
  let failing := ev.toDeleteList.filter (· ∉ ks)
  let v4FlowMap := ev.toDeleteList.foldl (deleteFlow failing) (readPackets before w.maps).v4FlowMap
  obtain ⟨trace₁, hrun₁⟩ := run_packetLabels before w
  have hstep : ∃ trace, World.step
      { maps := readPackets before w.maps, agent := { w.agent with trace := trace₁ } }
      (.evict n false failing) = some
        { maps := { readPackets before w.maps with v4FlowMap := v4FlowMap }
          agent :=
            { metric := evictEntries ev w.agent.metric
              pending := w.agent.pending.eraseIdx n
              trace := trace } } := by
    simp only [World.step, AgentWorld.step, hn]
    exact ⟨_, rfl⟩
  obtain ⟨trace₂, hstep⟩ := hstep
  obtain ⟨trace₃, hrun₂⟩ := run_packetLabels after
    { maps := { readPackets before w.maps with v4FlowMap := v4FlowMap }
      agent :=
        { metric := evictEntries ev w.agent.metric
          pending := w.agent.pending.eraseIdx n
          trace := trace₂ } }
  refine ⟨packetLabels before ++ (.evict n false failing :: packetLabels after), _,
    (run_append hrun₁).trans ((run_cons hstep _).trans hrun₂), ?_, ?_, rfl, fun o => ?_⟩
  · have hmaps : (readPackets before w.maps).Same (readPackets before start) :=
      flowStore.acts_congr h.maps before
    have hdeleted := BpfHash.same_equiv.trans
      (same_foldl_deleteFlow (fun k hk => h.listed k (hks k hk))
        (readPackets before w.maps).v4FlowMap)
      (BpfHash.same_deleteElems hmaps.v4 ks)
    have hmoment : FlowMaps.Same { readPackets before w.maps with v4FlowMap := v4FlowMap }
        { readPackets before start with
          v4FlowMap := (readPackets before start).v4FlowMap.deleteElems ks } :=
      ⟨hdeleted, hmaps.v6⟩
    rw [h.since]
    exact FlowMaps.same_equiv.trans (flowStore.acts_congr hmoment after)
      (FlowMaps.same_equiv.symm hsame)
  · have hpast : ev.toDeleteList = past := h.parts.trans (List.append_nil past)
    rw [h.metric]
    dsimp only
    rw [evictEntries, hpast]
    rfl
  · have hpackets : packetsOf (packetLabels before ++
        (.evict n false failing :: packetLabels after)) = before ++ after := by
      rw [packetsOf_append, packetsOf_packetLabels]
      exact congrArg (before ++ ·) (packetsOf_packetLabels after)
    rw [hpackets]
    exact hfilter o

/-- One more has happened to the maps. -/
theorem ops_concat (maps : FlowMaps) (os : List MapOp) (o : MapOp) :
    maps.ops (os ++ [o]) = (maps.ops os).op o := List.foldl_concat ..

theorem opPackets_append (os os' : List MapOp) :
    opPackets (os ++ os') = opPackets os ++ opPackets os' := List.filterMap_append

/-! ## Step by step -/

/-- The informers are quiet while a scan is under way. -/
def IndexesRest (m : Machine) : MachineLabel → Prop
  | .informer _ => ∀ task ∈ m.tasks, task.iterating = false
  | _ => True

instance (m : Machine) : DecidablePred (IndexesRest m) := fun l => by
  cases l <;> unfold IndexesRest <;> infer_instance

/-- The packet of a step. -/
def MachineLabel.packets : MachineLabel → List Pkt
  | .packet skb dir => [(skb, dir)]
  | _ => []

/-- What the world does for a step of the machine: it counts some packets, waiting or new, and
those it has not counted wait. -/
def Answers (w : World) (m' : Machine) (es new : List Pkt) : Prop :=
  ∃ ls w' es', run World.step w ls = some w' ∧ Follows m' w' es' ∧
    ∀ o, (packetsOf ls ++ es').filter (fun p => flowKey p.1 p.2 = o)
      = (es ++ new).filter fun p => flowKey p.1 p.2 = o

theorem answers_stay {w : World} {m' : Machine} {es : List Pkt} (h : Follows m' w es) :
    Answers w m' es [] :=
  ⟨[], w, es, rfl, h, fun o => by rw [List.append_nil]; rfl⟩

/-- A step of the world that counts no packet. -/
theorem answers_step {w w' : World} {m' : Machine} {l : Label} (hs : w.step l = some w')
    (hl : packetsOf [l] = []) (h : Follows m' w' []) : Answers w m' [] [] := by
  refine ⟨[l], w', [], run_cons hs [], h, fun o => ?_⟩
  rw [hl]

/-- A call that begins. -/
theorem follows_call {m : Machine} {w : World} {es : List Pkt} (h : Follows m w es) {task : Task}
    (hmid : task.midway = false) (hout : task.outstanding = []) :
    Follows { m with tasks := m.tasks ++ [task] } w es := by
  have hflat : (m.tasks ++ [task]).flatMap Task.outstanding
      = m.tasks.flatMap Task.outstanding := by
    rw [List.flatMap_append, List.flatMap_cons, hout]
    simp
  cases h with
  | level h =>
      refine .level ⟨fun th hth => ?_, h.maps, h.metric, hflat ▸ h.pending⟩
      rcases List.mem_append.mp hth with hth | hth
      · exact h.rest th hth
      · rw [List.mem_singleton.mp hth]
        exact hmid
  | behind i it start h =>
      refine .behind i it start ⟨?_, h.maps, h.due, h.since, h.scan, hflat ▸ h.pending⟩
      exact (List.getElem?_append_left (List.getElem?_eq_some_iff.mp h.task).1).trans h.task
  | amid i ev past left start os h =>
      refine .amid i ev past left start os
        ⟨?_, h.maps, h.since, h.parts, h.listed, h.metric, hflat ▸ h.pending⟩
      exact (List.getElem?_append_left (List.getElem?_eq_some_iff.mp h.task).1).trans h.task

/-- The tasks after a move of which none is in a loop. -/
theorem rest_after {env : Surroundings} {m : Machine} {i : Nat} {task : Task} {o : Moved}
    (hinv : MoveInv env m i task o) (ho : o.task.midway = false)
    (hothers : ∀ j th, j ≠ i → m.tasks[j]? = some th → th.midway = false) :
    ∀ th ∈ (m.after i o).tasks, th.midway = false := by
  intro th hth
  obtain ⟨j, hj⟩ := List.mem_iff_getElem?.mp hth
  rcases getElem?_after hj with ⟨-, rfl⟩ | ⟨hne, hj⟩ | hnew
  · exact ho
  · exact hothers j th hne hj
  · by_contra hit
    have hin := Task.inside_of_midway ((Bool.not_eq_false _).mp hit)
    rw [hinv.spawned th hnew] at hin
    cases hin

/-- While one task is inside, no other is in a loop. -/
theorem others_rest {m : Machine} {i : Nat} (hg : Guarded m) (hholder : m.holder = some i) :
    ∀ j th, j ≠ i → m.tasks[j]? = some th → th.midway = false := by
  intro j th hne hth
  by_contra hmid
  have hin := Task.inside_of_midway ((Bool.not_eq_false _).mp hmid)
  exact hne (Option.some.inj ((hg j th hth hin).symm.trans hholder))

/-- A task stays as it is while another moves. -/
theorem getElem?_after_of_ne {m : Machine} {i j : Nat} {task : Task} (hne : i ≠ j)
    (hj : m.tasks[j]? = some task) (o : Moved) : (m.after i o).tasks[j]? = some task := by
  have hlt : j < (m.tasks.set i o.task).length := by
    rw [List.length_set]
    exact (List.getElem?_eq_some_iff.mp hj).1
  rw [Machine.after, List.getElem?_append_left hlt, List.getElem?_set_ne hne]
  exact hj

/-- A task that has moved. -/
theorem getElem?_after_self {m : Machine} {i : Nat} {task : Task} (hi : m.tasks[i]? = some task)
    (o : Moved) : (m.after i o).tasks[i]? = some o.task := by
  have hlt := (List.getElem?_eq_some_iff.mp hi).1
  rw [Machine.after, List.getElem?_append_left (by rw [List.length_set]; exact hlt)]
  exact List.getElem?_set_self hlt

/-- **A move while no loop is under way.** -/
theorem level_move {m : Machine} {w : World} (h : Level m w) {env : Surroundings} {i : Nat}
    {task : Task} {o : Moved} (hi : m.tasks[i]? = some task) (hinv : MoveInv env m i task o) :
    Answers w (m.after i o) [] [] := by
  have hothers : ∀ j th, j ≠ i → m.tasks[j]? = some th → th.midway = false :=
    fun j th _ hj => h.rest th (List.mem_of_getElem? hj)
  have hmid := h.rest task (List.mem_of_getElem? hi)
  have hmoved := getElem?_after_self hi o
  obtain ⟨rest, hbefore, hafter⟩ := exists_others hi o
  have hpend := h.pending.trans hbefore
  cases hinv.effect with
  | quiet hmaps hm _ hmid' ho =>
      rw [ho] at hafter
      refine answers_stay (.level ⟨rest_after hinv hmid' hothers, ?_, h.metric.trans hm.symm,
        hpend.trans hafter.symm⟩)
      rw [Machine.after, hmaps]
      exact h.maps
  | begins hmaps hm hth hspawned ho =>
      rw [ho, hspawned] at hafter
      rw [hth] at hpend
      refine answers_stay (.behind i (iterate env.now m.maps) m.maps
        ⟨ho ▸ hmoved, h.maps, rfl, ?_, ?_, ?_⟩)
      · rw [Machine.after, hmaps]
        exact .nil _
      · exact ⟨h.metric.trans hm.symm, rfl⟩
      · exact hpend.trans hafter.symm
  | reads it key value hmaps hth hspawned hval hnew hm ho =>
      rw [hth] at hmid
      cases hmid
  | finishes it hmaps hth hspawned hdue horder hm ho =>
      rw [hth] at hmid
      cases hmid
  | opens ev hmaps hm hth hspawned ho =>
      rw [ho, hspawned] at hafter
      rw [hth] at hpend
      refine answers_stay (.amid i ev [] ev.toDeleteList m.maps []
        ⟨ho ▸ hmoved, h.maps, hmaps, rfl, ?_, hm.trans h.metric.symm, hpend.trans hafter.symm⟩)
      intro k hk
      cases hk
  | deletes ev toDelete left hmaps hm hth hspawned ho =>
      rw [hth] at hmid
      cases hmid
  | evicts ev hmaps hm hth hspawned ho =>
      rw [hth] at hmid
      cases hmid
  | givesUp ev hmaps hm hth hspawned ho =>
      rw [hth] at hpend
      rw [ho, hspawned] at hafter
      obtain ⟨n, hn, hrest⟩ := exists_pending hpend
      have hstep : w.step (.evict n true []) = some
          { w with agent := { w.agent with pending := w.agent.pending.eraseIdx n } } := by
        simp only [World.step, AgentWorld.step, hn]
        rfl
      refine answers_step hstep rfl (.level ⟨rest_after hinv (by rw [ho]; rfl) hothers, ?_, ?_, ?_⟩)
      · rw [Machine.after, hmaps]
        exact h.maps
      · exact h.metric.trans hm.symm
      · exact hrest.trans hafter.symm

/-- **A move while a scan is under way**: the scan goes on, or comes to its end, or another task
moves that has nothing to do with it. -/
theorem behind_move {m : Machine} {w : World} {j : Nat} {it : Iteration} {start : FlowMaps}
    {es : List Pkt} (h : Behind m w j it start es) (hg : Guarded m) {env : Surroundings} {i : Nat}
    {task : Task} {o : Moved} (hi : m.tasks[i]? = some task) (hinv : MoveInv env m i task o) :
    Answers w (m.after i o) es [] := by
  have hholder : m.holder = some j := hg j _ h.task rfl
  obtain ⟨rest, hbefore, hafter⟩ := exists_others hi o
  have hpend := h.pending.trans hbefore
  rcases eq_or_ne i j with rfl | hne
  · -- the scan moves
    have htask : task = .updateStats (.iterating it) := Option.some.inj (hi.symm.trans h.task)
    subst htask
    have hmoved := getElem?_after_self hi o
    cases hinv.effect with
    | quiet hmaps hm hmid hmid' ho => cases hmid
    | begins hmaps hm hth hspawned ho => cases hth
    | reads it' key value hmaps hth hspawned hval hnew hm ho =>
        cases hth
        rw [ho, hspawned] at hafter
        refine answers_stay (.behind i
          { it with
            reports := it.reports ++ [(key, value)]
            toDeleteList := (scanFlow it.t ⟨m.metric, it.toDeleteList, []⟩ key value).toDeleteList }
          start ⟨ho ▸ hmoved, h.maps, h.due, ?_, ?_, hpend.trans hafter.symm⟩)
        · rw [Machine.after, hmaps]
          dsimp only
          rw [List.map_append]
          refine h.since.concat_read hval fun hmem => hnew ?_
          rw [map_fst_reports] at hmem
          obtain ⟨k, hk, he⟩ := List.mem_map.mp hmem
          have hkey : k = key := Sum.inl.inj he
          exact hkey ▸ hk
        · have hstep := same_scanFlow h.scan it.t key value
          rw [Machine.after, hm]
          dsimp only
          rw [scanFlows, List.foldl_append]
          exact hstep
    | finishes it' hmaps hth hspawned hdue horder hm ho =>
        cases hth
        rw [ho, hspawned] at hafter
        obtain ⟨ls, w', hrun, hsame, hmetric, hpending, hfilter⟩ := h.catch_up hdue horder
        have hrest := rest_after hinv (by rw [ho]; rfl) (others_rest hg hholder)
        refine ⟨ls, w', [], hrun, .level ⟨hrest, ?_, hmetric.trans hm.symm, ?_⟩, fun k => ?_⟩
        · rw [Machine.after, hmaps]
          exact hsame
        · rw [hpending]
          exact ((hpend.append_right _).trans List.perm_append_comm).trans hafter.symm
        · rw [List.append_nil, List.append_nil]
          exact hfilter k
    | opens ev hmaps hm hth hspawned ho => cases hth
    | deletes ev toDelete left hmaps hm hth hspawned ho => cases hth
    | evicts ev hmaps hm hth hspawned ho => cases hth
    | givesUp ev hmaps hm hth hspawned ho => cases hth
  · -- another task moves, outside the critical section
    rcases hinv.effect.quiet_or_inside with ⟨hmaps, hm, hout⟩ | hin
    · rw [hout] at hafter
      refine answers_stay (.behind j it start ⟨getElem?_after_of_ne hne h.task o, h.maps, h.due,
        ?_, ?_, hpend.trans hafter.symm⟩)
      · rw [Machine.after, hmaps]
        exact h.since
      · rw [Machine.after, hm]
        exact h.scan
    · have hboth : some i = some j := (hg i task hi hin).symm.trans hholder
      exact absurd (Option.some.inj hboth) hne

/-- **A move while an eviction is under way**: it deletes the next key, or comes to its end, or
another task moves. -/
theorem amid_move {m : Machine} {w : World} {j : Nat} {ev : Eviction}
    {past left : List InetV4Flow} {start : FlowMaps} {os : List MapOp}
    (h : Amid m w j ev past left start os) (hg : Guarded m) {env : Surroundings} {i : Nat}
    {task : Task} {o : Moved} (hi : m.tasks[i]? = some task) (hinv : MoveInv env m i task o) :
    Answers w (m.after i o) (opPackets os) [] := by
  have hholder : m.holder = some j := hg j _ h.task rfl
  obtain ⟨rest, hbefore, hafter⟩ := exists_others hi o
  have hpend := h.pending.trans hbefore
  rcases eq_or_ne i j with rfl | hne
  · -- the eviction moves
    have htask : task = .eviction ev (.deleting left) := Option.some.inj (hi.symm.trans h.task)
    subst htask
    have hmoved := getElem?_after_self hi o
    cases hinv.effect with
    | quiet hmaps hm hmid hmid' ho => cases hmid
    | begins hmaps hm hth hspawned ho => cases hth
    | reads it key value hmaps hth hspawned hval hnew hm ho => cases hth
    | finishes it hmaps hth hspawned hdue horder hm ho => cases hth
    | opens ev' hmaps hm hth hspawned ho => cases hth
    | deletes ev' toDelete left' hmaps hm hth hspawned ho =>
        cases hth
        rw [ho, hspawned] at hafter
        have hparts : ev.toDeleteList = (past ++ [toDelete]) ++ left' := by
          rw [List.append_assoc]
          exact h.parts
        have hmetric : o.metric = { w.agent.metric with
            baseMap := (past ++ [toDelete]).foldl PtrMap.erase w.agent.metric.baseMap } := by
          rw [hm, h.metric, List.foldl_concat]
        by_cases herr : env.deleteErr = true
        · rw [if_pos herr] at hmaps
          exact answers_stay (.amid i ev (past ++ [toDelete]) left' start os
            ⟨ho ▸ hmoved, h.maps, hmaps.trans h.since, hparts, h.listed, hmetric,
              hpend.trans hafter.symm⟩)
        · rw [if_neg herr, h.since, ← ops_concat] at hmaps
          have hamid : Amid (m.after i o) w i ev (past ++ [toDelete]) left' start
              (os ++ [.delete toDelete]) := by
            refine ⟨ho ▸ hmoved, h.maps, hmaps, hparts, fun k hk => ?_, hmetric,
              hpend.trans hafter.symm⟩
            rcases List.mem_append.mp hk with hk | hk
            · exact h.listed k hk
            · cases List.mem_singleton.mp hk
              rw [h.parts]
              exact List.mem_append_right _ (List.mem_cons_self ..)
          have hpackets : opPackets (os ++ [.delete toDelete]) = opPackets os := by
            rw [opPackets_append]
            exact List.append_nil _
          rw [← hpackets]
          exact answers_stay (.amid i ev _ left' start _ hamid)
    | evicts ev' hmaps hm hth hspawned ho =>
        cases hth
        rw [ho, hspawned] at hafter
        obtain ⟨n, hn, hothers⟩ := exists_pending hpend
        obtain ⟨ls, w', hrun, hsame, hmetric, hpending, hfilter⟩ := h.catch_up hn
        have hrest := rest_after hinv (by rw [ho]; rfl) (others_rest hg hholder)
        refine ⟨ls, w', [], hrun, .level ⟨hrest, ?_, hmetric.trans hm.symm, ?_⟩, fun k => ?_⟩
        · rw [Machine.after, hmaps]
          exact hsame
        · rw [hpending]
          exact hothers.trans hafter.symm
        · rw [List.append_nil, List.append_nil]
          exact hfilter k
    | givesUp ev' hmaps hm hth hspawned ho => cases hth
  · -- another task moves, outside the critical section
    rcases hinv.effect.quiet_or_inside with ⟨hmaps, hm, hout⟩ | hin
    · rw [hout] at hafter
      exact answers_stay (.amid j ev past left start os ⟨getElem?_after_of_ne hne h.task o, h.maps,
        hmaps.trans h.since, h.parts, h.listed, hm.trans h.metric, hpend.trans hafter.symm⟩)
    · have hboth : some i = some j := (hg i task hi hin).symm.trans hholder
      exact absurd (Option.some.inj hboth) hne

/-- **The world answers every step.** -/
theorem follows_step {m m' : Machine} {w : World} {es : List Pkt} {l : MachineLabel}
    (hg : Guarded m) (h : Follows m w es) (hq : IndexesRest m l) (hs : m.step l = some m') :
    Answers w m' es l.packets := by
  cases l with
  | packet skb dir =>
      cases hs
      cases h with
      | level h =>
          obtain ⟨trace, hrun⟩ := run_packetLabels [(skb, dir)] w
          refine ⟨packetLabels [(skb, dir)], _, [], hrun, .level ⟨h.rest, ?_, h.metric,
            h.pending⟩, fun o => rfl⟩
          exact same_bpfFlowReader h.maps skb dir
      | behind i it start h =>
          refine ⟨[], w, es ++ [(skb, dir)], rfl, .behind i it start
            ⟨h.task, h.maps, h.due, h.since.concat_event (skb, dir), h.scan, h.pending⟩,
            fun o => rfl⟩
      | amid i ev past left start os h =>
          have hsince : bpfFlowReader skb dir m.maps = start.ops (os ++ [.event (skb, dir)]) := by
            rw [ops_concat, h.since]
            rfl
          refine ⟨[], w, opPackets (os ++ [.event (skb, dir)]), rfl, .amid i ev past left start _
            ⟨h.task, h.maps, hsince, h.parts, fun k hk => ?_, h.metric, h.pending⟩, fun o => ?_⟩
          · rcases List.mem_append.mp hk with hk | hk
            · exact h.listed k hk
            · cases List.mem_singleton.mp hk
          · rw [opPackets_append]
            rfl
  | informer index =>
      cases hs
      cases h with
      | level h =>
          refine answers_step (l := .informer index) rfl rfl (.level ⟨h.rest, h.maps, ?_, h.pending⟩)
          simp only [h.metric]
      | behind i it start h =>
          have hit := hq _ (List.mem_of_getElem? h.task)
          cases hit
      | amid i ev past left start os h =>
          let w' : World := { w with agent := { w.agent with metric := { w.agent.metric with
            agent := { index with gauges := w.agent.metric.agent.gauges } } } }
          refine ⟨[.informer index], w', opPackets os, rfl, .amid i ev past left start os
            ⟨h.task, h.maps, h.since, h.parts, h.listed, ?_, h.pending⟩, fun o => ?_⟩
          · simp only [h.metric, w']
          · have hnone : (MachineLabel.informer index).packets = [] := rfl
            rw [hnone, List.append_nil]
            rfl
  | callUpdateStats => cases hs; exact answers_stay (follows_call h rfl rfl)
  | callGetStats => cases hs; exact answers_stay (follows_call h rfl rfl)
  | move i env =>
      obtain ⟨task, o, hi, ho, rfl⟩ := Machine.step_move_inv hs
      cases h with
      | level h => exact level_move h hi (task_move_inv ho)
      | behind j it start h => exact behind_move h hg hi (task_move_inv ho)
      | amid j ev past left start os h => exact amid_move h hg hi (task_move_inv ho)

/-- The packets of a run of the machine. -/
def machinePackets (ms : List MachineLabel) : List Pkt := ms.flatMap MachineLabel.packets

/-- The world answers every run, counting the packets it has counted in a fitting order. -/
theorem follows_run {m m' : Machine} {w : World} {es : List Pkt} {ms : List MachineLabel}
    (hg : Guarded m) (h : Follows m w es) (hq : Along Machine.step IndexesRest m ms)
    (hr : run Machine.step m ms = some m') : Answers w m' es (machinePackets ms) := by
  induction ms generalizing m w es with
  | nil => rw [run_nil] at hr; exact Option.some.inj hr ▸ answers_stay h
  | cons l ms ih =>
      obtain ⟨m₁, hs, hr₁⟩ := run_cons_eq_some hr
      obtain ⟨hl, hq₁⟩ := (along_cons hs).mp hq
      obtain ⟨ls₁, w₁, es₁, hrun₁, h₁, hfilter₁⟩ := follows_step hg h hl hs
      obtain ⟨ls₂, w₂, es₂, hrun₂, h₂, hfilter₂⟩ := ih (guarded_step hg hs) h₁ hq₁ hr₁
      refine ⟨ls₁ ++ ls₂, w₂, es₂, (run_append hrun₁).trans hrun₂, h₂, fun o => ?_⟩
      have hpackets : machinePackets (l :: ms) = l.packets ++ machinePackets ms := rfl
      rw [packetsOf_append, List.append_assoc, List.filter_append, hfilter₂ o, List.filter_append,
        ← List.append_assoc, ← List.filter_append, hfilter₁ o, hpackets, ← List.filter_append,
        List.append_assoc]

/--
**Scans and evictions that run alongside the traffic are scans and evictions at one moment.**

Whatever the order in which packets arrive, calls begin and tasks move, whether or
not packets find room, and whichever deletions fail, as long as the informers
write no index during a scan: where no loop over the map is under way, maps,
tables and outstanding evictions are those of a run of `World`, in which every
scan reads the map at once and every eviction deletes from it at once. That run
counts the packets of the machine's, those of each flow, and those of no flow, in
the order they came in.
-/
theorem machine_refines_world (index : Index) (ms : List MachineLabel) (m : Machine)
    (hquiet : Along Machine.step IndexesRest (Machine.init index) ms)
    (hrun : run Machine.step (Machine.init index) ms = some m)
    (hrest : ∀ task ∈ m.tasks, task.midway = false) :
    ∃ ls w, run World.step (World.init index) ls = some w ∧ w.maps.Same m.maps ∧
      w.agent.metric = m.metric ∧
      w.agent.pending.Perm (m.tasks.flatMap Task.outstanding) ∧
      ∀ o, (packetsOf ls).filter (fun p => flowKey p.1 p.2 = o)
        = (machinePackets ms).filter fun p => flowKey p.1 p.2 = o := by
  obtain ⟨ls, w, es, hrunw, hfollows, hfilter⟩ :=
    follows_run (guarded_init index) (.level (level_init index)) hquiet hrun
  cases hfollows with
  | level h =>
      refine ⟨ls, w, hrunw, h.maps, h.metric, h.pending, fun o => ?_⟩
      have ho := hfilter o
      rw [List.append_nil, List.nil_append] at ho
      exact ho
  | behind i it start h =>
      have hmid := hrest _ (List.mem_of_getElem? h.task)
      cases hmid
  | amid i ev past left start os h =>
      have hmid := hrest _ (List.mem_of_getElem? h.task)
      cases hmid

/-- A DNS answer to one of two clients. -/
def answerTo (client : UInt8) : MachineLabel :=
  .packet (udpPacket [10, 96, 0, 10] [10, 244, 0, client] [0, 53, 0xc0, 0] 92) .ingress

def flowTo (client : UInt8) : InetV4Flow where
  srcIp := 0x0a00600a
  dstIp := 0xf40a + 0x1000000 * client.toUInt32
  l4 := { ipProto := 17, padding := .replicate 3 0, sport := 0x3500, dport := 0x00c0 }

/-- The `i`-th task moves; `mIter.Next` comes to this entry. -/
def moveNext (i : Nat) (next : Option InetV4Flow) : MachineLabel :=
  .move i ⟨false, 1, next, [], [], [], false⟩

/-- Both clients get an answer after the first one's entry is read and before the second one's
is: the scan sees the second answer only, and at no moment was that the whole truth. -/
def answersMeanwhile : List MachineLabel :=
  [answerTo 5, answerTo 6, .callUpdateStats, moveNext 0 none, moveNext 0 none,
    moveNext 0 (some (flowTo 5)), answerTo 5, answerTo 6, moveNext 0 (some (flowTo 6)),
    moveNext 0 none, moveNext 0 none, moveNext 0 none]

/-- The `i`-th task scans both entries, and nothing disturbs it. -/
def scanBoth (i : Nat) : List MachineLabel :=
  .callUpdateStats ::
    [none, none, some (flowTo 5), some (flowTo 6), none, none, none].map (moveNext i)

/-- After four of those the first client's entry goes, both get another answer, and the second
one's entry goes. -/
def answersAmid : List MachineLabel :=
  [moveNext 9 none, moveNext 9 none, moveNext 9 none, answerTo 5, answerTo 6, moveNext 9 none,
    moveNext 9 none]

def answersThroughout : List MachineLabel :=
  answersMeanwhile ++ [2, 4, 6, 8].flatMap scanBoth ++ answersAmid

theorem machine_refines_world_meanwhile :
    ∃ m ls w, run Machine.step (Machine.init Index.empty) answersThroughout = some m ∧
      m.maps.v4FlowMap.val (flowTo 5) = some ⟨92, 1, 0, 0⟩ ∧
      m.maps.v4FlowMap.val (flowTo 6) = none ∧
      run World.step (World.init Index.empty) ls = some w ∧ w.maps.Same m.maps ∧
      w.agent.metric = m.metric ∧
      w.agent.pending.Perm (m.tasks.flatMap Task.outstanding) ∧
      ∀ o, (packetsOf ls).filter (fun p => flowKey p.1 p.2 = o)
        = (machinePackets answersThroughout).filter fun p => flowKey p.1 p.2 = o := by
  have hfacts : (run Machine.step (Machine.init Index.empty) answersThroughout).map (fun m =>
      (m.maps.v4FlowMap.val (flowTo 5), m.maps.v4FlowMap.val (flowTo 6),
        decide (∀ task ∈ m.tasks, task.midway = false)))
      = some (some ⟨92, 1, 0, 0⟩, none, true) := by decide +kernel
  obtain ⟨m, hm, hfacts⟩ := Option.map_eq_some_iff.mp hfacts
  obtain ⟨hfive, hfacts⟩ := Prod.mk.inj hfacts
  obtain ⟨hsix, hrest⟩ := Prod.mk.inj hfacts
  obtain ⟨ls, w, hw⟩ := machine_refines_world Index.empty answersThroughout m (by decide +kernel) hm
    (of_decide_eq_true hrest)
  exact ⟨m, ls, w, hm, hfive, hsix, hw⟩

end Kubpf
