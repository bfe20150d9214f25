import Kubpf.Agent.Runs

/-!
# Who holds the lock

`stateMutex` guards the tables. `UpdateStats` takes and releases it by hand, the
goroutine it starts and `GetStats` release it by `defer`. Here each call is a
thread that goes through its lock operations one at a time, next to any number of
others, and every `LoadPinnedMap` may fail.

A thread is inside from its `Lock` to its `Unlock`, and the mutex is held exactly
by the thread that is inside (`Exclusive`). Every move keeps this but one: when
the map cannot be opened, `UpdateStats` returns from inside. From then on the
mutex is held by a call that is over, and nobody ever takes it again.
-/

namespace Kubpf.Agent

open Lib

/-! ## Threads -/

inductive UpdatePc where
  | start
  /-- Past `Lock`: the map is opened next. -/
  | locked
  | opened
  /-- The lists are complete: `Unlock` is next. -/
  | scanned (ev : Eviction)
  /-- The goroutine is started next. -/
  | unlocked (ev : Eviction)
  | returned
  deriving DecidableEq, Repr

inductive EvictPc where
  | start
  | locked
  | opened
  /-- Returning: the deferred calls are next. -/
  | returning
  | returned
  deriving DecidableEq, Repr

inductive GetPc where
  | start
  | locked
  | returned
  deriving DecidableEq, Repr

inductive Thread where
  | updateStats (pc : UpdatePc)
  | eviction (ev : Eviction) (pc : EvictPc)
  | getStats (pc : GetPc)
  deriving DecidableEq, Repr

/-- The mutex is taken and not yet given back. -/
def Thread.inside : Thread → Bool
  | .updateStats .locked | .updateStats .opened | .updateStats (.scanned _) => true
  | .eviction _ .locked | .eviction _ .opened | .eviction _ .returning => true
  | .getStats .locked => true
  | _ => false

/-- The call has returned. -/
def Thread.returned : Thread → Bool
  | .updateStats .returned | .eviction _ .returned | .getStats .returned => true
  | _ => false

structure LockWorld where
  metric : InetV4FlowMetricsEntry
  /-- The thread that holds `stateMutex`. -/
  holder : Option Nat
  threads : List Thread

def LockWorld.init (index : Index) : LockWorld where
  metric := newInetV4FlowMetricsEntry { index with gauges := ∅ }
  holder := none
  threads := []

/-- What a thread finds when it moves: whether `LoadPinnedMap` fails, and what the map holds. -/
structure Env where
  openErr : Bool
  input : ScanInput

/-- What a move leaves. -/
structure Outcome where
  thread : Thread
  metric : InetV4FlowMetricsEntry
  holder : Option Nat
  spawned : List Thread

/-- `stateMutex.Lock()`, which waits while the mutex is held. -/
def takeLock (i : Nat) (holder : Option Nat) (metric : InetV4FlowMetricsEntry) (next : Thread) :
    Option Outcome :=
  match holder with
  | none => some { thread := next, metric := metric, holder := some i, spawned := [] }
  | some _ => none

/-- The next move of the `i`-th thread. -/
def Thread.move (env : Env) (metric : InetV4FlowMetricsEntry) (holder : Option Nat) (i : Nat) :
    Thread → Option Outcome
  | .updateStats .start => takeLock i holder metric (.updateStats .locked)
  | .updateStats .locked =>
    if env.openErr then
      -- `metric.agent.log.Error(err); return`, and no `Unlock`
      some { thread := .updateStats .returned, metric, holder, spawned := [] }
    else some { thread := .updateStats .opened, metric, holder, spawned := [] }
  | .updateStats .opened =>
    let s := scanFlows env.input.t env.input.reports { metric, toDeleteList := [], trace := [] }
    if env.input.OrdersOf s.metric then
      some
        { thread := .updateStats (.scanned (finishScan env.input s).2)
          metric := (finishScan env.input s).1
          holder, spawned := [] }
    else none
  | .updateStats (.scanned ev) =>
    some { thread := .updateStats (.unlocked ev), metric, holder := none, spawned := [] }
  | .updateStats (.unlocked ev) =>
    some { thread := .updateStats .returned, metric, holder, spawned := [.eviction ev .start] }
  | .updateStats .returned => none
  | .eviction ev .start => takeLock i holder metric (.eviction ev .locked)
  | .eviction ev .locked =>
    if env.openErr then some { thread := .eviction ev .returning, metric, holder, spawned := [] }
    else some { thread := .eviction ev .opened, metric, holder, spawned := [] }
  | .eviction ev .opened =>
    some { thread := .eviction ev .returning, metric := evictEntries ev metric, holder,
           spawned := [] }
  | .eviction ev .returning =>
    -- the deferred `m2.Close()`, harmless on a map that was not opened, and `Unlock()`
    some { thread := .eviction ev .returned, metric, holder := none, spawned := [] }
  | .eviction _ .returned => none
  | .getStats .start => takeLock i holder metric (.getStats .locked)
  | .getStats .locked =>
    some { thread := .getStats .returned, metric, holder := none, spawned := [] }
  | .getStats .returned => none

inductive LockLabel where
  /-- The ticker fires. -/
  | callUpdateStats
  | callGetStats
  /-- The `i`-th thread makes its next move. -/
  | move (i : Nat) (env : Env)

/-- The world after the `i`-th thread's move. -/
def LockWorld.after (w : LockWorld) (i : Nat) (o : Outcome) : LockWorld where
  metric := o.metric
  holder := o.holder
  threads := w.threads.set i o.thread ++ o.spawned

def LockWorld.step (w : LockWorld) : LockLabel → Option LockWorld
  | .callUpdateStats => some { w with threads := w.threads ++ [.updateStats .start] }
  | .callGetStats => some { w with threads := w.threads ++ [.getStats .start] }
  | .move i env =>
    match w.threads[i]? with
    | none => none
    | some th => (th.move env w.metric w.holder i).map (w.after i)

/-- A move, taken apart. -/
theorem LockWorld.step_move_inv {w w' : LockWorld} {i : Nat} {env : Env}
    (h : w.step (.move i env) = some w') :
    ∃ th o, w.threads[i]? = some th ∧ th.move env w.metric w.holder i = some o ∧
      w' = w.after i o := by
  rw [LockWorld.step] at h
  cases hi : w.threads[i]? with
  | none => rw [hi] at h; cases h
  | some th =>
      rw [hi] at h
      obtain ⟨o, ho, hw⟩ := Option.map_eq_some_iff.mp h
      exact ⟨th, o, rfl, ho, hw.symm⟩

/-! ## What a move does to the lock -/

/-- A call that has not begun. -/
def Thread.Outside (th : Thread) : Prop := th.inside = false ∧ th.returned = false

/-- How a move crosses the critical section. -/
inductive Crossing (env : Env) (holder : Option Nat) (i : Nat) (th : Thread) (o : Outcome) : Prop
  | enters (hth : th.inside = false) (ho : o.thread.inside = true) (hfree : holder = none)
      (hnow : o.holder = some i)
  | stays (hth : th.inside = true) (ho : o.thread.inside = true) (hnow : o.holder = holder)
  | leaves (hth : th.inside = true) (ho : o.thread.inside = false) (hnow : o.holder = none)
  | away (hth : th.inside = false) (ho : o.thread.inside = false) (hnow : o.holder = holder)
  /-- `UpdateStats` returns from inside. -/
  | leaks (hth : th = .updateStats .locked) (ho : o.thread = .updateStats .returned)
      (herr : env.openErr = true) (hnow : o.holder = holder)

theorem takeLock_crossing {env : Env} {metric : InetV4FlowMetricsEntry} {holder : Option Nat}
    {i : Nat} (th : Thread) {next : Thread} {o : Outcome} (h : takeLock i holder metric next = some o)
    (hth : th.inside = false) (hnext : next.inside = true) :
    Crossing env holder i th o ∧ o.spawned = [] := by
  cases holder with
  | none => cases h; exact ⟨.enters hth hnext rfl rfl, rfl⟩
  | some j => cases h

/-- **Every move crosses in one of the five ways**, and starts only threads that are outside. -/
theorem move_crossing {env : Env} {metric : InetV4FlowMetricsEntry} {holder : Option Nat}
    {i : Nat} {th : Thread} {o : Outcome} (h : th.move env metric holder i = some o) :
    Crossing env holder i th o ∧ ∀ new ∈ o.spawned, new.Outside := by
  have hnil : ∀ {l : List Thread}, l = [] → ∀ new ∈ l, new.Outside := by
    rintro l rfl new hnew
    exact absurd hnew List.not_mem_nil
  cases th with
  | updateStats pc =>
      cases pc with
      | start =>
          obtain ⟨hc, hs⟩ := takeLock_crossing (.updateStats .start) h rfl rfl
          exact ⟨hc, hnil hs⟩
      | locked =>
          rw [Thread.move] at h
          split_ifs at h with herr
          · cases h; exact ⟨.leaks rfl rfl herr rfl, hnil rfl⟩
          · cases h; exact ⟨.stays rfl rfl rfl, hnil rfl⟩
      | opened =>
          simp only [Thread.move] at h
          split_ifs at h with horder
          cases h
          exact ⟨.stays rfl rfl rfl, hnil rfl⟩
      | scanned ev => cases h; exact ⟨.leaves rfl rfl rfl, hnil rfl⟩
      | unlocked ev =>
          cases h
          refine ⟨.away rfl rfl rfl, fun new hnew => ?_⟩
          rw [List.mem_singleton.mp hnew]
          exact ⟨rfl, rfl⟩
      | returned => cases h
  | eviction ev pc =>
      cases pc with
      | start =>
          obtain ⟨hc, hs⟩ := takeLock_crossing (.eviction ev .start) h rfl rfl
          exact ⟨hc, hnil hs⟩
      | locked =>
          rw [Thread.move] at h
          split_ifs at h with herr
          · cases h; exact ⟨.stays rfl rfl rfl, hnil rfl⟩
          · cases h; exact ⟨.stays rfl rfl rfl, hnil rfl⟩
      | opened => cases h; exact ⟨.stays rfl rfl rfl, hnil rfl⟩
      | returning => cases h; exact ⟨.leaves rfl rfl rfl, hnil rfl⟩
      | returned => cases h
  | getStats pc =>
      cases pc with
      | start =>
          obtain ⟨hc, hs⟩ := takeLock_crossing (.getStats .start) h rfl rfl
          exact ⟨hc, hnil hs⟩
      | locked => cases h; exact ⟨.leaves rfl rfl rfl, hnil rfl⟩
      | returned => cases h

/-! ## The mutex is held by the thread inside -/

/-- The holder is the one thread that is inside. -/
def Exclusive (w : LockWorld) : Prop :=
  ∀ i, w.holder = some i ↔ ∃ th, w.threads[i]? = some th ∧ th.inside = true

/-- No call that has returned holds the mutex. -/
def Released (w : LockWorld) : Prop :=
  ∀ (i : Nat) (th : Thread), w.threads[i]? = some th → th.returned = true → w.holder ≠ some i

theorem not_inside_of_returned {th : Thread} (h : th.returned = true) : th.inside = false := by
  cases th with
  | updateStats pc => cases pc <;> first | rfl | cases h
  | eviction ev pc => cases pc <;> first | rfl | cases h
  | getStats pc => cases pc <;> first | rfl | cases h

theorem Exclusive.released {w : LockWorld} (h : Exclusive w) : Released w := by
  intro i th hi hret hold
  obtain ⟨th', hi', hin⟩ := (h i).mp hold
  have he : th' = th := Option.some.inj (hi'.symm.trans hi)
  rw [he, not_inside_of_returned hret] at hin
  exact Bool.false_ne_true hin

theorem exclusive_init (index : Index) : Exclusive (LockWorld.init index) := by
  intro i
  constructor
  · intro h
    exact absurd h (by simp [LockWorld.init])
  · rintro ⟨th, h, -⟩
    exact absurd h (by simp [LockWorld.init])

/-- Threads that start outside do not matter. -/
theorem exclusive_append {w : LockWorld} (h : Exclusive w) {new : List Thread}
    (hnew : ∀ th ∈ new, th.inside = false) :
    Exclusive { w with threads := w.threads ++ new } := by
  intro i
  rw [h i]
  constructor
  · rintro ⟨th, hi, hin⟩
    exact ⟨th, (List.getElem?_append_left (List.getElem?_eq_some_iff.mp hi).1).trans hi, hin⟩
  · rintro ⟨th, hi, hin⟩
    by_cases hlt : i < w.threads.length
    · rw [List.getElem?_append_left hlt] at hi
      exact ⟨th, hi, hin⟩
    · rw [List.getElem?_append_right (Nat.not_lt.mp hlt)] at hi
      rw [hnew th (List.mem_of_getElem? hi)] at hin
      exact absurd hin Bool.false_ne_true

/-- The thread that moved is where the move left it. -/
theorem getElem?_after_self {w : LockWorld} {i : Nat} {th : Thread}
    (hi : w.threads[i]? = some th) (o : Outcome) : (w.after i o).threads[i]? = some o.thread := by
  have hlt : i < w.threads.length := (List.getElem?_eq_some_iff.mp hi).1
  rw [LockWorld.after, List.getElem?_append_left (by rw [List.length_set]; exact hlt),
    List.getElem?_set_self hlt]

/-- **A move that does not leak keeps the mutex with the thread inside.** -/
theorem exclusive_set {w : LockWorld} (h : Exclusive w) {i : Nat} {th : Thread} {o : Outcome}
    {env : Env} (hi : w.threads[i]? = some th) (hc : Crossing env w.holder i th o)
    (hok : ¬ (th = .updateStats .locked ∧ env.openErr = true)) :
    Exclusive { metric := o.metric, holder := o.holder, threads := w.threads.set i o.thread } := by
  have hlt : i < w.threads.length := (List.getElem?_eq_some_iff.mp hi).1
  have hself : (w.threads.set i o.thread)[i]? = some o.thread := List.getElem?_set_self hlt
  have hother : ∀ j, j ≠ i → (w.threads.set i o.thread)[j]? = w.threads[j]? :=
    fun j hj => List.getElem?_set_ne (Ne.symm hj)
  intro j
  dsimp only
  by_cases hj : j = i
  · -- the thread that moved
    subst hj
    have hold := h j
    cases hc with
    | enters hth ho hfree hnow =>
        exact ⟨fun _ => ⟨o.thread, hself, ho⟩, fun _ => hnow⟩
    | stays hth ho hnow =>
        exact ⟨fun _ => ⟨o.thread, hself, ho⟩, fun _ => hnow.trans (hold.mpr ⟨th, hi, hth⟩)⟩
    | leaves hth ho hnow =>
        refine ⟨fun hs => absurd (hnow.symm.trans hs) (by simp), ?_⟩
        rintro ⟨th', hth', hin⟩
        rw [Option.some.inj (hth'.symm.trans hself), ho] at hin
        exact absurd hin Bool.false_ne_true
    | away hth ho hnow =>
        refine ⟨fun hs => ?_, ?_⟩
        · obtain ⟨th', hth', hin⟩ := hold.mp (hnow.symm.trans hs)
          rw [Option.some.inj (hth'.symm.trans hi), hth] at hin
          exact absurd hin Bool.false_ne_true
        · rintro ⟨th', hth', hin⟩
          rw [Option.some.inj (hth'.symm.trans hself), ho] at hin
          exact absurd hin Bool.false_ne_true
    | leaks hth ho herr hnow => exact absurd ⟨hth, herr⟩ hok
  · -- the others have not moved, and the mutex has not become theirs
    rw [hother j hj, ← h j]
    cases hc with
    | enters hth ho hfree hnow =>
        rw [hnow, hfree]
        exact ⟨fun hs => absurd (Option.some.inj hs).symm hj, fun hs => absurd hs (by simp)⟩
    | stays hth ho hnow => rw [hnow]
    | leaves hth ho hnow =>
        have hmine : w.holder = some i := (h i).mpr ⟨th, hi, hth⟩
        rw [hnow, hmine]
        exact ⟨fun hs => absurd hs (by simp), fun hs => absurd (Option.some.inj hs).symm hj⟩
    | away hth ho hnow => rw [hnow]
    | leaks hth ho herr hnow => exact absurd ⟨hth, herr⟩ hok

/-- No scan's open fails in this step. -/
def ScansOpen (w : LockWorld) : LockLabel → Prop
  | .move i env => ¬ (w.threads[i]? = some (.updateStats .locked) ∧ env.openErr = true)
  | _ => True

instance (w : LockWorld) : ∀ l, Decidable (ScansOpen w l)
  | .move i env => inferInstanceAs
      (Decidable (¬ (w.threads[i]? = some (.updateStats .locked) ∧ env.openErr = true)))
  | .callUpdateStats => .isTrue trivial
  | .callGetStats => .isTrue trivial

theorem exclusive_step {w w' : LockWorld} {l : LockLabel} (h : Exclusive w) (hP : ScansOpen w l)
    (hs : w.step l = some w') : Exclusive w' := by
  cases l with
  | callUpdateStats =>
      cases hs
      refine exclusive_append h (fun th hth => ?_)
      rw [List.mem_singleton.mp hth]
      rfl
  | callGetStats =>
      cases hs
      refine exclusive_append h (fun th hth => ?_)
      rw [List.mem_singleton.mp hth]
      rfl
  | move i env =>
      obtain ⟨th, o, hi, ho, rfl⟩ := LockWorld.step_move_inv hs
      obtain ⟨hc, hspawn⟩ := move_crossing ho
      refine exclusive_append (exclusive_set h hi hc ?_) (fun new hnew => (hspawn new hnew).1)
      rintro ⟨rfl, herr⟩
      exact hP ⟨hi, herr⟩

/-! ## The thread inside can leave -/

/-- Some moves from here on free the mutex, none of them a scan whose open fails. -/
def CanRelease (w : LockWorld) : Prop :=
  ∃ ls w', run LockWorld.step w ls = some w' ∧ w'.holder = none ∧
    Along LockWorld.step ScansOpen w ls

theorem step_move {w : LockWorld} {i : Nat} {th : Thread} (env : Env) {o : Outcome}
    (hi : w.threads[i]? = some th) (ho : th.move env w.metric w.holder i = some o) :
    w.step (.move i env) = some (w.after i o) := by
  rw [LockWorld.step, hi]
  dsimp only
  rw [ho]
  rfl

/-- One harmless move first. -/
theorem CanRelease.of_step {w w' : LockWorld} {l : LockLabel} (hs : w.step l = some w')
    (hP : ScansOpen w l) (h : CanRelease w') : CanRelease w := by
  obtain ⟨ls, w'', hrun, hfree, halong⟩ := h
  exact ⟨l :: ls, w'', (run_cons hs ls).trans hrun, hfree, (along_cons hs).mpr ⟨hP, halong⟩⟩

theorem canRelease_of_free {w : LockWorld} (h : w.holder = none) : CanRelease w :=
  ⟨[], w, rfl, h, trivial⟩

/-- An environment in which maps open and hold nothing. -/
def quietEnv (input : ScanInput) : Env := { openErr := false, input := { input with reports := [] } }

theorem scansOpen_quiet (w : LockWorld) (i : Nat) (input : ScanInput) :
    ScansOpen w (.move i (quietEnv input)) := fun h => Bool.false_ne_true h.2

/-- Every set of keys can be walked in some order. -/
theorem exists_orders (metric : InetV4FlowMetricsEntry) :
    ∃ input : ScanInput, input.reports = [] ∧ input.OrdersOf metric := by
  have hwalk : ∀ m : PtrMap PodStatsKey FlowStatsEntry, Enumerates m.keys.toList m :=
    fun m => ⟨Finset.nodup_toList _, Finset.toList_toFinset _⟩
  exact ⟨{ t := 0, reports := [], podOrder := _, svcOrder := _, knownOrder := _ }, rfl,
    hwalk metric.podStatsMap, hwalk metric.svcStatsMap, hwalk metric.knownStatsMap⟩

/-- A move that ends in the mutex being free. -/
theorem canRelease_of_last {w : LockWorld} {i : Nat} {th : Thread} {o : Outcome}
    (input : ScanInput) (hi : w.threads[i]? = some th)
    (ho : th.move (quietEnv input) w.metric w.holder i = some o) (hfree : o.holder = none) :
    CanRelease w :=
  .of_step (step_move _ hi ho) (scansOpen_quiet w i input) (canRelease_of_free hfree)

theorem canRelease_scanned {w : LockWorld} {i : Nat} {ev : Eviction}
    (hi : w.threads[i]? = some (.updateStats (.scanned ev))) : CanRelease w := by
  obtain ⟨input, -, -⟩ := exists_orders w.metric
  exact canRelease_of_last input hi rfl rfl

theorem canRelease_opened {w : LockWorld} {i : Nat}
    (hi : w.threads[i]? = some (.updateStats .opened)) : CanRelease w := by
  obtain ⟨input, hnil, horder⟩ := exists_orders w.metric
  have hinput : (quietEnv input).input = input := by
    cases input
    dsimp only at hnil
    subst hnil
    rfl
  have hscan : scanFlows input.t input.reports ⟨w.metric, [], []⟩ = ⟨w.metric, [], []⟩ := by
    rw [hnil]
    rfl
  have ho : Thread.move (quietEnv input) w.metric w.holder i (.updateStats .opened)
      = some ⟨.updateStats (.scanned (finishScan input ⟨w.metric, [], []⟩).2),
          (finishScan input ⟨w.metric, [], []⟩).1, w.holder, []⟩ := by
    simp only [Thread.move]
    rw [hinput, hscan, if_pos horder]
  exact .of_step (step_move _ hi ho) (scansOpen_quiet w i input)
    (canRelease_scanned (getElem?_after_self hi _))

theorem canRelease_locked {w : LockWorld} {i : Nat}
    (hi : w.threads[i]? = some (.updateStats .locked)) : CanRelease w := by
  obtain ⟨input, -, -⟩ := exists_orders w.metric
  exact .of_step (step_move (quietEnv input) hi rfl) (scansOpen_quiet w i input)
    (canRelease_opened (getElem?_after_self hi _))

theorem canRelease_returning {w : LockWorld} {i : Nat} {ev : Eviction}
    (hi : w.threads[i]? = some (.eviction ev .returning)) : CanRelease w := by
  obtain ⟨input, -, -⟩ := exists_orders w.metric
  exact canRelease_of_last input hi rfl rfl

theorem canRelease_evicting {w : LockWorld} {i : Nat} {ev : Eviction}
    (hi : w.threads[i]? = some (.eviction ev .opened)) : CanRelease w := by
  obtain ⟨input, -, -⟩ := exists_orders w.metric
  exact .of_step (step_move (quietEnv input) hi rfl) (scansOpen_quiet w i input)
    (canRelease_returning (getElem?_after_self hi _))

/-- **Whoever is inside can get out.** -/
theorem Exclusive.canRelease {w : LockWorld} (h : Exclusive w) : CanRelease w := by
  cases hold : w.holder with
  | none => exact canRelease_of_free hold
  | some i =>
      obtain ⟨th, hi, hin⟩ := (h i).mp hold
      obtain ⟨input, -, -⟩ := exists_orders w.metric
      cases th with
      | updateStats pc =>
          cases pc with
          | locked => exact canRelease_locked hi
          | opened => exact canRelease_opened hi
          | scanned ev => exact canRelease_scanned hi
          | start => cases hin
          | unlocked ev => cases hin
          | returned => cases hin
      | eviction ev pc =>
          cases pc with
          | locked =>
              exact .of_step (step_move (quietEnv input) hi rfl) (scansOpen_quiet w i input)
                (canRelease_evicting (getElem?_after_self hi _))
          | opened => exact canRelease_evicting hi
          | returning => exact canRelease_returning hi
          | start => cases hin
          | returned => cases hin
      | getStats pc =>
          cases pc with
          | locked => exact canRelease_of_last input hi rfl rfl
          | start => cases hin
          | returned => cases hin

/-! ## A scan whose open fails -/

/-- The step is a scan finding that the map cannot be opened. -/
def ScanFailsToOpen (w : LockWorld) : LockLabel → Prop
  | .move i env => w.threads[i]? = some (.updateStats .locked) ∧ env.openErr = true
  | _ => False

theorem move_of_returned {env : Env} {metric : InetV4FlowMetricsEntry} {holder : Option Nat}
    {i : Nat} {th : Thread} (h : th.returned = true) : th.move env metric holder i = none := by
  cases th with
  | updateStats pc => cases pc <;> first | rfl | cases h
  | eviction ev pc => cases pc <;> first | rfl | cases h
  | getStats pc => cases pc <;> first | rfl | cases h

/-- A returned call holds the mutex, and nobody is inside. -/
def Leaked (i : Nat) (w : LockWorld) : Prop :=
  w.holder = some i ∧ (∃ th, w.threads[i]? = some th ∧ th.returned = true) ∧
    ∀ th ∈ w.threads, th.inside = false

/-- The failed scan leaves the tables as they were. -/
theorem metric_of_scanFailsToOpen {w w' : LockWorld} {l : LockLabel} (h : ScanFailsToOpen w l)
    (hs : w.step l = some w') : w'.metric = w.metric := by
  cases l with
  | move i env =>
      obtain ⟨hi, herr⟩ := h
      rw [LockWorld.step, hi] at hs
      dsimp only [Thread.move] at hs
      rw [if_pos herr] at hs
      cases hs
      rfl
  | callUpdateStats => exact h.elim
  | callGetStats => exact h.elim

/-- **It leaves the mutex with a call that is over.** -/
theorem leaked_of_scanFailsToOpen {w w' : LockWorld} {i : Nat} {env : Env} (h : Exclusive w)
    (hfail : ScanFailsToOpen w (.move i env)) (hs : w.step (.move i env) = some w') :
    Leaked i w' := by
  obtain ⟨hi, herr⟩ := hfail
  have hold : w.holder = some i := (h i).mpr ⟨_, hi, rfl⟩
  rw [LockWorld.step, hi] at hs
  dsimp only [Thread.move] at hs
  rw [if_pos herr] at hs
  cases hs
  refine ⟨hold, ⟨.updateStats .returned, getElem?_after_self hi _, rfl⟩, ?_⟩
  intro th hth
  rw [LockWorld.after, List.append_nil] at hth
  obtain ⟨j, hj⟩ := List.mem_iff_getElem?.mp hth
  by_cases hji : j = i
  · subst hji
    rw [List.getElem?_set_self (List.getElem?_eq_some_iff.mp hi).1] at hj
    rw [← Option.some.inj hj]
    rfl
  · -- anyone else inside would be a second holder
    rw [List.getElem?_set_ne (Ne.symm hji)] at hj
    by_contra hin
    rw [Bool.not_eq_false] at hin
    exact hji (Option.some.inj (((h j).mpr ⟨th, hj, hin⟩).symm.trans hold))

theorem leaked_step {i : Nat} {w w' : LockWorld} {l : LockLabel} (h : Leaked i w)
    (hs : w.step l = some w') : Leaked i w' := by
  obtain ⟨hold, ⟨th, hi, hret⟩, hout⟩ := h
  have happend : ∀ new : List Thread, (∀ th ∈ new, th.inside = false) →
      Leaked i { w with threads := w.threads ++ new } := by
    intro new hnew
    refine ⟨hold, ⟨th, ?_, hret⟩, ?_⟩
    · exact (List.getElem?_append_left (List.getElem?_eq_some_iff.mp hi).1).trans hi
    · intro th' hth'
      rcases List.mem_append.mp hth' with hmem | hmem
      · exact hout th' hmem
      · exact hnew th' hmem
  cases l with
  | callUpdateStats =>
      cases hs
      refine happend _ (fun th hth => ?_)
      rw [List.mem_singleton.mp hth]
      rfl
  | callGetStats =>
      cases hs
      refine happend _ (fun th hth => ?_)
      rw [List.mem_singleton.mp hth]
      rfl
  | move j env =>
      obtain ⟨thj, o, hj, ho, rfl⟩ := LockWorld.step_move_inv hs
      obtain ⟨hc, hspawn⟩ := move_crossing ho
      have houtj : thj.inside = false := hout thj (List.mem_of_getElem? hj)
      -- with the mutex held and nobody inside, the only moves left stay away from it
      cases hc with
      | enters _ _ hfree _ => exact absurd (hold.symm.trans hfree) (by simp)
      | stays hth _ _ => exact absurd (houtj.symm.trans hth) Bool.false_ne_true
      | leaves hth _ _ => exact absurd (houtj.symm.trans hth) Bool.false_ne_true
      | leaks hth _ _ _ => rw [hth] at houtj; exact absurd houtj.symm Bool.false_ne_true
      | away _ hoo hnow =>
          refine ⟨hnow.trans hold, ?_, ?_⟩
          · by_cases hji : j = i
            · subst hji
              -- a returned thread has no move
              have he : thj = th := Option.some.inj (hj.symm.trans hi)
              subst he
              exact absurd ho (by rw [move_of_returned hret]; simp)
            · refine ⟨th, ?_, hret⟩
              have hlt := (List.getElem?_eq_some_iff.mp hi).1
              rw [LockWorld.after, List.getElem?_append_left
                (by rw [List.length_set]; exact hlt), List.getElem?_set_ne hji]
              exact hi
          · intro th' hth'
            rcases List.mem_append.mp hth' with hmem | hmem
            · rcases List.mem_or_eq_of_mem_set hmem with hmem | rfl
              · exact hout th' hmem
              · exact hoo
            · exact (hspawn th' hmem).1

/-- **Nobody takes the mutex again.** -/
theorem leaked_run {i : Nat} {w w' : LockWorld} {ls : List LockLabel} (h : Leaked i w)
    (hr : run LockWorld.step w ls = some w') : Leaked i w' :=
  run_inv (I := Leaked i) (fun _ _ _ h hs => leaked_step h hs) h hr

/-- What each step has to leave: no returned call with the mutex, a way for whoever is inside to
give it back, and, where a scan could not open the map, the tables it found. -/
def Survives (w : LockWorld) (l : LockLabel) : Prop :=
  ∀ w', w.step l = some w' →
    Released w' ∧ CanRelease w' ∧ (ScanFailsToOpen w l → w'.metric = w.metric)

theorem survives_of_scansOpen {w : LockWorld} (h : Exclusive w) {l : LockLabel}
    (hl : ScansOpen w l) : Survives w l := by
  intro w' hs
  have h' := exclusive_step h hl hs
  exact ⟨h'.released, h'.canRelease, fun hfail => metric_of_scanFailsToOpen hfail hs⟩

theorem scansOpen_of_survives {w : LockWorld} (h : Exclusive w) {l : LockLabel}
    (hl : Survives w l) : ScansOpen w l := by
  cases l with
  | callUpdateStats => trivial
  | callGetStats => trivial
  | move i env =>
      rintro ⟨hi, herr⟩
      have ho : Thread.move env w.metric w.holder i (.updateStats .locked)
          = some ⟨.updateStats .returned, w.metric, w.holder, []⟩ := if_pos herr
      have hs := step_move env hi ho
      obtain ⟨hold, ⟨th, hth, hret⟩, -⟩ := leaked_of_scanFailsToOpen h ⟨hi, herr⟩ hs
      exact (hl _ hs).1 i th hth hret hold

/--
**The scan loop survives exactly the runs in which every scan opens its map.**

For every run of `UpdateStats` calls, evictions and `GetStats` calls, interleaved
in any way: the mutex is always given back, and tables are as a failed scan found
them, if and only if no `UpdateStats` call fails to open the map. Evictions may
fail to.
-/
theorem scan_loop_survives_iff (index : Index) (ls : List LockLabel) :
    Along LockWorld.step ScansOpen (LockWorld.init index) ls
      ↔ Along LockWorld.step Survives (LockWorld.init index) ls :=
  along_congr (fun _ _ _ h hP hs => exclusive_step h hP hs)
    (fun _ _ h => ⟨survives_of_scansOpen h, scansOpen_of_survives h⟩) (exclusive_init index) ls

/-- The map is missing. -/
def missingMap : Env where
  openErr := true
  input := { t := 1, reports := [], podOrder := [], svcOrder := [], knownOrder := [] }

/-- One scan that cannot open its map, and the next one waits for ever. -/
theorem failed_open_blocks_next_scan :
    ∃ w, run LockWorld.step (LockWorld.init Index.empty)
        [.callUpdateStats, .move 0 missingMap, .move 0 missingMap, .callUpdateStats] = some w ∧
      w.threads = [.updateStats .returned, .updateStats .start] ∧ w.holder = some 0 ∧
      ¬ Released w ∧
      ∀ ls w', run LockWorld.step w ls = some w' → w'.holder = some 0 := by
  refine ⟨_, rfl, rfl, rfl, ?_, ?_⟩
  · intro hrel
    exact hrel 0 (.updateStats .returned) rfl rfl rfl
  · intro ls w' hr
    exact (leaked_run ⟨rfl, ⟨.updateStats .returned, rfl, rfl⟩, by decide⟩ hr).1

end Kubpf.Agent
