import Kubpf.Lib.Transition

/-!
# The loop that scans

`runMetric` starts one goroutine for a metric. It waits for a tick or for `stopCh`
to be closed, calls `UpdateStats` on a tick, and on the stop channel stops the
ticker and says `break`. In Go that leaves the `select`, not the `for` around it:
the next round begins, and finds the channel as closed as before.

The channels are part of the state. `ticker.C` has room for one tick, ticks that
find it taken are dropped, and one that waits there outlasts `ticker.Stop()` (the
module asks for Go 1.13). A closed channel is always ready to be received from.
Where both are ready the `select` takes either.
-/

namespace Kubpf.Agent

open Lib

/-! ## The goroutine and its channels -/

inductive LoopPc where
  /-- At the `select`, or waiting in it. -/
  | atSelect
  /-- It has received from `stopCh`: `ticker.Stop()` is next. -/
  | stopCase
  /-- It has received a tick: the call of `UpdateStats` is next. -/
  | tickCase
  | inUpdateStats
  deriving DecidableEq, Repr

structure ScanLoop where
  pc : LoopPc
  /-- `stopCh` is closed. -/
  stopClosed : Bool
  /-- The ticker runs. -/
  ticking : Bool
  /-- A tick is waiting in `ticker.C`. -/
  buffered : Bool
  deriving DecidableEq, Repr

/-- The ticker has just been made. -/
def ScanLoop.init : ScanLoop where
  pc := .atSelect
  stopClosed := false
  ticking := true
  buffered := false

inductive LoopLabel where
  /-- The ticker's period is over. -/
  | tick
  /-- Somebody closes `stopCh`. -/
  | closeStop
  /-- `case <-stopCh`. -/
  | selectStop
  /-- `case <-ticker.C`. -/
  | selectTick
  /-- `ticker.Stop()`, and `break`. -/
  | stopTicker
  | callUpdateStats
  | returnUpdateStats
  deriving DecidableEq, Repr

def ScanLoop.step (s : ScanLoop) : LoopLabel → Option ScanLoop
  | .tick => if s.ticking then some { s with buffered := true } else none
  | .closeStop => if s.stopClosed then none else some { s with stopClosed := true }
  | .selectStop =>
    if s.pc = .atSelect ∧ s.stopClosed then some { s with pc := .stopCase } else none
  | .selectTick =>
    if s.pc = .atSelect ∧ s.buffered then some { s with pc := .tickCase, buffered := false }
    else none
  | .stopTicker =>
    -- the `break` ends the `select`, and the `for` goes round
    if s.pc = .stopCase then some { s with pc := .atSelect, ticking := false } else none
  | .callUpdateStats => if s.pc = .tickCase then some { s with pc := .inUpdateStats } else none
  | .returnUpdateStats => if s.pc = .inUpdateStats then some { s with pc := .atSelect } else none

/-- The steps of the loop, taken apart. -/
inductive LoopStep (s : ScanLoop) : LoopLabel → ScanLoop → Prop
  | tick (hticking : s.ticking = true) : LoopStep s .tick { s with buffered := true }
  | closeStop (hopen : s.stopClosed = false) : LoopStep s .closeStop { s with stopClosed := true }
  | selectStop (hpc : s.pc = .atSelect) (hclosed : s.stopClosed = true) :
      LoopStep s .selectStop { s with pc := .stopCase }
  | selectTick (hpc : s.pc = .atSelect) (hbuf : s.buffered = true) :
      LoopStep s .selectTick { s with pc := .tickCase, buffered := false }
  | stopTicker (hpc : s.pc = .stopCase) :
      LoopStep s .stopTicker { s with pc := .atSelect, ticking := false }
  | callUpdateStats (hpc : s.pc = .tickCase) :
      LoopStep s .callUpdateStats { s with pc := .inUpdateStats }
  | returnUpdateStats (hpc : s.pc = .inUpdateStats) :
      LoopStep s .returnUpdateStats { s with pc := .atSelect }

theorem ScanLoop.step_inv {s s' : ScanLoop} {l : LoopLabel} (h : s.step l = some s') :
    LoopStep s l s' := by
  cases l with
  | tick =>
      simp only [ScanLoop.step] at h
      split_ifs at h with hticking
      cases h
      exact .tick hticking
  | closeStop =>
      simp only [ScanLoop.step] at h
      split_ifs at h with hclosed
      cases h
      exact .closeStop (Bool.not_eq_true _ ▸ hclosed)
  | selectStop =>
      simp only [ScanLoop.step] at h
      split_ifs at h with hready
      cases h
      exact .selectStop hready.1 hready.2
  | selectTick =>
      simp only [ScanLoop.step] at h
      split_ifs at h with hready
      cases h
      exact .selectTick hready.1 hready.2
  | stopTicker =>
      simp only [ScanLoop.step] at h
      split_ifs at h with hpc
      cases h
      exact .stopTicker hpc
  | callUpdateStats =>
      simp only [ScanLoop.step] at h
      split_ifs at h with hpc
      cases h
      exact .callUpdateStats hpc
  | returnUpdateStats =>
      simp only [ScanLoop.step] at h
      split_ifs at h with hpc
      cases h
      exact .returnUpdateStats hpc

/-! ## One call a tick -/

/-- Ticks received for which `UpdateStats` has yet to be called. -/
def ScanLoop.owed (s : ScanLoop) : Nat := if s.pc = .tickCase then 1 else 0

/-- **One step** pays for what it receives. -/
theorem calls_step {s s' : ScanLoop} {l : LoopLabel} (h : s.step l = some s') :
    [l].count .callUpdateStats + s'.owed = [l].count .selectTick + s.owed := by
  cases ScanLoop.step_inv h with
  | tick _ => rfl
  | closeStop _ => rfl
  | selectStop hpc _ => simp [ScanLoop.owed, hpc]
  | selectTick hpc _ => simp [ScanLoop.owed, hpc]
  | stopTicker hpc => simp [ScanLoop.owed, hpc]
  | callUpdateStats hpc => simp [ScanLoop.owed, hpc]
  | returnUpdateStats hpc => simp [ScanLoop.owed, hpc]

/-- **Over a run, `UpdateStats` is called once for every tick received.** -/
theorem calls_run {s s' : ScanLoop} {ls : List LoopLabel} (h : run ScanLoop.step s ls = some s') :
    ls.count .callUpdateStats + s'.owed = ls.count .selectTick + s.owed := by
  induction ls generalizing s with
  | nil =>
      rw [run_nil] at h
      rw [Option.some.inj h]
      rfl
  | cons l ls ih =>
      obtain ⟨s₁, hs, hr⟩ := run_cons_eq_some h
      have hone := calls_step hs
      have hrest := ih hr
      rw [← List.singleton_append, List.count_append, List.count_append]
      omega

/-! ## After the stop case -/

/-- Nothing the loop does from here on is another round or another scan. -/
def Ended (s : ScanLoop) : Prop :=
  ∀ ls s', run ScanLoop.step s ls = some s' →
    ∀ l ∈ ls, l ≠ .selectStop ∧ l ≠ .selectTick ∧ l ≠ .callUpdateStats

/-- What is asked of the loop in a state that `ls` has led to: that it has ended if it has taken
the stop case, and that every tick received has had its call or is about to. -/
structure StopsWhenTold (ls : List LoopLabel) (s : ScanLoop) : Prop where
  ended : .selectStop ∈ ls → Ended s
  once : ls.count .callUpdateStats + s.owed = ls.count .selectTick

/-- **Having taken the stop case, the loop goes round.** -/
theorem not_ended_of_stopCase {s : ScanLoop} (hpc : s.pc = .stopCase) (hclosed : s.stopClosed = true) :
    ¬ Ended s := by
  intro hended
  have hstop : s.step .stopTicker = some { s with pc := .atSelect, ticking := false } := if_pos hpc
  have hagain : ScanLoop.step { s with pc := .atSelect, ticking := false } .selectStop
      = some { s with pc := .stopCase, ticking := false } := if_pos ⟨rfl, hclosed⟩
  have hrun : run ScanLoop.step s [.stopTicker, .selectStop]
      = some { s with pc := .stopCase, ticking := false } := by
    rw [run_cons hstop, run_cons hagain, run_nil]
  exact (hended _ _ hrun .selectStop (by decide)).1 rfl

/--
**The loop stops when told to exactly where it is never told to.**

For every run of the goroutine, ticks, the closing of `stopCh` and the choices of
the `select` coming in any order: in every state it reaches, the loop has ended if
it has taken the stop case, and has called `UpdateStats` once for every tick it
received, if and only if the run does not take the stop case.
-/
theorem loop_stops_iff (ls : List LoopLabel) (s : ScanLoop)
    (hrun : run ScanLoop.step ScanLoop.init ls = some s) :
    (∀ ls₁ s₁, ls₁ <+: ls → run ScanLoop.step ScanLoop.init ls₁ = some s₁ → StopsWhenTold ls₁ s₁)
      ↔ .selectStop ∉ ls := by
  constructor
  · intro hall hmem
    obtain ⟨ls₁, ls₂, rfl⟩ := List.append_of_mem hmem
    rw [List.append_cons] at hrun
    obtain ⟨s₁, hrun₁, -⟩ := run_append_eq_some hrun
    have hended := (hall _ s₁ ⟨ls₂, List.append_cons .. ▸ rfl⟩ hrun₁).ended (by simp)
    obtain ⟨s₀, -, hlast⟩ := run_append_eq_some hrun₁
    obtain ⟨s₁', hstep, hnil⟩ := run_cons_eq_some hlast
    rw [run_nil] at hnil
    obtain rfl := Option.some.inj hnil
    cases ScanLoop.step_inv hstep with
    | selectStop hpc hclosed =>
        exact not_ended_of_stopCase (s := { s₀ with pc := .stopCase }) rfl hclosed hended
  · intro hnot ls₁ s₁ hpre hrun₁
    exact ⟨fun hmem => absurd (hpre.subset hmem) hnot, calls_run hrun₁⟩

/-- A tick, the scan it is for, and a tick that comes while it runs. -/
theorem loop_stops_iff_scan :
    ∃ s, run ScanLoop.step ScanLoop.init
        [.tick, .selectTick, .callUpdateStats, .tick, .returnUpdateStats] = some s ∧
      s.buffered = true ∧
      StopsWhenTold [.tick, .selectTick, .callUpdateStats, .tick, .returnUpdateStats] s :=
  ⟨_, rfl, rfl,
    (loop_stops_iff [.tick, .selectTick, .callUpdateStats, .tick, .returnUpdateStats] _ rfl).mpr
      (by decide) _ _ List.prefix_rfl rfl⟩

/-- A tick comes before the channel is closed, and the goroutine takes the stop case first. Then it
goes round and scans. -/
theorem late_tick_scans :
    ∃ s s', run ScanLoop.step ScanLoop.init [.tick, .closeStop, .selectStop] = some s ∧
      run ScanLoop.step s [.stopTicker, .selectTick, .callUpdateStats] = some s' ∧
      s'.pc = .inUpdateStats ∧ ¬ StopsWhenTold [.tick, .closeStop, .selectStop] s := by
  refine ⟨_, _, rfl, rfl, rfl, fun h => ?_⟩
  exact (h.ended (by decide) [.stopTicker, .selectTick, .callUpdateStats] _ rfl .callUpdateStats
    (by decide)).2.2 rfl

/-! ## The tick that was waiting -/

/-- Ticks waiting in the channel. -/
def ScanLoop.waiting (s : ScanLoop) : Nat := if s.buffered then 1 else 0

/-- With the ticker stopped, ticks are received and none come. -/
theorem ticks_step {s s' : ScanLoop} {l : LoopLabel} (hstopped : s.ticking = false)
    (h : s.step l = some s') :
    s'.ticking = false ∧ [l].count .selectTick + s'.waiting = s.waiting := by
  cases ScanLoop.step_inv h with
  | tick hticking => exact absurd (hstopped.symm.trans hticking) Bool.false_ne_true
  | closeStop _ => exact ⟨hstopped, Nat.zero_add _⟩
  | selectStop _ _ => exact ⟨hstopped, Nat.zero_add _⟩
  | selectTick _ hbuf => exact ⟨hstopped, by simp [ScanLoop.waiting, hbuf]⟩
  | stopTicker _ => exact ⟨rfl, Nat.zero_add _⟩
  | callUpdateStats _ => exact ⟨hstopped, Nat.zero_add _⟩
  | returnUpdateStats _ => exact ⟨hstopped, Nat.zero_add _⟩

theorem ticks_run {s s' : ScanLoop} {ls : List LoopLabel} (hstopped : s.ticking = false)
    (h : run ScanLoop.step s ls = some s') : ls.count .selectTick + s'.waiting = s.waiting := by
  induction ls generalizing s with
  | nil =>
      rw [run_nil] at h
      rw [Option.some.inj h]
      exact Nat.zero_add _
  | cons l ls ih =>
      obtain ⟨s₁, hs, hr⟩ := run_cons_eq_some h
      obtain ⟨hstopped₁, hone⟩ := ticks_step hstopped hs
      have hrest := ih hstopped₁ hr
      rw [← List.singleton_append, List.count_append]
      omega

section Stopped

variable {s : ScanLoop}

/-- **Once the ticker is stopped, `UpdateStats` is called at most once more.** -/
theorem late_calls_le_one {s' : ScanLoop} {ls : List LoopLabel} (hpc : s.pc = .atSelect)
    (hstopped : s.ticking = false) (h : run ScanLoop.step s ls = some s') :
    ls.count .callUpdateStats ≤ 1 := by
  have hcalls := calls_run h
  have hticks := ticks_run hstopped h
  have howed : s.owed = 0 := by simp [ScanLoop.owed, hpc]
  have hwaiting : s.waiting ≤ 1 := by
    unfold ScanLoop.waiting
    split_ifs <;> omega
  omega

/-- **It can be called exactly if a tick was waiting.** -/
theorem late_call_iff (hpc : s.pc = .atSelect) (hstopped : s.ticking = false) :
    (∃ ls s', run ScanLoop.step s ls = some s' ∧ .callUpdateStats ∈ ls) ↔ s.buffered = true := by
  constructor
  · rintro ⟨ls, s', hrun, hmem⟩
    have hcalls := calls_run hrun
    have hticks := ticks_run hstopped hrun
    have hpos : 0 < ls.count .callUpdateStats := List.count_pos_iff.mpr hmem
    have howed : s.owed = 0 := by simp [ScanLoop.owed, hpc]
    by_contra hbuf
    have hwaiting : s.waiting = 0 := if_neg hbuf
    omega
  · intro hbuf
    have htick : s.step .selectTick = some { s with pc := .tickCase, buffered := false } :=
      if_pos ⟨hpc, hbuf⟩
    exact ⟨[.selectTick, .callUpdateStats], _, (run_cons htick _).trans rfl, by decide⟩

/-- **And the loop never waits again**: it is where it was after every round. -/
theorem stopped_loop_spins (hpc : s.pc = .atSelect) (hstopped : s.ticking = false)
    (hclosed : s.stopClosed = true) :
    run ScanLoop.step s [.selectStop, .stopTicker] = some s := by
  have hstop : s.step .selectStop = some { s with pc := .stopCase } := if_pos ⟨hpc, hclosed⟩
  rw [run_cons hstop]
  obtain ⟨pc, stopClosed, ticking, buffered⟩ := s
  dsimp only at hpc hstopped
  subst hpc hstopped
  rfl

end Stopped

end Kubpf.Agent
