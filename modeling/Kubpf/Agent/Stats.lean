import Kubpf.Flow

/-!
# Counters in the agent

The arithmetic of `metrics.go` on `FlowStats`, and the entries the agent's tables
point to. All of it is 64-bit arithmetic that wraps, except that a difference of
counters that went backwards is nothing at all.
-/

namespace Kubpf.Agent

/-- `time.Time`. Timestamps are only ever compared for equality. -/
abbrev Time := Nat

/-- `addFlowStats`: the new `*baseStats`. -/
def addFlowStats (baseStats incStats : FlowStats) : FlowStats where
  outBytes := baseStats.outBytes + incStats.outBytes
  outPackets := baseStats.outPackets + incStats.outPackets
  inBytes := baseStats.inBytes + incStats.inBytes
  inPackets := baseStats.inPackets + incStats.inPackets

/-- `diffFlowStats`. -/
def diffFlowStats (oldStats newStats : FlowStats) : FlowStats :=
  if newStats.outBytes < oldStats.outBytes ∨ newStats.outPackets < oldStats.outPackets
      ∨ newStats.inBytes < oldStats.inBytes ∨ newStats.inPackets < oldStats.inPackets then
    { outBytes := 0, outPackets := 0, inBytes := 0, inPackets := 0 }
  else
    { outBytes := newStats.outBytes - oldStats.outBytes
      outPackets := newStats.outPackets - oldStats.outPackets
      inBytes := newStats.inBytes - oldStats.inBytes
      inPackets := newStats.inPackets - oldStats.inPackets }

theorem diffFlowStats_self (a : FlowStats) : diffFlowStats a a = 0 := by
  unfold diffFlowStats
  have hself : ∀ x : UInt64, x - x = 0 := by
    intro x
    grind
  simp only [UInt64.lt_irrefl, or_self, if_false, hself]
  rfl

/-- `FlowStatsEntry`; the defaults are Go's zero values. -/
structure FlowStatsEntry where
  stats : FlowStats := 0
  agingCounter : UInt8 := 0
  timeStamp : Time := 0
  deriving DecidableEq, Repr

/-- `FlowStatsEntry{}`. -/
instance : Inhabited FlowStatsEntry := ⟨{}⟩

/-- `(*FlowStatsEntry).add`. -/
def FlowStatsEntry.add (fs : FlowStatsEntry) (stats : FlowStats) (t : Time) : FlowStatsEntry where
  stats := addFlowStats fs.stats stats
  agingCounter := 0
  timeStamp := t

@[simp] theorem FlowStatsEntry.stats_default : (default : FlowStatsEntry).stats = 0 := rfl

end Kubpf.Agent
