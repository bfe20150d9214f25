import Kubpf.Lib.Transition
import Kubpf.Lib.Tally
import Kubpf.Lib.Streak
import Kubpf.Kernel.Accounting
import Kubpf.Kernel.Interleaving
import Kubpf.Agent.Merged
import Kubpf.Agent.PodSvcSeries
import Kubpf.Agent.Locking
import Kubpf.Agent.Endpoints
import Kubpf.Unread
import Kubpf.Remerge
import Kubpf.Agent.Outlive
import Kubpf.Agent.Idle
import Kubpf.PodTotals
import Kubpf.Agent.Refinement
import Kubpf.Agent.Informers
import Kubpf.Agent.PodIndex
import Kubpf.Agent.SvcIndex
import Kubpf.Agent.Reorder
import Kubpf.Agent.Tombstones
import Kubpf.Agent.Labels
import Kubpf.Agent.Attribution
import Kubpf.Agent.OneSource
import Kubpf.Agent.Mirror
import Kubpf.Agent.ScanOrder
import Kubpf.KeyLayout
import Kubpf.Agent.DueLists
import Kubpf.Aging
import Kubpf.LateEvictions
import Kubpf.Agent.ScanLoop
import Kubpf.Kernel.FlowStore
import Kubpf.Machine
import Kubpf.Capacity
import Kubpf.Ledger
import Kubpf.Settling
import Kubpf.Kernel.Recycling
import Kubpf.Agent.Daemon
import Kubpf.Agent.Registry
import Kubpf.Kernel.SerialOrder
import Kubpf.Page
import Kubpf.Status
