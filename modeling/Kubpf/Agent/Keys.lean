import Mathlib.Data.Finmap
import Kubpf.Flow

/-!
# Endpoints

From the addresses of a flow to the pod or service behind each of them.
`getPodStatsKey` looks both addresses up in the agent's two indexes, pods first
and services over them, and returns a name for each endpoint along with the bits
that say which lookups succeeded. `getPodStatsKey_eq` says the same thing one
endpoint at a time.
-/

namespace Kubpf.Agent

/-! ## What a flow key offers -/

/-- `binary.Write(buf, binary.LittleEndian, x)`. -/
def putUint32 (x : UInt32) : List UInt8 :=
  [x.toUInt8, (x >>> 8).toUInt8, (x >>> 16).toUInt8, (x >>> 24).toUInt8]

/-- `net.IP(b).String()` for the four octets of an IPv4 address; other lengths do not occur
here. -/
def ipString : List UInt8 → String
  | [a, b, c, d] =>
    Nat.repr a.toNat ++ "." ++ Nat.repr b.toNat ++ "." ++ Nat.repr c.toNat ++ "."
      ++ Nat.repr d.toNat
  | _ => "?"

/-- A number is printed in digits. -/
theorem not_mem_toDigits {c : Char} (hc : c.isDigit = false) (n : Nat) :
    c ∉ Nat.toDigits 10 n := by
  intro h
  rw [Nat.isDigit_of_mem_toDigits (by decide) (by decide) h] at hc
  cases hc

/-- A port written big-endian, read back little-endian and printed. -/
def portString (port : UInt16) : String :=
  let hi := (port >>> 8).toUInt8
  let lo := port.toUInt8
  Nat.repr (hi.toNat + 2 ^ 8 * lo.toNat)

/-- The interface `FlowKey`. -/
class FlowKey (K : Type) where
  getSrcIp : K → String
  getDstIp : K → String
  getIpProto : K → String
  getSPort : K → String
  getDPort : K → String

export FlowKey (getSrcIp getDstIp getIpProto getSPort getDPort)

instance : FlowKey InetV4Flow where
  getSrcIp flow := ipString (putUint32 flow.srcIp)
  getDstIp flow := ipString (putUint32 flow.dstIp)
  getIpProto flow := Nat.repr flow.l4.ipProto.toNat
  getSPort flow := portString flow.l4.sport
  getDPort flow := portString flow.l4.dport

/-! ## The indexes the informers keep -/

structure PodInfo where
  podIP : String
  deriving DecidableEq, Repr

structure SvcInfo where
  clusterIP : String
  svcType : String
  deriving DecidableEq, Repr

/-- The part of `StatsAgent` that the pod and service informers write. -/
structure Index where
  podInfo : Finmap (fun _ : String => PodInfo)
  podIpToName : Finmap (fun _ : String => String)
  svcInfo : Finmap (fun _ : String => SvcInfo)
  svcIpToName : Finmap (fun _ : String => String)

/-- The indexes of a new agent. -/
def Index.empty : Index := ⟨∅, ∅, ∅, ∅⟩

/-- No address is in both indexes. -/
def Index.NoSharedIp (agent : Index) : Prop :=
  ∀ ip, ¬ ((agent.podIpToName.lookup ip).isSome ∧ (agent.svcIpToName.lookup ip).isSome)

theorem Index.noSharedIp_iff {agent : Index} :
    agent.NoSharedIp ↔ Disjoint agent.podIpToName.keys agent.svcIpToName.keys := by
  simp only [Index.NoSharedIp, Finset.disjoint_left, Finmap.mem_keys, ← Finmap.lookup_isSome,
    not_and]

instance (agent : Index) : Decidable agent.NoSharedIp := decidable_of_iff _ Index.noSharedIp_iff.symm

/-- No address is in both indexes, no two pods share a name, and every pod has one: `podUpdated`
joins a namespace and a name with a slash. -/
def Index.OneToOne (agent : Index) : Prop :=
  agent.NoSharedIp ∧
  (∀ ip ∈ agent.podIpToName.keys, ∀ ip' ∈ agent.podIpToName.keys,
    agent.podIpToName.lookup ip = agent.podIpToName.lookup ip' → ip = ip') ∧
  ∀ ip ∈ agent.podIpToName.keys, agent.podIpToName.lookup ip ≠ some ""

instance (agent : Index) : Decidable agent.OneToOne := inferInstanceAs (Decidable (_ ∧ _ ∧ _))

/-- `agent.svcInfo[name].SvcType`: the zero value where the service is unknown. -/
def Index.svcType (agent : Index) (name : String) : String :=
  ((agent.svcInfo.lookup name).map SvcInfo.svcType).getD ""

/-! ## `PodStatsKey` -/

/-- `Endpoints [2]string`. -/
structure PodStatsKey where
  endpoints : String × String
  deriving DecidableEq, Repr

namespace PodStatsKey

/-- `clear(ep)`. -/
def clear (psk : PodStatsKey) (ep : Fin 2) : PodStatsKey :=
  if ep.val = 0 then ⟨"", psk.endpoints.2⟩ else ⟨psk.endpoints.1, ""⟩

/-- `swap`. -/
def swap (psk : PodStatsKey) : PodStatsKey := ⟨psk.endpoints.2, psk.endpoints.1⟩

@[simp] theorem clear_one (a b : String) : clear ⟨a, b⟩ 1 = ⟨a, ""⟩ := rfl
@[simp] theorem swap_mk (a b : String) : swap ⟨a, b⟩ = ⟨b, a⟩ := rfl

end PodStatsKey

def fromPodKey : Nat := 1
def toPodKey : Nat := 2
def fromSvcKey : Nat := 4
def toSvcKey : Nat := 8

/-- `getPodStatsKey`. -/
def getPodStatsKey {K : Type} [FlowKey K] (agent : Index) (keyOut : K) : PodStatsKey × Nat :=
  let srcPod := agent.podIpToName.lookup (getSrcIp keyOut)
  let dstPod := agent.podIpToName.lookup (getDstIp keyOut)
  let (ep0, keyType) := match srcPod with
    | some srcName => (srcName, fromPodKey)
    | none => ("", 0)
  let (ep1, keyType) := match dstPod with
    | some dstName => (dstName, keyType ||| toPodKey)
    | none => ("", keyType)
  let srcSvc := agent.svcIpToName.lookup (getSrcIp keyOut)
  let dstSvc := agent.svcIpToName.lookup (getDstIp keyOut)
  let (ep0, keyType) := match srcSvc with
    | some srcName => (srcName ++ ("/" ++ agent.svcType srcName), keyType ||| fromSvcKey)
    | none => (ep0, keyType)
  let (ep1, keyType) := match dstSvc with
    | some dstName => (dstName ++ ("/" ++ agent.svcType dstName), keyType ||| toSvcKey)
    | none => (ep1, keyType)
  -- an endpoint that is neither keeps its address
  let ep0 := if ep0 = "" then getSrcIp keyOut else ep0
  let ep1 := if ep1 = "" then getDstIp keyOut else ep1
  (⟨(ep0, ep1)⟩, keyType)

/-! ## One endpoint at a time -/

/-- The address belongs to a pod. -/
def Index.isPod (agent : Index) (ip : String) : Bool := (agent.podIpToName.lookup ip).isSome

/-- The address belongs to a service. -/
def Index.isSvc (agent : Index) (ip : String) : Bool := (agent.svcIpToName.lookup ip).isSome

/-- The name an address gets as an endpoint. -/
def Index.endpoint (agent : Index) (ip : String) : String :=
  match agent.svcIpToName.lookup ip with
  | some name => name ++ ("/" ++ agent.svcType name)
  | none =>
    match agent.podIpToName.lookup ip with
    | some name => if name = "" then ip else name
    | none => ip

/-- The bits of a key type. -/
def keyTypeOf (srcPod dstPod srcSvc dstSvc : Bool) : Nat :=
  (if srcPod then fromPodKey else 0) ||| (if dstPod then toPodKey else 0)
    ||| (if srcSvc then fromSvcKey else 0) ||| (if dstSvc then toSvcKey else 0)

/-- The type of a flow between two addresses. -/
def Index.keyType (agent : Index) (src dst : String) : Nat :=
  keyTypeOf (agent.isPod src) (agent.isPod dst) (agent.isSvc src) (agent.isSvc dst)

/-- **Each endpoint is named, and typed, by its own address.** -/
theorem getPodStatsKey_eq {K : Type} [FlowKey K] (agent : Index) (keyOut : K) :
    getPodStatsKey agent keyOut
      = (⟨(agent.endpoint (getSrcIp keyOut), agent.endpoint (getDstIp keyOut))⟩,
          agent.keyType (getSrcIp keyOut) (getDstIp keyOut)) := by
  unfold getPodStatsKey Index.endpoint Index.keyType Index.isPod Index.isSvc
  cases h1 : agent.podIpToName.lookup (getSrcIp keyOut) <;>
    cases h2 : agent.podIpToName.lookup (getDstIp keyOut) <;>
    cases h3 : agent.svcIpToName.lookup (getSrcIp keyOut) <;>
    cases h4 : agent.svcIpToName.lookup (getDstIp keyOut) <;>
    simp [keyTypeOf]

end Kubpf.Agent
