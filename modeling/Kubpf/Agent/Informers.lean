import Kubpf.Lib.AddressBook
import Kubpf.Lib.Transition
import Kubpf.Agent.Keys

/-!
# The informers

What the agent does when Kubernetes tells it about pods and services. An update
enters an object under its name and its address, a deletion strikes out both, and
objects without an address of their own are passed over: pods that have none yet
or that use the host's, and headless services.

Each handler is given an `interface{}` and asserts what is in it. The assertion
and the rest of a handler are separate definitions here, so that histories of
well-typed notices need not speak of panics.
-/

namespace Kubpf.Agent

open Lib

/-! ## Objects -/

/-- `v1.Pod`: `ObjectMeta.Namespace`, `ObjectMeta.Name`, `Status.PodIP` and
`Spec.HostNetwork`. -/
structure Pod where
  ns : String
  name : String
  podIP : String
  hostNetwork : Bool
  deriving DecidableEq, Repr

/-- The values of `svc.Spec.Type`. -/
inductive ServiceType where
  | clusterIP
  | nodePort
  | loadBalancer
  | externalName
  /-- No case of the switch. -/
  | other
  deriving DecidableEq, Repr

/-- `v1.Service`: `ObjectMeta.Namespace`, `ObjectMeta.Name`, `Spec.ClusterIP` and `Spec.Type`. -/
structure Service where
  ns : String
  name : String
  clusterIP : String
  type : ServiceType
  deriving DecidableEq, Repr

/-- What an informer can put in an `interface{}`. -/
inductive Obj where
  | pod (pod : Pod)
  | service (svc : Service)
  /-- `cache.DeletedFinalStateUnknown{Key, Obj}`. -/
  | deletedFinalStateUnknown (key : String) (obj : Obj)
  deriving DecidableEq, Repr

/-- `obj.(*v1.Pod)`, where `none` is a panic. -/
def Obj.asPod : Obj → Option Pod
  | .pod p => some p
  | _ => none

/-- `obj.(*v1.Service)`. -/
def Obj.asService : Obj → Option Service
  | .service s => some s
  | _ => none

/-- `fmt.Sprintf("%s/%s", namespace, name)`. -/
def Pod.key (pod : Pod) : String := pod.ns ++ "/" ++ pod.name

/-- `cache.MetaNamespaceKeyFunc`. A service has metadata, so there is no error. -/
def Service.key (svc : Service) : String :=
  if svc.ns = "" then svc.name else svc.ns ++ "/" ++ svc.name

/-- The switch on `svc.Spec.Type`. -/
def ServiceType.svcType : ServiceType → String
  | .clusterIP => "clusterIp"
  | .nodePort => "nodePort"
  | .loadBalancer => "loadBalancer"
  | .externalName => "externalName"
  | .other => ""

/-! ## The handlers -/

namespace Index

/-- `podUpdated` behind its assertion. -/
def updatePod (agent : Index) (pod : Pod) : Index :=
  let podKey := pod.key
  if pod.podIP = "" ∨ pod.hostNetwork then agent
  else
    let podInfo : PodInfo := { podIP := pod.podIP }
    { agent with
      podInfo := agent.podInfo.insert podKey podInfo
      podIpToName := agent.podIpToName.insert pod.podIP podKey }

/-- `podDeleted` behind its assertion. -/
def deletePod (agent : Index) (pod : Pod) : Index :=
  if pod.podIP = "" ∨ pod.hostNetwork then agent
  else
    let podKey := pod.key
    { agent with
      podInfo := agent.podInfo.erase podKey
      podIpToName := agent.podIpToName.erase pod.podIP }

/-- `serviceUpdated` behind its assertion. -/
def updateService (agent : Index) (svc : Service) : Index :=
  let key := svc.key
  if svc.clusterIP = "None" then agent
  else
    let svcInfo : SvcInfo := { clusterIP := svc.clusterIP, svcType := svc.type.svcType }
    { agent with
      svcInfo := agent.svcInfo.insert key svcInfo
      svcIpToName := agent.svcIpToName.insert svcInfo.clusterIP key }

/-- `serviceDeleted` behind its assertion. -/
def deleteService (agent : Index) (svc : Service) : Index :=
  let key := svc.key
  if svc.clusterIP = "None" then agent
  else
    { agent with
      svcInfo := agent.svcInfo.erase key
      svcIpToName := agent.svcIpToName.erase svc.clusterIP }

end Index

/-- `podUpdated`. -/
def podUpdated (agent : Index) (obj : Obj) : Option Index := obj.asPod.map agent.updatePod

/-- `podDeleted`. -/
def podDeleted (agent : Index) (obj : Obj) : Option Index := obj.asPod.map agent.deletePod

/-- `serviceUpdated`. -/
def serviceUpdated (agent : Index) (obj : Obj) : Option Index :=
  obj.asService.map agent.updateService

/-- `serviceDeleted`. -/
def serviceDeleted (agent : Index) (obj : Obj) : Option Index :=
  obj.asService.map agent.deleteService

/-! ## Histories -/

/-- `AddFunc`, `UpdateFunc` and `DeleteFunc` of the pod informer, on pods. -/
def Index.onPod (agent : Index) : Notice Pod → Option Index
  | .updated pod => podUpdated agent (.pod pod)
  | .deleted pod => podDeleted agent (.pod pod)

/-- The same of the service informer, on services. -/
def Index.onService (agent : Index) : Notice Service → Option Index
  | .updated svc => serviceUpdated agent (.service svc)
  | .deleted svc => serviceDeleted agent (.service svc)

/-- The indexes after notices of pods; with pods there is no panic. -/
def podIndex (evs : List (Notice Pod)) : Index :=
  evs.foldl (fun agent ev => (agent.onPod ev).getD agent) Index.empty

/-- The indexes after notices of services. -/
def svcIndex (evs : List (Notice Service)) : Index :=
  evs.foldl (fun agent ev => (agent.onService ev).getD agent) Index.empty

theorem podIndex_concat (evs : List (Notice Pod)) (ev : Notice Pod) :
    podIndex (evs ++ [ev]) = ((podIndex evs).onPod ev).getD (podIndex evs) := List.foldl_concat ..

theorem svcIndex_concat (evs : List (Notice Service)) (ev : Notice Service) :
    svcIndex (evs ++ [ev]) = ((svcIndex evs).onService ev).getD (svcIndex evs) :=
  List.foldl_concat ..

/-! ## The indexes as address books -/

/-- `podInfo` and `podIpToName`. -/
def Index.pods (agent : Index) : AddressBook String String PodInfo where
  info := agent.podInfo
  owner := agent.podIpToName

/-- `svcInfo` and `svcIpToName`. -/
def Index.services (agent : Index) : AddressBook String String SvcInfo where
  info := agent.svcInfo
  owner := agent.svcIpToName

/-- How pods are entered. -/
def podRegistry : Registry Pod String String PodInfo where
  name := Pod.key
  addr pod := if pod.podIP = "" ∨ pod.hostNetwork then none else some pod.podIP
  info pod := { podIP := pod.podIP }

/-- How services are entered; an empty address is one like any other. -/
def svcRegistry : Registry Service String String SvcInfo where
  name := Service.key
  addr svc := if svc.clusterIP = "None" then none else some svc.clusterIP
  info svc := { clusterIP := svc.clusterIP, svcType := svc.type.svcType }

theorem podRegistry_addr_eq_some {pod : Pod} {ip : String} :
    podRegistry.addr pod = some ip ↔ pod.podIP ≠ "" ∧ pod.hostNetwork = false ∧ pod.podIP = ip := by
  simp only [podRegistry]
  split_ifs with h
  · rcases h with h | h <;> simp [h]
  · rw [not_or, Bool.not_eq_true] at h
    simp [h]

theorem svcRegistry_addr_eq_none {svc : Service} :
    svcRegistry.addr svc = none ↔ svc.clusterIP = "None" := by
  simp [svcRegistry]

theorem svcRegistry_addr_eq_some {svc : Service} {ip : String} :
    svcRegistry.addr svc = some ip ↔ svc.clusterIP ≠ "None" ∧ svc.clusterIP = ip := by
  simp only [svcRegistry]
  split_ifs with h
  · simp [h]
  · simp [h]

theorem pods_onPod (agent : Index) (ev : Notice Pod) :
    ((agent.onPod ev).getD agent).pods = podRegistry.apply agent.pods ev := by
  cases ev with
  | updated pod =>
      simp only [Index.onPod, podUpdated, Obj.asPod, Option.map_some, Option.getD_some,
        Index.updatePod, Registry.apply, podRegistry]
      split_ifs <;> rfl
  | deleted pod =>
      simp only [Index.onPod, podDeleted, Obj.asPod, Option.map_some, Option.getD_some,
        Index.deletePod, Registry.apply, podRegistry]
      split_ifs <;> rfl

theorem services_onService (agent : Index) (ev : Notice Service) :
    ((agent.onService ev).getD agent).services = svcRegistry.apply agent.services ev := by
  cases ev with
  | updated svc =>
      simp only [Index.onService, serviceUpdated, Obj.asService, Option.map_some, Option.getD_some,
        Index.updateService, Registry.apply, svcRegistry]
      split_ifs <;> rfl
  | deleted svc =>
      simp only [Index.onService, serviceDeleted, Obj.asService, Option.map_some, Option.getD_some,
        Index.deleteService, Registry.apply, svcRegistry]
      split_ifs <;> rfl

/-- **The pod informer keeps an address book.** -/
theorem pods_podIndex (evs : List (Notice Pod)) : (podIndex evs).pods = podRegistry.book evs := by
  induction evs using List.reverseRecOn with
  | nil => rfl
  | append_singleton evs ev ih => rw [podIndex_concat, Registry.book_concat, pods_onPod, ih]

/-- **And so does the service informer.** -/
theorem services_svcIndex (evs : List (Notice Service)) :
    (svcIndex evs).services = svcRegistry.book evs := by
  induction evs using List.reverseRecOn with
  | nil => rfl
  | append_singleton evs ev ih =>
      rw [svcIndex_concat, Registry.book_concat, services_onService, ih]

end Kubpf.Agent
