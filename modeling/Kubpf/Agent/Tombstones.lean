import Kubpf.Agent.Informers

/-!
# Tombstones

When the watch has missed a deletion, the informer finds out about it from a
relist, and hands the delete handler a `DeletedFinalStateUnknown` in place of the
object. The handlers assert the object's type and panic.

Handed the object itself, a delete handler strikes out the object and its present
address. That makes the object disappear unless an earlier address of it is still
on the books, or the pod uses the host's network by now and is passed over.
-/

namespace Kubpf.Agent

open Lib

/-- What a delete notification carries: the object, or a key and the last state known. -/
inductive Deleted (O : Type) where
  | object (o : O)
  | finalStateUnknown (key : String) (o : O)
  deriving DecidableEq, Repr

namespace Deleted

variable {O : Type}

/-- The object that is gone, in either form. -/
def get : Deleted O → O
  | .object o => o
  | .finalStateUnknown _ o => o

/-- The form in which the handler is given it. -/
def toObj (wrap : O → Obj) : Deleted O → Obj
  | .object o => wrap o
  | .finalStateUnknown key o => .deletedFinalStateUnknown key (wrap o)

end Deleted

/-- What the informers deliver; an addition is handled as an update. -/
inductive Notification where
  | podUpdated (pod : Pod)
  | podDeleted (d : Deleted Pod)
  | serviceUpdated (svc : Service)
  | serviceDeleted (d : Deleted Service)
  deriving DecidableEq, Repr

/-- The handlers, where `none` is a panic. -/
def Index.notify (agent : Index) : Notification → Option Index
  | .podUpdated pod => Agent.podUpdated agent (.pod pod)
  | .podDeleted d => Agent.podDeleted agent (d.toObj .pod)
  | .serviceUpdated svc => Agent.serviceUpdated agent (.service svc)
  | .serviceDeleted d => Agent.serviceDeleted agent (d.toObj .service)

/-- The address recorded for the pod is its own, and recorded for no other pod. -/
def PodSettled (agent : Index) (pod : Pod) : Prop :=
  agent.podInfo.lookup pod.key = some ⟨pod.podIP⟩ ∧
    ∀ k info, k ≠ pod.key → agent.podInfo.lookup k = some info → info.podIP ≠ pod.podIP

/-- The address recorded for the service is its own, and recorded for no other service. -/
def SvcSettled (agent : Index) (svc : Service) : Prop :=
  (∃ info, agent.svcInfo.lookup svc.key = some info ∧ info.clusterIP = svc.clusterIP) ∧
    ∀ k info, k ≠ svc.key → agent.svcInfo.lookup k = some info → info.clusterIP ≠ svc.clusterIP

/-- The handler returns, and what was settled and is deleted has disappeared. -/
def Handled (agent : Index) (n : Notification) : Prop :=
  ∃ agent', agent.notify n = some agent' ∧
    match n with
    | .podDeleted d => PodSettled agent d.get → agent'.pods.Absent d.get.key
    | .serviceDeleted d => SvcSettled agent d.get → agent'.services.Absent d.get.key
    | _ => True

/-- A deletion comes with the object itself, which, if settled, is not on the host's network and
owns no address but its own. -/
def Manageable (agent : Index) : Notification → Prop
  | .podDeleted (.object pod) =>
    PodSettled agent pod → pod.hostNetwork = false ∧ agent.pods.OwnsOnly pod.key pod.podIP
  | .serviceDeleted (.object svc) =>
    SvcSettled agent svc → agent.services.OwnsOnly svc.key svc.clusterIP
  | .podDeleted (.finalStateUnknown _ _) => False
  | .serviceDeleted (.finalStateUnknown _ _) => False
  | .podUpdated _ => True
  | .serviceUpdated _ => True

/-! ## What is recorded -/

/-- Nothing is recorded that the handlers would pass over. -/
structure Addressed (agent : Index) : Prop where
  pods : ∀ k info, agent.podInfo.lookup k = some info → info.podIP ≠ ""
  services : ∀ k info, agent.svcInfo.lookup k = some info → info.clusterIP ≠ "None"

theorem addressed_init : Addressed Index.empty where
  pods := by intro k info h; exact absurd h (by simp [Index.empty])
  services := by intro k info h; exact absurd h (by simp [Index.empty])

/-- What holds of every entry of a table holds when one is added that it holds of. -/
theorem forall_lookup_insert {V : Type} {P : V → Prop} {m : Finmap fun _ : String => V}
    (h : ∀ k v, m.lookup k = some v → P v) (key : String) {new : V} (hnew : P new) :
    ∀ k v, (m.insert key new).lookup k = some v → P v := by
  intro k v hv
  by_cases hk : k = key
  · rw [hk, Finmap.lookup_insert] at hv
    exact Option.some.inj hv ▸ hnew
  · rw [Finmap.lookup_insert_of_ne _ hk] at hv
    exact h k v hv

theorem forall_lookup_erase {V : Type} {P : V → Prop} {m : Finmap fun _ : String => V}
    (h : ∀ k v, m.lookup k = some v → P v) (key : String) :
    ∀ k v, (m.erase key).lookup k = some v → P v := by
  intro k v hv
  by_cases hk : k = key
  · rw [hk, Finmap.lookup_erase] at hv
    cases hv
  · rw [Finmap.lookup_erase_ne hk] at hv
    exact h k v hv

section Step

variable {agent agent' : Index}

theorem Addressed.updatePod (h : Addressed agent) (pod : Pod) : Addressed (agent.updatePod pod) := by
  unfold Index.updatePod
  split_ifs with hskip
  · exact h
  · have haddr : pod.podIP ≠ "" := fun he => hskip (Or.inl he)
    exact ⟨forall_lookup_insert h.pods pod.key haddr, h.services⟩

theorem Addressed.deletePod (h : Addressed agent) (pod : Pod) : Addressed (agent.deletePod pod) := by
  unfold Index.deletePod
  split_ifs with hskip
  · exact h
  · exact ⟨forall_lookup_erase h.pods pod.key, h.services⟩

theorem Addressed.updateService (h : Addressed agent) (svc : Service) :
    Addressed (agent.updateService svc) := by
  unfold Index.updateService
  split_ifs with hskip
  · exact h
  · exact ⟨h.pods, forall_lookup_insert h.services svc.key hskip⟩

theorem Addressed.deleteService (h : Addressed agent) (svc : Service) :
    Addressed (agent.deleteService svc) := by
  unfold Index.deleteService
  split_ifs with hskip
  · exact h
  · exact ⟨h.pods, forall_lookup_erase h.services svc.key⟩

theorem addressed_step {n : Notification} (h : Addressed agent) (hs : agent.notify n = some agent') :
    Addressed agent' := by
  cases n with
  | podUpdated pod => exact Option.some.inj hs ▸ h.updatePod pod
  | serviceUpdated svc => exact Option.some.inj hs ▸ h.updateService svc
  | podDeleted d =>
      cases d with
      | object pod => exact Option.some.inj hs ▸ h.deletePod pod
      | finalStateUnknown key pod => cases hs
  | serviceDeleted d =>
      cases d with
      | object svc => exact Option.some.inj hs ▸ h.deleteService svc
      | finalStateUnknown key svc => cases hs

/-! ## One notification -/

/-- A pod that is recorded has disappeared once its deletion is handled, if it is not passed over
and has no other address. -/
theorem absent_deletePod_iff (h : Addressed agent) {pod : Pod} (hset : PodSettled agent pod) :
    (agent.deletePod pod).pods.Absent pod.key
      ↔ pod.hostNetwork = false ∧ agent.pods.OwnsOnly pod.key pod.podIP := by
  have hne : pod.podIP ≠ "" := h.pods _ _ hset.1
  unfold Index.deletePod
  cases hhost : pod.hostNetwork with
  | true =>
      rw [if_pos (Or.inr rfl)]
      refine iff_of_false (fun habs => ?_) (by simp)
      exact absurd (hset.1.symm.trans habs.1) (by simp)
  | false =>
      rw [if_neg (by simp [hne]), and_iff_right rfl]
      exact AddressBook.absent_forget_self_iff (b := agent.pods) (n := pod.key) (a := pod.podIP)

theorem absent_deleteService_iff (h : Addressed agent) {svc : Service}
    (hset : SvcSettled agent svc) :
    (agent.deleteService svc).services.Absent svc.key
      ↔ agent.services.OwnsOnly svc.key svc.clusterIP := by
  obtain ⟨⟨info, hinfo, hip⟩, -⟩ := hset
  have hne : svc.clusterIP ≠ "None" := hip ▸ h.services _ _ hinfo
  unfold Index.deleteService
  rw [if_neg hne]
  exact AddressBook.absent_forget_self_iff (b := agent.services) (n := svc.key) (a := svc.clusterIP)

theorem handled_iff (h : Addressed agent) (n : Notification) :
    Handled agent n ↔ Manageable agent n := by
  cases n with
  | podUpdated pod => exact iff_of_true ⟨_, rfl, trivial⟩ trivial
  | serviceUpdated svc => exact iff_of_true ⟨_, rfl, trivial⟩ trivial
  | podDeleted d =>
      cases d with
      | finalStateUnknown key pod =>
          refine iff_of_false ?_ id
          rintro ⟨_, ⟨⟩, -⟩
      | object pod =>
          constructor
          · rintro ⟨_, ⟨⟩, habs⟩ hset
            exact (absent_deletePod_iff h hset).mp (habs hset)
          · intro hcond
            exact ⟨_, rfl, fun hset => (absent_deletePod_iff h hset).mpr (hcond hset)⟩
  | serviceDeleted d =>
      cases d with
      | finalStateUnknown key svc =>
          refine iff_of_false ?_ id
          rintro ⟨_, ⟨⟩, -⟩
      | object svc =>
          constructor
          · rintro ⟨_, ⟨⟩, habs⟩ hset
            exact (absent_deleteService_iff h hset).mp (habs hset)
          · intro hcond
            exact ⟨_, rfl, fun hset => (absent_deleteService_iff h hset).mpr (hcond hset)⟩

end Step

/--
**The handlers cope with a sequence of notifications exactly when each is manageable.**

For any sequence of additions, updates and deletions: no handler panics, and
every deletion makes a settled object disappear, if and only if no deletion is a
tombstone and each settled object that is deleted owns only its own address and
is not on the host's network.
-/
theorem handled_run_iff (ns : List Notification) :
    Along Index.notify Handled Index.empty ns ↔ Along Index.notify Manageable Index.empty ns :=
  along_congr (fun _ _ _ h _ hs => addressed_step h hs) (fun _ n h => handled_iff h n) addressed_init
    ns

/-- A pod is added and its deletion is only found by a relist. -/
theorem tombstone_panics :
    ∃ agent, Index.empty.notify (.podUpdated ⟨"default", "web", "10.244.0.5", false⟩) = some agent ∧
      PodSettled agent ⟨"default", "web", "10.244.0.5", false⟩ ∧
      agent.notify (.podDeleted (.finalStateUnknown "default/web"
        ⟨"default", "web", "10.244.0.5", false⟩)) = none ∧
      ¬ Along Index.notify Handled Index.empty
        [.podUpdated ⟨"default", "web", "10.244.0.5", false⟩,
          .podDeleted (.finalStateUnknown "default/web"
            ⟨"default", "web", "10.244.0.5", false⟩)] := by
  refine ⟨_, rfl, ⟨by decide, fun k info hk hinfo => ?_⟩, rfl, ?_⟩
  · have hne : k ≠ "default/web" := hk
    rw [Index.updatePod, if_neg (by decide)] at hinfo
    exact absurd ((Finmap.lookup_insert_of_ne _ hne).symm.trans hinfo) (by simp [Index.empty])
  · rintro ⟨-, ⟨_, ⟨⟩, -⟩, -⟩

end Kubpf.Agent
