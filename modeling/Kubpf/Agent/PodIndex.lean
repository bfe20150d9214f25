import Kubpf.Agent.Informers

/-!
# The pod index

`podIpToName` is meant to be `podInfo` read backwards. Each handler writes both
maps, but only at the address the notice carries: nothing is done about an
address the pod had before. An update to another address leaves the old entry
behind, and an update to no address leaves both, so that the deletion that
follows, which then carries no address, is passed over.

What keeps the two maps together is therefore a condition on each notice, and it
is found here exactly.
-/

namespace Kubpf.Agent

open Lib

/-- The two maps agree, and neither mentions a pod whose last notice is its deletion. -/
structure PodsTracked (past : List (Notice Pod)) : Prop where
  /-- Whoever owns an address is known to have it. -/
  owned : ∀ ip k, (podIndex past).podIpToName.lookup ip = some k →
    ∃ info, (podIndex past).podInfo.lookup k = some info ∧ info.podIP = ip
  /-- Pods that are gone are forgotten. -/
  gone : ∀ k, podRegistry.Gone k past →
    (podIndex past).podInfo.lookup k = none ∧ ∀ ip, (podIndex past).podIpToName.lookup ip ≠ some k

/-- The pod is entered under no address but the one the notice carries; a deletion that carries
none finds the pod not entered at all. -/
def AddressStands (agent : Index) (ev : Notice Pod) : Prop :=
  if (podRegistry.addr ev.object).isSome then
    ∀ ip, agent.podIpToName.lookup ip = some ev.object.key → ip = ev.object.podIP
  else
    match ev with
    | .updated _ => True
    | .deleted pod => agent.podInfo.lookup pod.key = none

theorem podsTracked_init : PodsTracked [] where
  owned := by intro ip k h; exact absurd h (by simp [podIndex, Index.empty])
  gone := by rintro k ⟨pod, h⟩; cases h

theorem podsTracked_iff_book {past : List (Notice Pod)} :
    PodsTracked past ↔ (podIndex past).pods.Consistent PodInfo.podIP ∧
      ∀ k, podRegistry.Gone k past → (podIndex past).pods.Absent k :=
  ⟨fun h => ⟨h.owned, h.gone⟩, fun h => ⟨h.1, h.2⟩⟩

section Step

variable {past : List (Notice Pod)} {ev : Notice Pod}

/-- A notice that is passed over. -/
theorem podsTracked_skip_iff (h : PodsTracked past) (hskip : podRegistry.addr ev.object = none) :
    PodsTracked (past ++ [ev]) ↔ AddressStands (podIndex past) ev := by
  obtain ⟨hcons, hgone⟩ := podsTracked_iff_book.mp h
  have hbook : (podIndex (past ++ [ev])).pods = (podIndex past).pods := by
    rw [podIndex_concat, pods_onPod, Registry.apply_of_none hskip]
  unfold AddressStands
  rw [podsTracked_iff_book, hbook, hskip, Option.isSome_none, if_neg Bool.false_ne_true]
  cases ev with
  | updated pod =>
      refine iff_of_true ⟨hcons, fun k hk => ?_⟩ trivial
      rw [Registry.gone_concat] at hk
      split_ifs at hk
      · obtain ⟨_, ⟨⟩⟩ := hk
      · exact hgone k hk
  | deleted pod =>
      constructor
      · rintro ⟨-, hgone'⟩
        exact (hgone' pod.key ((Registry.gone_concat _).mpr (by simp [podRegistry]))).1
      · intro hnone
        refine ⟨hcons, fun k hk => ?_⟩
        rw [Registry.gone_concat] at hk
        split_ifs at hk with hkey
        · exact hcons.absent_iff.mpr (hkey ▸ hnone)
        · exact hgone k hk

/-- A notice that is not. -/
theorem podsTracked_apply_iff {ip : String} (h : PodsTracked past)
    (haddr : podRegistry.addr ev.object = some ip) :
    PodsTracked (past ++ [ev]) ↔ AddressStands (podIndex past) ev := by
  obtain ⟨hcons, hgone⟩ := podsTracked_iff_book.mp h
  obtain ⟨-, -, rfl⟩ := podRegistry_addr_eq_some.mp haddr
  have hiff := Registry.consistent_apply_iff hcons haddr rfl
  unfold AddressStands
  rw [podsTracked_iff_book, podIndex_concat, pods_onPod, haddr, Option.isSome_some, if_pos rfl]
  constructor
  · rintro ⟨hcons', -⟩
    exact hiff.mp hcons'
  · intro honly
    refine ⟨hiff.mpr honly, fun k hk => ?_⟩
    rw [Registry.gone_concat] at hk
    split_ifs at hk with hkey
    · obtain ⟨pod, rfl⟩ := hk
      rw [Notice.object_deleted] at haddr honly hkey
      rw [Registry.apply_deleted haddr, ← hkey]
      exact AddressBook.absent_forget_self_iff.mpr honly
    · exact Registry.Absent.apply (hgone k hk) (Ne.symm hkey)

theorem podsTracked_concat_iff (h : PodsTracked past) :
    PodsTracked (past ++ [ev]) ↔ AddressStands (podIndex past) ev := by
  cases haddr : podRegistry.addr ev.object with
  | none => exact podsTracked_skip_iff h haddr
  | some ip => exact podsTracked_apply_iff h haddr

end Step

/--
**The pod index is right all along exactly when every notice finds the pod where it says.**

For any history of notices, whatever the order: `podIpToName` stays the inverse
of `podInfo`, and deleted pods are in neither, if and only if at each notice with
an address the pod is entered under that address alone, and at each deletion
without one it is not entered.
-/
theorem podsTracked_iff (evs : List (Notice Pod)) :
    (∀ past, past <+: evs → PodsTracked past)
      ↔ ∀ past ev, past ++ [ev] <+: evs → AddressStands (podIndex past) ev :=
  forall_prefix_iff podsTracked_init (fun _ h => h) (fun _ _ _ h => podsTracked_concat_iff h)
    (fun _ _ _ h hcond => (podsTracked_concat_iff h).mpr hcond)

/-- A pod with an address. -/
def webPod (podIP : String) : Pod := ⟨"default", "web", podIP, false⟩

/-- A pod is added, gets another address, and is deleted: its first address stays. -/
theorem first_address_stays :
    podRegistry.InOrder [.updated (webPod "10.244.0.5"), .updated (webPod "10.244.0.9"),
      .deleted (webPod "10.244.0.9")] ∧
    (podIndex [.updated (webPod "10.244.0.5"), .updated (webPod "10.244.0.9"),
      .deleted (webPod "10.244.0.9")]).podIpToName.lookup "10.244.0.5" = some "default/web" ∧
    ¬ PodsTracked [.updated (webPod "10.244.0.5"), .updated (webPod "10.244.0.9"),
      .deleted (webPod "10.244.0.9")] := by
  have hstays : (podIndex [.updated (webPod "10.244.0.5"), .updated (webPod "10.244.0.9"),
      .deleted (webPod "10.244.0.9")]).podIpToName.lookup "10.244.0.5" = some "default/web" := by
    decide
  refine ⟨?_, hstays, ?_⟩
  · exact ((Registry.inOrder_nil.updated (webPod "10.244.0.5")).updated
      (webPod "10.244.0.9")).deleted (webPod "10.244.0.9") (by decide)
  · intro h
    obtain ⟨info, hinfo, -⟩ := h.owned _ _ hstays
    have hnone : (podIndex [.updated (webPod "10.244.0.5"), .updated (webPod "10.244.0.9"),
        .deleted (webPod "10.244.0.9")]).podInfo.lookup "default/web" = none := by
      decide
    exact absurd (hnone.symm.trans hinfo) (by simp)

end Kubpf.Agent
