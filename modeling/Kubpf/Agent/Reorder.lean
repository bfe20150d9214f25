import Kubpf.Agent.Informers

/-!
# Reordered notices

Notices about one object come in order; notices about different objects come as
they please. What is known of each object does not depend on how they interleave.
Who owns an address does: a deletion strikes out the address whoever owns it by
then, so when an address passes from one object to another, everything hangs on
the first one's deletion being processed before the second one's arrival.
-/

namespace Kubpf.Agent

open Lib

/-- Deleting a pod leaves every address that leads to another pod. -/
def PodDeletesSpare (evs : List (Notice Pod)) : Prop :=
  ∀ past pod, past ++ [.deleted pod] <+: evs →
    ∀ ip k, (podIndex past).podIpToName.lookup ip = some k → k ≠ pod.key →
      (podIndex (past ++ [.deleted pod])).podIpToName.lookup ip = some k

/-- Deleting a service leaves every address that leads to another service. -/
def SvcDeletesSpare (evs : List (Notice Service)) : Prop :=
  ∀ past svc, past ++ [.deleted svc] <+: evs →
    ∀ ip k, (svcIndex past).svcIpToName.lookup ip = some k → k ≠ svc.key →
      (svcIndex (past ++ [.deleted svc])).svcIpToName.lookup ip = some k

theorem podDeletesSpare_iff {evs : List (Notice Pod)} :
    PodDeletesSpare evs ↔ podRegistry.NeverSteals evs := by
  unfold PodDeletesSpare Registry.NeverSteals
  simp only [← pods_podIndex]
  exact Iff.rfl

theorem svcDeletesSpare_iff {evs : List (Notice Service)} :
    SvcDeletesSpare evs ↔ svcRegistry.NeverSteals evs := by
  unfold SvcDeletesSpare Registry.NeverSteals
  simp only [← services_svcIndex]
  exact Iff.rfl

/--
**The order of notices makes no difference exactly when no deletion comes too late.**

For any two sequences with the same notices in the same order for each object,
where objects keep their addresses while they live: both end with the same maps,
and on the way no deletion takes an address from another object, if and only if
each live object is the one heard of last at its address in both sequences or in
neither, and no deletion directly follows another object's update at its address.
-/
theorem reorder_iff (s t : List (Notice Pod)) (s' t' : List (Notice Service)) :
    (podRegistry.SameOrder s t → podRegistry.FixedAddr s →
      (((podIndex s).podInfo = (podIndex t).podInfo ∧
          (podIndex s).podIpToName = (podIndex t).podIpToName ∧
          PodDeletesSpare s ∧ PodDeletesSpare t)
        ↔ podRegistry.Harmless s t)) ∧
    (svcRegistry.SameOrder s' t' → svcRegistry.FixedAddr s' →
      (((svcIndex s').svcInfo = (svcIndex t').svcInfo ∧
          (svcIndex s').svcIpToName = (svcIndex t').svcIpToName ∧
          SvcDeletesSpare s' ∧ SvcDeletesSpare t')
        ↔ svcRegistry.Harmless s' t')) := by
  refine ⟨fun hsame hfixed => ?_, fun hsame hfixed => ?_⟩
  · rw [← hsame.harmless_iff hfixed, ← pods_podIndex, ← pods_podIndex, podDeletesSpare_iff,
      podDeletesSpare_iff]
    rfl
  · rw [← hsame.harmless_iff hfixed, ← services_svcIndex, ← services_svcIndex,
      svcDeletesSpare_iff, svcDeletesSpare_iff]
    rfl

/-- A pod of a job. -/
def jobPod (name podIP : String) : Pod := ⟨"default", name, podIP, false⟩

theorem reorder_iff_two_pods :
    (podIndex [.updated (jobPod "job-1" "10.244.0.5"),
        .updated (jobPod "job-2" "10.244.0.6")]).podIpToName
      = (podIndex [.updated (jobPod "job-2" "10.244.0.6"),
        .updated (jobPod "job-1" "10.244.0.5")]).podIpToName := by
  refine (((reorder_iff _ _ [] []).1 (Registry.sameOrder_swap (by decide) [] [])
    (Registry.fixedAddr_of_forall (by decide))).mpr ⟨?_, ?_, ?_⟩).2.1
  · rintro k ip ⟨pod, hlive, hip⟩
    obtain ⟨l₁, l₂, hl, hk, -⟩ := findRev?_eq_some_iff.mp hlive
    have hmem : Notice.updated pod ∈ [Notice.updated (jobPod "job-1" "10.244.0.5"),
        .updated (jobPod "job-2" "10.244.0.6")] := by
      simp only [List.nil_append] at hl
      rw [hl]
      simp
    have hk : podRegistry.name pod = k := (of_decide_eq_true hk).1
    simp only [List.mem_cons, Notice.updated.injEq, List.not_mem_nil, or_false] at hmem
    rcases hmem with rfl | rfl
    · obtain rfl := Option.some.inj (hip.symm.trans (by decide :
        podRegistry.addr (jobPod "job-1" "10.244.0.5") = some "10.244.0.5"))
      exact iff_of_true ⟨_, rfl, hk⟩ ⟨_, rfl, hk⟩
    · obtain rfl := Option.some.inj (hip.symm.trans (by decide :
        podRegistry.addr (jobPod "job-2" "10.244.0.6") = some "10.244.0.6"))
      exact iff_of_true ⟨_, rfl, hk⟩ ⟨_, rfl, hk⟩
  · intro past pod hp
    exact absurd (hp.subset (List.mem_append_right _ (List.mem_singleton_self _))) (by simp)
  · intro past pod hp
    exact absurd (hp.subset (List.mem_append_right _ (List.mem_singleton_self _))) (by simp)

/-- A job's pod is gone, the next one has its address, and the notices of the one's deletion and
the other's arrival come either way round: the address leads to nobody, or to the new pod. -/
def lateDeletion : List (Notice Pod) :=
  [.updated (jobPod "job-1" "10.244.0.5"), .updated (jobPod "job-2" "10.244.0.5"),
    .deleted (jobPod "job-1" "10.244.0.5")]

def earlyDeletion : List (Notice Pod) :=
  [.updated (jobPod "job-1" "10.244.0.5"), .deleted (jobPod "job-1" "10.244.0.5"),
    .updated (jobPod "job-2" "10.244.0.5")]

theorem late_deletion_steals :
    podRegistry.SameOrder lateDeletion earlyDeletion ∧ podRegistry.FixedAddr lateDeletion ∧
    podRegistry.InOrder lateDeletion ∧ podRegistry.InOrder earlyDeletion ∧
    (∀ k k' ip, podRegistry.LiveAt k ip lateDeletion → podRegistry.LiveAt k' ip lateDeletion →
      k = k') ∧
    (podIndex lateDeletion).podIpToName.lookup "10.244.0.5" = none ∧
    (podIndex earlyDeletion).podIpToName.lookup "10.244.0.5" = some "default/job-2" ∧
    ¬ PodDeletesSpare lateDeletion := by
  have hlate : (podIndex lateDeletion).podIpToName.lookup "10.244.0.5" = none := by decide
  have hfirst : podRegistry.InOrder ([] ++ [.updated (jobPod "job-1" "10.244.0.5")]) :=
    Registry.inOrder_nil.updated _
  refine ⟨Registry.sameOrder_swap (by decide) [_] [], Registry.fixedAddr_of_forall (by decide),
    ?_, ?_, ?_, hlate, by decide, ?_⟩
  · exact (hfirst.updated (jobPod "job-2" "10.244.0.5")).deleted (jobPod "job-1" "10.244.0.5")
      (by decide)
  · exact (hfirst.deleted (jobPod "job-1" "10.244.0.5") (by decide)).updated
      (jobPod "job-2" "10.244.0.5")
  · -- only the second pod is live
    have hlive : ∀ k ip, podRegistry.LiveAt k ip lateDeletion → k = "default/job-2" := by
      rintro k ip ⟨pod, hlive, -⟩
      obtain ⟨l₁, l₂, hl, hk, -⟩ := findRev?_eq_some_iff.mp hlive
      have hmem : Notice.updated pod ∈ lateDeletion := by
        rw [hl]
        simp
      obtain rfl : podRegistry.name pod = k := (of_decide_eq_true hk).1
      simp only [lateDeletion, List.mem_cons, Notice.updated.injEq, List.not_mem_nil, or_false,
        reduceCtorEq] at hmem
      rcases hmem with rfl | rfl
      · have hgone : podRegistry.lastOf "default/job-1" lateDeletion
            = some (.deleted (jobPod "job-1" "10.244.0.5")) := by decide
        exact absurd (hgone.symm.trans hlive) (by simp)
      · rfl
    exact fun k k' ip h h' => (hlive k ip h).trans (hlive k' ip h').symm
  · intro hspare
    have hown := hspare [.updated (jobPod "job-1" "10.244.0.5"),
      .updated (jobPod "job-2" "10.244.0.5")] (jobPod "job-1" "10.244.0.5") (List.prefix_refl _)
      "10.244.0.5" "default/job-2" (by decide) (by decide)
    exact absurd (hlate.symm.trans hown) (by simp)

end Kubpf.Agent
