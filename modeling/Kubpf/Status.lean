import Kubpf.KeyLayout
import Kubpf.Agent.Informers

/-!
# The status page

`/status` answers with the number of pods in `podInfo`, under the mutex that the
pod informer's handlers take, so that it is the number after some of the notices.
It is meant to be the number of pods on the node that have an address of their
own. The handlers pass over a notice that carries no address, and then it is not:
a pod that loses its address is still counted, and also after its deletion, which
carries none either. There is no other way to go wrong
(`status_counts_pods_iff`).
-/

namespace Kubpf

open Lib Agent

/-! ## The server -/

/-- `agentStatus`. -/
structure AgentStatus where
  podCount : Nat

/-- `json.NewEncoder(w).Encode`: `omitempty` leaves a zero out, and a line end follows. -/
def AgentStatus.encode (status : AgentStatus) : String :=
  if status.podCount = 0 then "\x7b\x7d\n"
  else "\x7b\"pod-count\":" ++ Nat.repr status.podCount ++ "\x7d\n"

structure Response where
  contentType : String
  body : String
  deriving DecidableEq, Repr

/-- What is written for a status. -/
def respond (status : AgentStatus) : Response where
  contentType := "application/json"
  body := status.encode

/-- The handler of `/status`. -/
def handleStatus (agent : Index) : Response := respond { podCount := agent.podInfo.keys.card }

/-- **The page tells the number.** -/
theorem respond_injective : Function.Injective respond := by
  intro status status' h
  obtain ⟨m⟩ := status
  obtain ⟨n⟩ := status'
  have hbody : AgentStatus.encode ⟨m⟩ = AgentStatus.encode ⟨n⟩ := congrArg Response.body h
  have hshort : ∀ k : Nat, "\x7b\x7d\n" ≠ "\x7b\"pod-count\":" ++ Nat.repr k ++ "\x7d\n" := by
    intro k hk
    have hlen := congrArg String.length hk
    rw [String.length_append, String.length_append] at hlen
    have hends : "\x7b\x7d\n".length = 3 ∧ "\x7b\"pod-count\":".length = 13 := by decide
    omega
  refine congrArg AgentStatus.mk ?_
  unfold AgentStatus.encode at hbody
  dsimp only at hbody
  split_ifs at hbody with hm hn hn
  · exact hm.trans hn.symm
  · exact absurd hbody (hshort n)
  · exact absurd hbody.symm (hshort m)
  · rw [String.append_left_inj, String.append_right_inj] at hbody
    exact eq_of_repr_eq hbody

/-! ## The pods there are -/

/-- The last that was heard of the pod is that it is there, with an address of its own. -/
def PodAlive (past : List (Notice Pod)) (k : String) : Prop :=
  match podRegistry.lastNotice k past with
  | some (.updated pod) => (podRegistry.addr pod).isSome
  | _ => False

instance (past : List (Notice Pod)) : DecidablePred (PodAlive past) := fun k => by
  unfold PodAlive
  split <;> infer_instance

/-- The pods on the node that have an address of their own. -/
def alivePods (past : List (Notice Pod)) : Finset String :=
  (past.map fun ev => ev.object.key).toFinset.filter (PodAlive past)

theorem podAlive_concat {past : List (Notice Pod)} {ev : Notice Pod} {k : String} :
    PodAlive (past ++ [ev]) k
      ↔ if ev.object.key = k then ∃ pod, ev = .updated pod ∧ (podRegistry.addr pod).isSome
        else PodAlive past k := by
  have hlast : podRegistry.lastNotice k (past ++ [ev])
      = if ev.object.key = k then some ev else podRegistry.lastNotice k past :=
    podRegistry.lastNotice_concat k past ev
  unfold PodAlive
  rw [hlast]
  by_cases hk : ev.object.key = k
  · rw [if_pos hk, if_pos hk]
    cases ev with
    | updated pod => simp
    | deleted pod => simp
  · rw [if_neg hk, if_neg hk]

theorem mem_alivePods {past : List (Notice Pod)} {k : String} :
    k ∈ alivePods past ↔ PodAlive past k := by
  rw [alivePods, Finset.mem_filter, List.mem_toFinset]
  refine and_iff_right_of_imp fun h => ?_
  induction past using List.reverseRecOn with
  | nil => exact absurd h id
  | append_singleton past ev ih =>
      rw [podAlive_concat] at h
      rw [List.map_append, List.mem_append]
      split_ifs at h with hk
      · exact Or.inr (List.mem_singleton.mpr hk.symm)
      · exact Or.inl (ih h)

/-! ## The pods that are counted -/

theorem mem_podInfo {past : List (Notice Pod)} {k : String} :
    k ∈ (podIndex past).podInfo.keys
      ↔ ∃ pod, podRegistry.lastOf k past = some (.updated pod) := by
  have hinfo : (podIndex past).podInfo.lookup k = (podRegistry.book past).info.lookup k :=
    congrArg (fun b : AddressBook String String PodInfo => b.info.lookup k) (pods_podIndex past)
  rw [Finmap.mem_keys, ← Finmap.lookup_isSome, hinfo, Registry.info_book]
  cases podRegistry.lastOf k past with
  | none => simp
  | some ev => cases ev <;> simp

theorem mem_podInfo_concat {past : List (Notice Pod)} {ev : Notice Pod} {k : String} :
    k ∈ (podIndex (past ++ [ev])).podInfo.keys
      ↔ if ev.object.key = k ∧ (podRegistry.addr ev.object).isSome then ∃ pod, ev = .updated pod
        else k ∈ (podIndex past).podInfo.keys := by
  have hlast := podRegistry.lastOf_concat k past ev
  rw [mem_podInfo, hlast, mem_podInfo]
  have hname : podRegistry.name ev.object = ev.object.key := rfl
  rw [hname]
  split_ifs
  · simp
  · rfl

/-- No pod that is there goes uncounted. -/
theorem alivePods_subset (past : List (Notice Pod)) :
    alivePods past ⊆ (podIndex past).podInfo.keys := by
  induction past using List.reverseRecOn with
  | nil =>
      intro k hk
      exact absurd (mem_alivePods.mp hk) id
  | append_singleton past ev ih =>
      intro k hk
      have halive := mem_alivePods.mp hk
      rw [podAlive_concat] at halive
      rw [mem_podInfo_concat]
      split_ifs at halive with hkey
      · obtain ⟨pod, rfl, haddr⟩ := halive
        rw [if_pos ⟨hkey, haddr⟩]
        exact ⟨pod, rfl⟩
      · rw [if_neg fun h => hkey h.1]
        exact ih (mem_alivePods.mpr halive)

/-- The page shows the number of pods. -/
def ShowsPods (past : List (Notice Pod)) : Prop :=
  handleStatus (podIndex past) = respond { podCount := (alivePods past).card }

/-- It does where no other pods are counted. -/
theorem showsPods_iff {past : List (Notice Pod)} :
    ShowsPods past ↔ (podIndex past).podInfo.keys = alivePods past := by
  constructor
  · intro h
    have hcard := congrArg AgentStatus.podCount (respond_injective h)
    exact (Finset.eq_of_subset_of_card_le (alivePods_subset past) (Nat.le_of_eq hcard)).symm
  · intro h
    unfold ShowsPods handleStatus
    rw [h]

/-- A notice without an address is about a pod that is not counted. -/
def AddressKept (agent : Index) (ev : Notice Pod) : Prop :=
  podRegistry.addr ev.object = none → agent.podInfo.lookup ev.object.key = none

theorem showsPods_concat_iff {past : List (Notice Pod)} {ev : Notice Pod} (h : ShowsPods past) :
    ShowsPods (past ++ [ev]) ↔ AddressKept (podIndex past) ev := by
  have hkeys := showsPods_iff.mp h
  rw [showsPods_iff]
  cases haddr : podRegistry.addr ev.object with
  | none =>
      have hcounted : (podIndex (past ++ [ev])).podInfo.keys = alivePods past := by
        ext k
        rw [mem_podInfo_concat, haddr, if_neg fun hk => Bool.false_ne_true hk.2, hkeys]
      have halive : ∀ k, k ∈ alivePods (past ++ [ev]) ↔ k ≠ ev.object.key ∧ k ∈ alivePods past := by
        intro k
        rw [mem_alivePods, podAlive_concat, mem_alivePods]
        split_ifs with hk
        · refine iff_of_false ?_ fun hc => hc.1 hk.symm
          rintro ⟨pod, rfl, hsome⟩
          rw [Notice.object_updated] at haddr
          rw [haddr] at hsome
          cases hsome
        · exact (and_iff_right (Ne.symm hk)).symm
      rw [hcounted, AddressKept, Finset.ext_iff]
      constructor
      · intro heq _
        by_contra hsome
        have hmem : ev.object.key ∈ alivePods past := by
          rw [← hkeys, Finmap.mem_keys, ← Finmap.lookup_isSome]
          exact Option.isSome_iff_ne_none.mpr hsome
        exact ((halive _).mp ((heq _).mp hmem)).1 rfl
      · intro hnone k
        rw [halive]
        refine (and_iff_right_of_imp ?_).symm
        rintro hk rfl
        rw [← hkeys, Finmap.mem_keys, ← Finmap.lookup_isSome, hnone haddr] at hk
        cases hk
  | some ip =>
      refine iff_of_true ?_ fun hnone => by rw [haddr] at hnone; cases hnone
      ext k
      rw [mem_podInfo_concat, haddr, mem_alivePods, podAlive_concat]
      by_cases hk : ev.object.key = k
      · rw [if_pos ⟨hk, rfl⟩, if_pos hk]
        refine exists_congr fun pod => (and_iff_left_of_imp ?_).symm
        rintro rfl
        exact Option.isSome_of_eq_some haddr
      · rw [if_neg fun hc => hk hc.1, if_neg hk, hkeys, mem_alivePods]

theorem showsPods_init : ShowsPods [] := by
  rw [showsPods_iff]
  rfl

/--
**The status page is right all along exactly when no counted pod loses its address.**

For any history of pod notices, in any order: after each of them `/status` shows
the number of pods whose last notice is an update with an address of their own,
if and only if each notice without one, update or deletion, is about a pod that is
not counted at that time. Different numbers are shown differently.
-/
theorem status_counts_pods_iff (evs : List (Notice Pod)) :
    Function.Injective respond ∧
    ((∀ past, past <+: evs → ShowsPods past)
      ↔ ∀ past ev, past ++ [ev] <+: evs → AddressKept (podIndex past) ev) := by
  refine ⟨respond_injective, ?_⟩
  exact forall_prefix_iff showsPods_init (fun _ h => h) (fun _ _ _ h => showsPods_concat_iff h)
    (fun _ _ _ h hcond => (showsPods_concat_iff h).mpr hcond)

/-- A pod gets its address, loses it and is deleted: it is counted ever after. -/
example : handleStatus (podIndex [.updated ⟨"default", "job-1", "10.244.0.5", false⟩,
    .updated ⟨"default", "job-1", "", false⟩, .deleted ⟨"default", "job-1", "", false⟩])
      = ⟨"application/json", "\x7b\"pod-count\":1\x7d\n"⟩ := by decide

end Kubpf
