import Kubpf.Agent.Merged
import Kubpf.Kernel.Formats
import Kubpf.System

/-!
# Deleting what has been read

An eviction carries out a decision of an earlier scan, and the kernel has kept
counting. What it deletes has been read exactly if the last scan saw it as it is:
no packet of the flow has been counted since, and no failed deletion has taken
the agent's copy away.

Two relations between the kernel's counters and the agent's copy hold in every
run. An entry the last scan saw is copied (`Synced.read`), and a copy is behind
the kernel by the packets counted since (`Synced.behind`). The first makes the
condition enough; the second makes it necessary.
-/

namespace Kubpf

open Lib Kernel Agent

/-! ## Since the last scan -/

/-- There has been a scan, and since then the flow has neither been counted nor survived a
deletion. -/
def Fresh (K : InetV4Flow) : List Event → Prop
  | [] => False
  | .scanned _ :: _ => True
  | .counted key _ :: es => key ≠ K ∧ Fresh K es
  | .kept key :: es => key ≠ K ∧ Fresh K es
  | .reported _ _ :: es => Fresh K es
  | .merged _ _ _ _ _ :: es => Fresh K es
  | .dropped _ :: es => Fresh K es

/-- What has been counted for the flow since the last scan. -/
def unread (K : InetV4Flow) : List Event → FlowStatsOf Nat
  | [] => 0
  | .scanned _ :: _ => 0
  | .counted key stats :: es => (if key = K then stats else 0) + unread K es
  | .kept _ :: es => unread K es
  | .reported _ _ :: es => unread K es
  | .merged _ _ _ _ _ :: es => unread K es
  | .dropped _ :: es => unread K es

instance Fresh.decidable (K : InetV4Flow) : ∀ es, Decidable (Fresh K es)
  | [] => .isFalse id
  | .scanned _ :: _ => .isTrue trivial
  | .counted key _ :: es =>
    have := Fresh.decidable K es
    inferInstanceAs (Decidable (key ≠ K ∧ Fresh K es))
  | .kept key :: es =>
    have := Fresh.decidable K es
    inferInstanceAs (Decidable (key ≠ K ∧ Fresh K es))
  | .reported _ _ :: es => Fresh.decidable K es
  | .merged _ _ _ _ _ :: es => Fresh.decidable K es
  | .dropped _ :: es => Fresh.decidable K es

theorem fresh_dropped (K : InetV4Flow) (ks : List InetV4Flow) (tr : List Event) :
    Fresh K (ks.foldl (fun tr k => .dropped k :: tr) tr) ↔ Fresh K tr := by
  induction ks generalizing tr with
  | nil => rfl
  | cons k ks ih => exact ih _

theorem unread_dropped (K : InetV4Flow) (ks : List InetV4Flow) (tr : List Event) :
    unread K (ks.foldl (fun tr k => .dropped k :: tr) tr) = unread K tr := by
  induction ks generalizing tr with
  | nil => rfl
  | cons k ks ih => exact ih _

theorem fresh_kept (K : InetV4Flow) (ks : List InetV4Flow) (tr : List Event) :
    Fresh K (ks.map .kept ++ tr) ↔ K ∉ ks ∧ Fresh K tr := by
  induction ks with
  | nil => simp
  | cons k ks ih =>
      rw [List.map_cons, List.cons_append, Fresh, ih, List.mem_cons, not_or, and_assoc]
      exact and_congr_left' ne_comm

theorem unread_kept (K : InetV4Flow) (ks : List InetV4Flow) (tr : List Event) :
    unread K (ks.map .kept ++ tr) = unread K tr := by
  induction ks with
  | nil => rfl
  | cons k ks ih => exact ih

/-! ## The kernel's counters and the agent's copy -/

/-- What holds between the map and `baseMap` however the steps are ordered. -/
structure Synced (w : World) : Prop where
  /-- What the last scan saw, and nothing has touched since, is copied. -/
  read : ∀ K v, w.maps.v4FlowMap.val K = some v → Fresh K w.agent.trace →
    ∃ e, w.agent.metric.baseMap.val K = some e ∧ e.stats = v
  /-- A copy lacks what has been counted since the last scan. -/
  behind : ∀ K e, w.agent.metric.baseMap.val K = some e →
    w.maps.v4FlowMap.val K = some (e.stats + FlowStatsOf.ofNat (unread K w.agent.trace)) ∧
    (Fresh K w.agent.trace ∨ 0 < FlowStatsOf.packets (unread K w.agent.trace))

/-- A new agent has copied nothing, whatever the kernel has counted before it started. -/
theorem synced_fresh (maps : FlowMaps) (index : Index) :
    Synced { maps := maps, agent := freshAgent index } := by
  refine ⟨?_, ?_⟩
  · intro K v _ hfresh
    exact hfresh.elim
  · intro K e he
    exact absurd ((PtrMap.val_empty K).symm.trans he) (by simp)

theorem synced_init (index : Index) : Synced (World.init index) :=
  synced_fresh FlowMaps.empty index

theorem synced_packet {w : World} (h : Synced w) (skb : SkBuff) (dir : CgroupDirection) :
    Synced
      { maps := bpfFlowReader skb dir w.maps
        agent := { w.agent with trace := countedBy w.maps skb dir ++ w.agent.trace } } := by
  rcases val_v4_bpfFlowReader w.maps skb dir with ⟨key, htr, hval⟩ | ⟨htr, hval⟩
  · refine ⟨?_, ?_⟩
    · intro K v hv hfresh
      rw [htr] at hfresh
      obtain ⟨hne, hfresh⟩ := hfresh
      dsimp only at hv
      rw [hval, Function.update_of_ne (Ne.symm hne)] at hv
      exact h.read K v hv hfresh
    · intro K e he
      obtain ⟨hbehind, hsince⟩ := h.behind K e he
      dsimp only
      rw [htr, hval]
      by_cases hk : key = K
      · subst hk
        refine ⟨?_, Or.inr ?_⟩
        · -- the packet is added behind what was unread before
          rw [Function.update_self, hbehind, List.singleton_append, unread, if_pos rfl,
            FlowStatsOf.ofNat_add, add_comm (FlowStatsOf.ofNat (packetStats skb.len dir)),
            ← add_assoc]
          rfl
        · rw [List.singleton_append, unread, if_pos rfl, FlowStatsOf.packets_add,
            packets_packetStats]
          omega
      · rw [Function.update_of_ne (Ne.symm hk), List.singleton_append, unread, if_neg hk, zero_add]
        exact ⟨hbehind, hsince.imp (fun hf => ⟨hk, hf⟩) id⟩
  · refine ⟨?_, ?_⟩
    · intro K v hv hfresh
      rw [htr] at hfresh
      dsimp only at hv
      rw [hval] at hv
      exact h.read K v hv hfresh
    · intro K e he
      dsimp only
      rw [htr, hval]
      exact h.behind K e he

theorem synced_scan {w : World} (h : Synced w) (input : ScanInput)
    (hreads : ReadsMap w.maps.v4FlowMap input.reports) :
    Synced
      { w with
        agent :=
          { metric := (finishScan input (w.agent.scanned input)).1
            pending := w.agent.pending ++ [(finishScan input (w.agent.scanned input)).2]
            trace := .scanned input.t :: (w.agent.scanned input).trace } } := by
  obtain ⟨hnd, hval, hall⟩ := hreads
  obtain ⟨hrep, hother⟩ := @stored_scanFlows input.t input.reports
    { metric := w.agent.metric, toDeleteList := [], trace := w.agent.trace } hnd
  have hread : ∀ K v, w.maps.v4FlowMap.val K = some v →
      ∃ e, (w.agent.scanned input).metric.baseMap.val K = some e ∧ e.stats = v := by
    intro K v hv
    have hK : K ∈ w.maps.v4FlowMap.table.keys :=
      BpfHash.mem_keys.mpr (Option.isSome_of_eq_some hv)
    obtain ⟨r, hr, rfl⟩ := List.mem_map.mp (hall K hK)
    obtain ⟨e, he, hes⟩ := hrep r hr
    exact ⟨e, he, hes.trans (Option.some.inj ((hval r hr).symm.trans hv))⟩
  refine ⟨fun K v hv _ => hread K v hv, ?_⟩
  intro K e he
  -- a key of `baseMap` is in the map: it was there before, or it has just been read
  obtain ⟨v, hv⟩ : ∃ v, w.maps.v4FlowMap.val K = some v := by
    by_cases hK : K ∈ input.reports.map Prod.fst
    · obtain ⟨r, hr, rfl⟩ := List.mem_map.mp hK
      exact ⟨r.2, hval r hr⟩
    · exact ⟨_, (h.behind K e ((hother K hK).symm.trans he)).1⟩
  obtain ⟨e', he', hes⟩ := hread K v hv
  have hee : e' = e := Option.some.inj (he'.symm.trans he)
  subst hee
  refine ⟨?_, Or.inl trivial⟩
  rw [hes, unread, FlowStatsOf.ofNat_zero, add_zero]
  exact hv

theorem synced_evict {w : World} (h : Synced w) (n : Nat) (failing : List InetV4Flow)
    (ev : Eviction) :
    Synced
      { maps := { w.maps with
          v4FlowMap := ev.toDeleteList.foldl (deleteFlow failing) w.maps.v4FlowMap }
        agent :=
          { metric := evictEntries ev w.agent.metric
            pending := w.agent.pending.eraseIdx n
            trace := keptBy failing w.maps.v4FlowMap ev.toDeleteList
              ++ ev.toDeleteList.foldl (fun trace k => .dropped k :: trace) w.agent.trace } } := by
  refine ⟨?_, ?_⟩
  · intro K v hv hfresh
    dsimp only at hv hfresh
    rw [keptBy, fresh_kept, fresh_dropped] at hfresh
    obtain ⟨hkept, hfresh⟩ := hfresh
    rw [val_foldl_deleteFlow] at hv
    split_ifs at hv with hdel
    -- what is still there was not on the list: a failed deletion would have been noted
    have hlist : K ∉ ev.toDeleteList := by
      intro hmem
      by_cases hfail : K ∈ failing
      · exact hkept (List.mem_filter.mpr ⟨hmem, by simp [hfail, hv]⟩)
      · exact hdel ⟨hmem, hfail⟩
    dsimp only
    rw [val_baseMap_evictEntries, if_neg hlist]
    exact h.read K v hv hfresh
  · intro K e he
    dsimp only at he ⊢
    obtain ⟨hlist, he⟩ := baseMap_evictEntries_eq_some.mp he
    have hkept : K ∉ ev.toDeleteList.filter
        fun k => k ∈ failing ∧ (w.maps.v4FlowMap.val k).isSome :=
      fun hmem => hlist (List.mem_filter.mp hmem).1
    rw [val_foldl_deleteFlow, if_neg (fun hdel => hlist hdel.1), keptBy, fresh_kept, unread_kept,
      fresh_dropped, unread_dropped]
    obtain ⟨hbehind, hsince⟩ := h.behind K e he
    exact ⟨hbehind, hsince.imp (fun hf => ⟨hkept, hf⟩) id⟩

theorem synced_step {w w' : World} {l : Label} (h : Synced w) (hs : w.step l = some w') :
    Synced w' := by
  cases World.step_inv hs with
  | packet skb dir => exact synced_packet h skb dir
  | scan input hreads _ => exact synced_scan h input hreads
  | evictFails n failing ev hev => exact ⟨h.read, h.behind⟩
  | evict n failing ev hev => exact synced_evict h n failing ev
  | informer index => exact ⟨h.read, h.behind⟩

/-! ## Evictions -/

/-- Whenever the step deletes an entry from the map, the agent's copy of it is up to date. The
loop visits each key of its list once, so what holds of a key before the loop holds at its
turn. -/
def DeletesRead (w : World) : Label → Prop
  | .evict n false failing =>
    ∀ ev ∈ w.agent.pending[n]?, ∀ K ∈ ev.toDeleteList, K ∉ failing →
      (w.maps.v4FlowMap.val K).isSome →
        (w.agent.metric.baseMap.val K).map FlowStatsEntry.stats = w.maps.v4FlowMap.val K
  | _ => True

/-- Whatever the step deletes from the map has not been touched since the last scan. -/
def DeletesFresh (w : World) : Label → Prop
  | .evict n false failing =>
    ∀ ev ∈ w.agent.pending[n]?, ∀ K ∈ ev.toDeleteList, K ∉ failing →
      (w.maps.v4FlowMap.val K).isSome → Fresh K w.agent.trace
  | _ => True

instance (w : World) : ∀ l, Decidable (DeletesRead w l)
  | .evict n false failing => inferInstanceAs
      (Decidable (∀ ev ∈ w.agent.pending[n]?, ∀ K ∈ ev.toDeleteList, K ∉ failing →
        (w.maps.v4FlowMap.val K).isSome →
          (w.agent.metric.baseMap.val K).map FlowStatsEntry.stats = w.maps.v4FlowMap.val K))
  | .evict _ true _ => .isTrue trivial
  | .packet _ _ => .isTrue trivial
  | .scan _ => .isTrue trivial
  | .informer _ => .isTrue trivial

instance (w : World) : ∀ l, Decidable (DeletesFresh w l)
  | .evict n false failing => inferInstanceAs
      (Decidable (∀ ev ∈ w.agent.pending[n]?, ∀ K ∈ ev.toDeleteList, K ∉ failing →
        (w.maps.v4FlowMap.val K).isSome → Fresh K w.agent.trace))
  | .evict _ true _ => .isTrue trivial
  | .packet _ _ => .isTrue trivial
  | .scan _ => .isTrue trivial
  | .informer _ => .isTrue trivial

/-- Fewer than `2 ^ 64` packets of any flow are waiting to be read. -/
def FewUnread (w : World) : Prop :=
  ∀ K, FlowStatsOf.packets (unread K w.agent.trace) < 2 ^ 64

theorem deletesRead_of_fresh {w : World} (h : Synced w) {l : Label} (hl : DeletesFresh w l) :
    DeletesRead w l := by
  cases l with
  | evict n openErr failing =>
      cases openErr with
      | true => trivial
      | false =>
          intro ev hev K hK hfail hsome
          obtain ⟨v, hv⟩ := Option.isSome_iff_exists.mp hsome
          obtain ⟨e, he, hes⟩ := h.read K v hv (hl ev hev K hK hfail hsome)
          rw [he, hv, Option.map_some, hes]
  | packet skb dir => trivial
  | scan input => trivial
  | informer index => trivial

theorem deletesFresh_of_read {w : World} (h : Synced w) {l : Label} (hfew : FewUnread w)
    (hl : DeletesRead w l) : DeletesFresh w l := by
  cases l with
  | evict n openErr failing =>
      cases openErr with
      | true => trivial
      | false =>
          intro ev hev K hK hfail hsome
          obtain ⟨v, hv⟩ := Option.isSome_iff_exists.mp hsome
          obtain ⟨e, he, hes⟩ := Option.map_eq_some_iff.mp ((hl ev hev K hK hfail hsome).trans hv)
          obtain ⟨hbehind, hsince⟩ := h.behind K e he
          -- the copy lacks what is unread, and yet is equal
          have hsame : v = v + FlowStatsOf.ofNat (unread K w.agent.trace) := by
            rw [← hes]
            exact hes.trans (Option.some.inj (hv.symm.trans hbehind))
          rcases hsince with hfresh | hpos
          · exact hfresh
          · have := FlowStatsOf.packets_eq_zero_of_add_eq hsame (hfew K)
            omega
  | packet skb dir => trivial
  | scan input => trivial
  | informer index => trivial

/--
**Evictions delete what has been read exactly when what they delete is untouched.**

In every run from empty maps and a new agent, of packets, scans, evictions at any
later time and informer updates: if no eviction deletes an entry that has been
counted, or has survived a deletion, since the last scan, then every entry an
eviction deletes is in `baseMap` with the counters the kernel holds. And where
that is so, no eviction deletes such an entry, fewer than `2 ^ 64` packets being
unread at any time.
-/
theorem evictions_delete_read (index : Index) (ls : List Label) :
    (Along World.step DeletesFresh (World.init index) ls →
      Along World.step DeletesRead (World.init index) ls) ∧
    (Along World.step (fun w l => FewUnread w ∧ DeletesRead w l) (World.init index) ls →
      Along World.step DeletesFresh (World.init index) ls) := by
  refine ⟨?_, ?_⟩
  · exact along_mono (fun _ _ _ h _ hs => synced_step h hs)
      (fun _ _ h hl => deletesRead_of_fresh h hl) (synced_init index)
  · exact along_mono (fun _ _ _ h _ hs => synced_step h hs)
      (fun _ _ h hl => deletesFresh_of_read h hl.1 hl.2) (synced_init index)

/-- The answer of a name server. -/
def answerPacket : Label :=
  .packet (udpPacket [10, 96, 0, 10] [10, 244, 0, 5] [0, 53, 0xc0, 0] 92) .ingress

/-- A scan that finds the answers' flow, no aggregates being kept. -/
def scanAnswers (t : Time) (v : FlowStats) : Label :=
  .scan { t := t, reports := [(answerFlow, v)], podOrder := [], svcOrder := [], knownOrder := [] }

/-- One answer and four scans, the last of which queues the flow. -/
def idleAnswer : List Label :=
  [answerPacket, scanAnswers 1 ⟨92, 1, 0, 0⟩, scanAnswers 2 ⟨92, 1, 0, 0⟩,
    scanAnswers 3 ⟨92, 1, 0, 0⟩, scanAnswers 4 ⟨92, 1, 0, 0⟩]

/-- Deleted as read: the eviction runs before anything else arrives. -/
theorem evictions_delete_read_idle :
    ((run World.step (World.init Index.empty) idleAnswer).bind fun w =>
      (w.agent.pending[3]?).map Eviction.toDeleteList) = some [answerFlow] ∧
    Along World.step DeletesRead (World.init Index.empty) (idleAnswer ++ [.evict 3 false []]) :=
  ⟨by decide, (evictions_delete_read Index.empty (idleAnswer ++ [.evict 3 false []])).1 (by decide)⟩

/-- The eviction of the fourth scan runs after a second answer, and deletes it unread. -/
theorem late_answer_deleted_unread :
    ∃ w, run World.step (World.init Index.empty) (idleAnswer ++ [answerPacket]) = some w ∧
      w.maps.v4FlowMap.val answerFlow = some ⟨184, 2, 0, 0⟩ ∧
      (w.agent.metric.baseMap.val answerFlow).map FlowStatsEntry.stats = some ⟨92, 1, 0, 0⟩ ∧
      (w.step (.evict 3 false [])).isSome ∧ ¬ DeletesRead w (.evict 3 false []) :=
  ⟨_, rfl, by decide, by decide, by decide, by decide⟩

end Kubpf
