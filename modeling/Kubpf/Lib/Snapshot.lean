import Mathlib.Data.List.Basic

/-!
# Reading a store while it changes

A reader that goes through a store key by key, while events go on changing it,
may see a state that never was: one key before an event, another after it. What
it saw is still the contents of some order of the events. Those of the keys it
had yet to read go first, then comes the reading, all at once, and the others
follow; no two events of one key change places (`exists_snapshot`).

The store may be bounded and refuse a key it has no room for. That is no
obstacle, since nothing is deleted while the reader is under way: a key that was
read was there, so none of its events was refused.
-/

namespace Kubpf.Lib

/-- A store changed by events, each of them concerned with at most one key. -/
structure KeyedStore (S E K V : Type) where
  act : S → E → S
  key : E → Option K
  get : S → K → Option V
  /-- There is no room for the key. -/
  Refuses : S → K → Prop
  /-- The same contents. -/
  Same : S → S → Prop
  same_equiv : Equivalence Same
  get_congr {s s' : S} (k : K) : Same s s' → get s k = get s' k
  act_congr {s s' : S} (e : E) : Same s s' → Same (act s e) (act s' e)
  refuses_congr {s s' : S} (k : K) : Same s s' → (Refuses s k ↔ Refuses s' k)
  /-- An event leaves the other keys alone. -/
  get_act {s : S} {e : E} {k : K} : key e ≠ some k → get (act s e) k = get s k
  get_refused {s : S} {k : K} : Refuses s k → get s k = none
  /-- Room does not come back. -/
  refuses_act {s : S} {k : K} (e : E) : Refuses s k → Refuses (act s e) k
  /-- Events of different keys change places, where there is room for the second after the
  first. -/
  comm {s : S} {p q : E} {k : K} : key q = some k → key p ≠ some k → ¬ Refuses (act s p) k →
    Same (act (act s p) q) (act (act s q) p)

namespace KeyedStore

variable {S E K V : Type} (M : KeyedStore S E K V)

/-- One event after another. -/
def acts (s : S) (es : List E) : S := es.foldl M.act s

@[simp] theorem acts_nil (s : S) : M.acts s [] = s := rfl

@[simp] theorem acts_cons (s : S) (e : E) (es : List E) :
    M.acts s (e :: es) = M.acts (M.act s e) es := rfl

theorem acts_append (s : S) (es es' : List E) : M.acts s (es ++ es') = M.acts (M.acts s es) es' :=
  List.foldl_append

theorem acts_congr {s s' : S} (h : M.Same s s') (es : List E) :
    M.Same (M.acts s es) (M.acts s' es) := by
  induction es generalizing s s' with
  | nil => exact h
  | cons e es ih => exact ih (M.act_congr e h)

/-- Events of other keys leave a key alone. -/
theorem get_acts {s : S} {es : List E} {k : K} (h : ∀ e ∈ es, M.key e ≠ some k) :
    M.get (M.acts s es) k = M.get s k := by
  induction es generalizing s with
  | nil => rfl
  | cons e es ih =>
      rw [acts_cons, ih (fun e' he' => h e' (List.mem_cons_of_mem e he'))]
      exact M.get_act (h e (List.mem_cons_self ..))

theorem refuses_acts {s : S} {k : K} (es : List E) (h : M.Refuses s k) :
    M.Refuses (M.acts s es) k := by
  induction es generalizing s with
  | nil => exact h
  | cons e es ih => exact ih (M.refuses_act e h)

/-- **An event waits for others**: it may come after events of other keys for which there was
room in any case. -/
theorem acts_comm {s : S} {p : E} {es : List E}
    (h : ∀ q ∈ es, ∃ k, M.key q = some k ∧ M.key p ≠ some k ∧
      ¬ M.Refuses (M.acts (M.act s p) es) k) :
    M.Same (M.acts (M.act s p) es) (M.act (M.acts s es) p) := by
  induction es generalizing s with
  | nil => exact M.same_equiv.refl _
  | cons q es ih =>
      obtain ⟨k, hq, hp, hroom⟩ := h q (List.mem_cons_self ..)
      -- there was room for `q` at its turn, as there is at the end
      have hswap : M.Same (M.act (M.act s p) q) (M.act (M.act s q) p) :=
        M.comm hq hp fun hfull => hroom (M.refuses_acts (q :: es) hfull)
      have hrest := M.acts_congr hswap es
      rw [acts_cons, acts_cons]
      refine M.same_equiv.trans hrest (ih fun q' hq' => ?_)
      obtain ⟨k', hk', hp', hroom'⟩ := h q' (List.mem_cons_of_mem q hq')
      exact ⟨k', hk', hp', fun hfull => hroom' ((M.refuses_congr k' hrest).mpr hfull)⟩

/-! ## A reader and the events around it -/

/-- From `s` to `t`, with the events `es` and the readings `rs` in between in some order, no key
being read twice. -/
inductive Interleaved : S → List E → List (K × V) → S → Prop
  | nil (s : S) : Interleaved s [] [] s
  | event {s t : S} {es : List E} {rs : List (K × V)} (e : E)
      (h : Interleaved (M.act s e) es rs t) : Interleaved s (e :: es) rs t
  | read {s t : S} {es : List E} {rs : List (K × V)} {k : K} {v : V} (hget : M.get s k = some v)
      (hnew : k ∉ rs.map Prod.fst) (h : Interleaved s es rs t) :
      Interleaved s es ((k, v) :: rs) t

variable {M} {s t : S} {es : List E} {rs : List (K × V)}

theorem Interleaved.concat_event (h : M.Interleaved s es rs t) (e : E) :
    M.Interleaved s (es ++ [e]) rs (M.act t e) := by
  induction h with
  | nil s => exact .event e (.nil _)
  | event e' _ ih => exact .event e' ih
  | read hget hnew _ ih => exact .read hget hnew ih

theorem Interleaved.concat_read (h : M.Interleaved s es rs t) {k : K} {v : V}
    (hget : M.get t k = some v) (hnew : k ∉ rs.map Prod.fst) :
    M.Interleaved s es (rs ++ [(k, v)]) t := by
  induction h with
  | nil s => exact .read hget (by simp) (.nil s)
  | event e' _ ih => exact .event e' (ih hget hnew)
  | read hget' hnew' _ ih =>
      obtain ⟨hne, hnew⟩ := not_or.mp (fun h => hnew (List.mem_cons.mpr h))
      refine .read hget' (fun hk => ?_) (ih hget hnew)
      obtain ⟨r, hr, rfl⟩ := List.mem_map.mp hk
      rcases List.mem_append.mp hr with hr | hr
      · exact hnew' (List.mem_map_of_mem hr)
      · rw [List.mem_singleton.mp hr] at hne
        exact hne rfl

theorem Interleaved.nodup (h : M.Interleaved s es rs t) : (rs.map Prod.fst).Nodup := by
  induction h with
  | nil => exact List.nodup_nil
  | event _ _ ih => exact ih
  | read _ hnew _ ih => exact List.nodup_cons.mpr ⟨hnew, ih⟩

/-- **What was read is what the store held at one point** of a run in which the events of each key
come in their order, and which ends in the same contents. Up to that point only keys that were
read have changed. -/
theorem Interleaved.exists_snapshot [DecidableEq K] (h : M.Interleaved s es rs t) :
    ∃ before after : List E,
      (∀ r ∈ rs, M.get (M.acts s before) r.1 = some r.2) ∧
      (∀ e ∈ before, ∃ k ∈ rs.map Prod.fst, M.key e = some k) ∧
      (∀ o, (before ++ after).filter (fun e => M.key e = o) = es.filter fun e => M.key e = o) ∧
      M.Same (M.acts (M.acts s before) after) t := by
  induction h with
  | nil s => exact ⟨[], [], by simp, by simp, by simp, M.same_equiv.refl s⟩
  | @event s t es rs e h ih =>
      obtain ⟨before, after, hread, hbefore, hfilter, hsame⟩ := ih
      by_cases hlater : ∃ k ∈ rs.map Prod.fst, M.key e = some k
      · -- the key is read later: the event goes first
        refine ⟨e :: before, after, hread, ?_, fun o => ?_, hsame⟩
        · intro e' he'
          rcases List.mem_cons.mp he' with rfl | he'
          · exact hlater
          · exact hbefore e' he'
        · rw [List.cons_append, List.filter_cons, List.filter_cons, hfilter o]
      · -- the key has been read, or never is: the event waits
        have hne : ∀ k ∈ rs.map Prod.fst, M.key e ≠ some k :=
          fun k hk he => hlater ⟨k, hk, he⟩
        have hwait : M.Same (M.acts (M.act s e) before) (M.act (M.acts s before) e) := by
          refine M.acts_comm fun q hq => ?_
          obtain ⟨k, hk, hqk⟩ := hbefore q hq
          obtain ⟨r, hr, rfl⟩ := List.mem_map.mp hk
          refine ⟨r.1, hqk, hne r.1 hk, fun hfull => ?_⟩
          exact absurd ((M.get_refused hfull).symm.trans (hread r hr)) (by simp)
        refine ⟨before, e :: after, fun r hr => ?_, hbefore, fun o => ?_, ?_⟩
        · have hk : r.1 ∈ rs.map Prod.fst := List.mem_map_of_mem hr
          rw [← hread r hr, M.get_congr r.1 hwait, M.get_act (hne r.1 hk)]
        · have hnone : M.key e = o → before.filter (fun e => M.key e = o) = [] := by
            rintro rfl
            rw [List.filter_eq_nil_iff]
            intro q hq hqe
            obtain ⟨k, hk, hqk⟩ := hbefore q hq
            exact hne k hk ((of_decide_eq_true hqe).symm.trans hqk)
          have ho := hfilter o
          rw [List.filter_append] at ho ⊢
          rw [List.filter_cons, List.filter_cons, ← ho]
          by_cases he : M.key e = o
          · rw [hnone he]
            rfl
          · rw [decide_eq_false he]
            rfl
        · rw [acts_cons]
          exact M.same_equiv.trans (M.acts_congr (M.same_equiv.symm hwait) after) hsame
  | @read s t es rs k v hget hnew h ih =>
      obtain ⟨before, after, hread, hbefore, hfilter, hsame⟩ := ih
      refine ⟨before, after, fun r hr => ?_, fun e he => ?_, hfilter, hsame⟩
      · rcases List.mem_cons.mp hr with rfl | hr
        · -- no event that goes first concerns the key just read
          rw [M.get_acts fun e he hk => ?_]
          · exact hget
          · obtain ⟨k', hk', hek⟩ := hbefore e he
            have he : k = k' := Option.some.inj (hk.symm.trans hek)
            exact hnew (he ▸ hk')
        · exact hread r hr
      · obtain ⟨k', hk', hek⟩ := hbefore e he
        exact ⟨k', List.mem_cons_of_mem k hk', hek⟩

end KeyedStore

end Kubpf.Lib
