import Kubpf.Lib.Tally
import Mathlib.Data.Finset.Card
import Mathlib.Data.List.TakeWhile

/-!
# First come

A table with room for `n` keys that never gives any up takes the first `n`
distinct keys of what it is presented with, and none of the later ones however
often they come. `Admitted` says which keys these are and `admittedTally` what
the table holds: for an admitted key everything that was ever presented under it,
since its first amount was let in.
-/

namespace Kubpf.Lib

variable {K A : Type} [DecidableEq K]

/-- The keys that came before the first `k`. -/
def keysBefore (l : List K) (k : K) : Finset K := (l.takeWhile (· ≠ k)).toFinset

/-- `k` is one of the first `n` distinct keys. -/
def Admitted (n : Nat) (l : List K) (k : K) : Prop := k ∈ l ∧ (keysBefore l k).card < n

instance (n : Nat) (l : List K) (k : K) : Decidable (Admitted n l k) :=
  inferInstanceAs (Decidable (_ ∧ _))

/-- The first `n` distinct keys. -/
def admittedKeys (n : Nat) (l : List K) : Finset K := l.toFinset.filter (Admitted n l)

theorem mem_admittedKeys {n : Nat} {l : List K} {k : K} :
    k ∈ admittedKeys n l ↔ Admitted n l k := by
  rw [admittedKeys, Finset.mem_filter, List.mem_toFinset]
  exact and_iff_right_of_imp fun h => h.1

theorem keysBefore_concat_of_mem {l : List K} {k : K} (h : k ∈ l) (k' : K) :
    keysBefore (l ++ [k']) k = keysBefore l k := by
  have hlen : ¬ (l.takeWhile (· ≠ k)).length = l.length := by
    intro hlen
    have hall : l.takeWhile (· ≠ k) = l :=
      (List.takeWhile_prefix _).eq_of_length hlen
    rw [← hall] at h
    exact absurd (List.mem_takeWhile_imp h) (by simp)
  rw [keysBefore, List.takeWhile_append, if_neg hlen, keysBefore]

theorem keysBefore_concat_self {l : List K} {k : K} (h : k ∉ l) :
    keysBefore (l ++ [k]) k = l.toFinset := by
  have hall : l.takeWhile (· ≠ k) = l := by
    rw [List.takeWhile_eq_self_iff]
    intro x hx
    exact decide_eq_true fun he => h (he ▸ hx)
  rw [keysBefore, List.takeWhile_append, if_pos (by rw [hall])]
  simp

/-- A key that has been presented is in or out for good. -/
theorem admitted_concat_of_mem {n : Nat} {l : List K} {k : K} (h : k ∈ l) (k' : K) :
    Admitted n (l ++ [k']) k ↔ Admitted n l k := by
  rw [Admitted, Admitted, keysBefore_concat_of_mem h]
  exact and_congr_left' ⟨fun _ => h, fun _ => List.mem_append_left _ h⟩

theorem admitted_concat_of_ne {n : Nat} {l : List K} {k k' : K} (h : k ≠ k') :
    Admitted n (l ++ [k']) k ↔ Admitted n l k := by
  by_cases hk : k ∈ l
  · exact admitted_concat_of_mem hk k'
  · refine iff_of_false (fun hc => ?_) fun hc => hk hc.1
    rcases List.mem_append.mp hc.1 with hc | hc
    · exact hk hc
    · exact h (List.mem_singleton.mp hc)

/-- A new key is admitted while fewer than `n` others have come. -/
theorem admitted_concat_self {n : Nat} {l : List K} {k : K} (h : k ∉ l) :
    Admitted n (l ++ [k]) k ↔ l.toFinset.card < n := by
  rw [Admitted, keysBefore_concat_self h]
  exact and_iff_right (List.mem_append_right _ (List.mem_singleton_self k))

theorem admittedKeys_concat (n : Nat) (l : List K) (k : K) :
    admittedKeys n (l ++ [k])
      = if Admitted n (l ++ [k]) k then insert k (admittedKeys n l) else admittedKeys n l := by
  ext k'
  rw [mem_admittedKeys]
  rcases eq_or_ne k' k with rfl | hne
  · split_ifs with h
    · exact iff_of_true h (Finset.mem_insert_self ..)
    · rw [mem_admittedKeys]
      by_cases hmem : k' ∈ l
      · exact admitted_concat_of_mem hmem k'
      · exact iff_of_false h fun hc => hmem hc.1
  · rw [admitted_concat_of_ne hne]
    split_ifs
    · rw [Finset.mem_insert, or_iff_right hne, mem_admittedKeys]
    · rw [mem_admittedKeys]

/-- **The table is full once `n` distinct keys have come**, and not before. -/
theorem card_admittedKeys (n : Nat) (l : List K) :
    (admittedKeys n l).card = min n l.toFinset.card := by
  induction l using List.reverseRecOn with
  | nil => simp [admittedKeys]
  | append_singleton l k ih =>
      have hset : (l ++ [k]).toFinset = insert k l.toFinset := by
        rw [List.toFinset_append, Finset.union_comm]
        rfl
      rw [admittedKeys_concat, hset]
      by_cases hmem : k ∈ l
      · rw [Finset.insert_eq_of_mem (List.mem_toFinset.mpr hmem)]
        split_ifs with h
        · have hin := mem_admittedKeys.mpr ((admitted_concat_of_mem hmem k).mp h)
          rw [Finset.insert_eq_of_mem hin, ih]
        · exact ih
      · have hout : k ∉ admittedKeys n l := fun hc => hmem (mem_admittedKeys.mp hc).1
        have hiff := @admitted_concat_self K _ n l k hmem
        rw [Finset.card_insert_of_notMem fun hc => hmem (List.mem_toFinset.mp hc)]
        split_ifs with h
        · have hlt := hiff.mp h
          rw [Finset.card_insert_of_notMem hout, ih]
          omega
        · have hge : ¬ l.toFinset.card < n := fun hlt => h (hiff.mpr hlt)
          rw [ih]
          omega

/-! ## Totals of the admitted keys -/

variable [AddCommMonoid A]

/-- What a table with room for `n` keys holds after a history. -/
def admittedTally (n : Nat) (h : List (K × A)) (k : K) : Option A :=
  if Admitted n (h.map Prod.fst) k then some (tally h k) else none

theorem admittedTally_isSome {n : Nat} {h : List (K × A)} {k : K} :
    (admittedTally n h k).isSome ↔ Admitted n (h.map Prod.fst) k := by
  unfold admittedTally
  split_ifs with hk
  · exact iff_of_true rfl hk
  · exact iff_of_false (fun hc => by cases hc) hk

theorem tally_concat_of_ne {h : List (K × A)} {k k' : K} (hne : k' ≠ k) (a : A) :
    tally (h ++ [(k, a)]) k' = tally h k' := by
  rw [tally_append, tally_cons, if_neg (Ne.symm hne), tally_nil, add_zero, add_zero]

theorem admittedTally_concat_of_ne {n : Nat} {h : List (K × A)} {k k' : K} (hne : k' ≠ k) (a : A) :
    admittedTally n (h ++ [(k, a)]) k' = admittedTally n h k' := by
  have hiff : Admitted n ((h ++ [(k, a)]).map Prod.fst) k' ↔ Admitted n (h.map Prod.fst) k' := by
    rw [List.map_append, List.map_singleton]
    exact admitted_concat_of_ne hne
  unfold admittedTally
  rw [tally_concat_of_ne hne]
  exact if_congr hiff rfl rfl

/-- **An amount under an admitted key is added to what the table holds.** -/
theorem admittedTally_concat {n : Nat} {h : List (K × A)} {k : K} (a : A)
    (hk : Admitted n (h.map Prod.fst ++ [k]) k) :
    admittedTally n (h ++ [(k, a)])
      = Function.update (admittedTally n h) k (some ((admittedTally n h k).getD 0 + a)) := by
  have hmap : (h ++ [(k, a)]).map Prod.fst = h.map Prod.fst ++ [k] := by
    rw [List.map_append, List.map_singleton]
  funext k'
  rcases eq_or_ne k' k with rfl | hne
  · rw [Function.update_self, admittedTally, hmap, if_pos hk, tally_append, tally_cons, if_pos rfl,
      tally_nil, add_zero]
    by_cases hmem : k' ∈ h.map Prod.fst
    · rw [admittedTally, if_pos ((admitted_concat_of_mem hmem k').mp hk)]
      rfl
    · rw [admittedTally, if_neg fun hc => hmem hc.1, tally_of_not_mem hmem]
      rfl
  · rw [Function.update_of_ne hne]
    exact admittedTally_concat_of_ne hne a

/-- **An amount under any other key is lost.** -/
theorem admittedTally_concat_of_not {n : Nat} {h : List (K × A)} {k : K} (a : A)
    (hk : ¬ Admitted n (h.map Prod.fst ++ [k]) k) :
    admittedTally n (h ++ [(k, a)]) = admittedTally n h := by
  have hmap : (h ++ [(k, a)]).map Prod.fst = h.map Prod.fst ++ [k] := by
    rw [List.map_append, List.map_singleton]
  funext k'
  rcases eq_or_ne k' k with rfl | hne
  · have hbefore : ¬ Admitted n (h.map Prod.fst) k' := fun hc =>
      hk ((admitted_concat_of_mem hc.1 k').mpr hc)
    rw [admittedTally, hmap, if_neg hk, admittedTally, if_neg hbefore]
  · exact admittedTally_concat_of_ne hne a

end Kubpf.Lib
