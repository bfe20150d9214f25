import Mathlib.Algebra.BigOperators.Group.Finset.Basic
import Mathlib.Algebra.BigOperators.Group.List.Basic

/-!
# Adding up a keyed history

A history is a list of keyed amounts. `tally` adds up the amounts under one key
and `tallied` says which keys have any. A table of running totals is exactly
`tallied` of everything recorded so far (`tallied_snoc`), and an additive
function of the totals can be computed from the history directly, entry by entry
(`sum_tally`): that is what makes totals taken in two stages exact.
-/

namespace Kubpf.Lib

variable {K A : Type} [DecidableEq K] [AddCommMonoid A]

/-- What the history adds up to under `k`. -/
def tally (h : List (K × A)) (k : K) : A :=
  ((h.filter (fun e => e.1 = k)).map Prod.snd).sum

/-- The total under `k`, for keys the history mentions. -/
def tallied (h : List (K × A)) (k : K) : Option A :=
  if k ∈ h.map Prod.fst then some (tally h k) else none

@[simp] theorem tally_nil (k : K) : tally ([] : List (K × A)) k = 0 := rfl

theorem tally_cons (e : K × A) (h : List (K × A)) (k : K) :
    tally (e :: h) k = (if e.1 = k then e.2 else 0) + tally h k := by
  unfold tally
  by_cases hk : e.1 = k
  · simp [hk]
  · simp [hk]

theorem tally_append (h₁ h₂ : List (K × A)) (k : K) :
    tally (h₁ ++ h₂) k = tally h₁ k + tally h₂ k := by
  simp [tally]

/-- A key the history never mentions has nothing under it. -/
theorem tally_of_not_mem {h : List (K × A)} {k : K} (hk : k ∉ h.map Prod.fst) : tally h k = 0 := by
  have hf : h.filter (fun e => e.1 = k) = [] := by
    rw [List.filter_eq_nil_iff]
    intro e he hek
    exact hk (List.mem_map.mpr ⟨e, he, by simpa using hek⟩)
  rw [tally, hf]; rfl

theorem tallied_getD (h : List (K × A)) (k : K) : (tallied h k).getD 0 = tally h k := by
  unfold tallied
  by_cases hk : k ∈ h.map Prod.fst
  · rw [if_pos hk]; rfl
  · rw [if_neg hk, tally_of_not_mem hk]; rfl

/-- **Recording one more amount bumps the total under its key and no other.** -/
theorem tallied_snoc (h : List (K × A)) (k : K) (a : A) :
    tallied (h ++ [(k, a)]) = Function.update (tallied h) k (some ((tallied h k).getD 0 + a)) := by
  funext k'
  rw [tallied_getD]
  by_cases hk : k' = k
  · subst hk
    rw [Function.update_self, tallied, if_pos (by simp), tally_append, tally_cons]
    simp
  · have htail : tally [(k, a)] k' = 0 := by simp [tally_cons, Ne.symm hk]
    rw [Function.update_of_ne hk, tallied, tallied, tally_append, htail, add_zero]
    have hmem : k' ∈ (h ++ [(k, a)]).map Prod.fst ↔ k' ∈ h.map Prod.fst := by
      rw [List.map_append, List.mem_append]; simp [hk]
    simp only [hmem]

/-- **Totals taken key by key add up to the history taken entry by entry**, through any
additive reading of the totals. -/
theorem sum_tally {B : Type} [AddCommMonoid B] (c : K → A →+ B) (h : List (K × A)) {ks : List K}
    (hnd : ks.Nodup) (hcover : ∀ e ∈ h, e.1 ∈ ks) :
    (ks.map (fun k => c k (tally h k))).sum = (h.map (fun e => c e.1 e.2)).sum := by
  induction h with
  | nil => simp
  | cons e h ih =>
      have hsplit : (ks.map (fun k => c k (tally (e :: h) k))).sum
          = (ks.map (fun k => c k (if e.1 = k then e.2 else 0))).sum
            + (ks.map (fun k => c k (tally h k))).sum := by
        rw [← List.sum_map_add]
        congr 1
        exact List.map_congr_left (fun k _ => by rw [tally_cons, map_add])
      -- the new amount is counted at its own key only
      have hone : (ks.map (fun k => c k (if e.1 = k then e.2 else 0))).sum = c e.1 e.2 := by
        rw [← List.sum_toFinset _ hnd, Finset.sum_eq_single e.1]
        · rw [if_pos rfl]
        · intro k _ hne
          rw [if_neg (Ne.symm hne), map_zero]
        · intro hne
          exact absurd (List.mem_toFinset.mpr (hcover e (by simp))) hne
      rw [hsplit, hone, ih (fun x hx => hcover x (List.mem_cons_of_mem _ hx))]
      simp

/-! ## A list in which one position changes -/

/-- **The sum changes as the measure of one position does.** -/
theorem sum_map_set_add {T B : Type} [AddCommMonoid B] {f : T → B} {c d : B} {l : List T} {i : Nat}
    {x y : T} (hx : l[i]? = some x) (hy : f y + c = f x + d) :
    ((l.set i y).map f).sum + c = (l.map f).sum + d := by
  induction l generalizing i with
  | nil => exact absurd hx (by simp)
  | cons a l ih =>
      cases i with
      | zero =>
          have hax : a = x := Option.some.inj hx
          rw [List.set_cons_zero, List.map_cons, List.sum_cons, List.map_cons, List.sum_cons,
            add_right_comm, hy, hax]
          exact add_right_comm _ _ _
      | succ i =>
          have hl : l[i]? = some x := hx
          rw [List.set_cons_succ, List.map_cons, List.sum_cons, List.map_cons, List.sum_cons,
            add_assoc, ih hl, add_assoc]

/-- **Raising the measure of one position by `d` raises the sum by `d`.** -/
theorem sum_map_set {T B : Type} [AddCommMonoid B] {f : T → B} {d : B} {l : List T} {i : Nat}
    {x y : T} (hx : l[i]? = some x) (hy : f y = f x + d) :
    ((l.set i y).map f).sum = (l.map f).sum + d := by
  have hy0 : f y + 0 = f x + d := (add_zero _).trans hy
  have hsum := sum_map_set_add hx hy0
  rwa [add_zero] at hsum

end Kubpf.Lib
