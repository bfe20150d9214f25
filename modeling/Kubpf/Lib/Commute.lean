import Mathlib.Data.List.Basic

/-!
# Loops whose rounds can change places

A loop over a collection that comes in no fixed order has one outcome if any two
rounds can change places. They rarely leave the very same state; they leave states
that nobody can tell apart, which is a relation `R` the rounds have to respect.
-/

namespace Kubpf.Lib

variable {σ β : Type} {R : σ → σ → Prop} {f : σ → β → σ}

/-- A loop respects what its rounds respect. -/
theorem foldl_congr_rel {l : List β} (hcongr : ∀ x ∈ l, ∀ s s', R s s' → R (f s x) (f s' x))
    {s s' : σ} (h : R s s') : R (l.foldl f s) (l.foldl f s') := by
  induction l generalizing s s' with
  | nil => exact h
  | cons x l ih =>
      exact ih (fun y hy => hcongr y (List.mem_cons_of_mem _ hy))
        (hcongr x (List.mem_cons_self ..) s s' h)

/-- **Where any two rounds can change places, the order of the loop does not matter.** -/
theorem foldl_perm_rel (hR : Equivalence R) {l l' : List β} (hp : l.Perm l')
    (hcongr : ∀ x ∈ l, ∀ s s', R s s' → R (f s x) (f s' x))
    (hswap : ∀ x ∈ l, ∀ y ∈ l, ∀ s, R (f (f s x) y) (f (f s y) x)) (s : σ) :
    R (l.foldl f s) (l'.foldl f s) := by
  induction hp generalizing s with
  | nil => exact hR.refl s
  | cons x _ ih =>
      exact ih (fun y hy => hcongr y (List.mem_cons_of_mem _ hy))
        (fun y hy z hz => hswap y (List.mem_cons_of_mem _ hy) z (List.mem_cons_of_mem _ hz)) _
  | swap x y l =>
      have hrest : ∀ z ∈ l, ∀ s s', R s s' → R (f s z) (f s' z) := fun z hz =>
        hcongr z (List.mem_cons_of_mem _ (List.mem_cons_of_mem _ hz))
      exact foldl_congr_rel hrest (hswap y (by simp) x (by simp) s)
  | trans hp₁ _ ih₁ ih₂ =>
      refine hR.trans (ih₁ hcongr hswap s) (ih₂ ?_ ?_ s)
      · exact fun x hx => hcongr x (hp₁.mem_iff.mpr hx)
      · exact fun x hx y hy => hswap x (hp₁.mem_iff.mpr hx) y (hp₁.mem_iff.mpr hy)

end Kubpf.Lib
