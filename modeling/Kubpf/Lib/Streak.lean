import Mathlib.Data.List.Basic

/-!
# For how long something has been so

`streak P l` is how many elements at the head of `l` satisfy `P`, up to the first
that does not. Of a history kept newest first, it is for how long `P` has held
without a break.

A program that keeps such a number in a machine word keeps it modulo the word's
size, and compares what it keeps with a threshold. The comparison is right until
the number reaches the size of the word, and wrong there (`threshold_mod_iff`).
-/

namespace Kubpf.Lib

variable {α : Type} (P : α → Prop) [DecidablePred P]

def streak : List α → Nat
  | [] => 0
  | a :: l => if P a then streak l + 1 else 0

variable {P} {a : α} {l : List α}

@[simp] theorem streak_nil : streak P [] = 0 := rfl

theorem streak_cons_of_pos (h : P a) : streak P (a :: l) = streak P l + 1 := if_pos h

theorem streak_cons_of_neg (h : ¬ P a) : streak P (a :: l) = 0 := if_neg h

/-- The streak ends at the first element that breaks it. -/
theorem streak_append_cons {older : List α} (hl : ∀ x ∈ l, P x) (ha : ¬ P a) :
    streak P (l ++ a :: older) = l.length := by
  induction l with
  | nil => exact streak_cons_of_neg ha
  | cons b l ih =>
      rw [List.forall_mem_cons] at hl
      rw [List.cons_append, streak_cons_of_pos hl.1, ih hl.2, List.length_cons]

/-- **A threshold compared with what is kept of a number modulo `m`** is passed at the right times
until the number reaches `m`, and not then. -/
theorem threshold_mod_iff {d m n : Nat} (hd : 0 < d) (hdm : d ≤ m) (hn : n ≤ m) :
    (d ≤ n % m ↔ d ≤ n) ↔ n < m := by
  rcases Nat.lt_or_eq_of_le hn with hlt | rfl
  · rw [Nat.mod_eq_of_lt hlt]
    exact iff_of_true Iff.rfl hlt
  · rw [Nat.mod_self]
    refine iff_of_false (fun h => ?_) (Nat.lt_irrefl n)
    exact absurd (h.mpr hdm) (Nat.not_le_of_lt hd)

/-- The same for a count `c` that is incremented on a condition only, and so may lag behind the
number `n`: it passes the threshold at the right times until the number reaches `m`, if from the
threshold on it does not lag. -/
theorem threshold_lag_iff {d m n c : Nat} {p : Prop} (hd : 0 < d) (hdm : d ≤ m) (hc : c ≤ n)
    (hn : n < m) (hkept : d ≤ n → c = n) :
    ((p ∧ d ≤ (c + 1) % m) ↔ d ≤ n + 1) ↔ n + 1 < m ∧ (d ≤ n + 1 → p ∧ c = n) := by
  by_cases hp : p
  · rw [and_iff_right hp, and_iff_right hp]
    by_cases hcn : c = n
    · subst hcn
      rw [and_iff_left fun _ => rfl]
      exact threshold_mod_iff hd hdm hn
    · -- a count that lags is below the threshold, and so is the number
      have hlt : n < d := Nat.lt_of_not_le fun hle => hcn (hkept hle)
      have hmod : (c + 1) % m = c + 1 := Nat.mod_eq_of_lt (by omega)
      rw [hmod]
      constructor
      · intro h
        exact ⟨by omega, fun hle => absurd (h.mpr hle) (by omega)⟩
      · rintro ⟨-, h⟩
        exact iff_of_false (by omega) fun hle => hcn (h hle)
  · -- on neither side can the threshold have been passed
    constructor
    · intro h
      have hlt : ¬ d ≤ n + 1 := fun hle => hp (h.mpr hle).1
      exact ⟨by omega, fun hle => absurd hle hlt⟩
    · rintro ⟨-, h⟩
      exact iff_of_false (fun hc => hp hc.1) fun hle => hp (h hle).1

end Kubpf.Lib
