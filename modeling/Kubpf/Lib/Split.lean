import Mathlib.Data.List.Basic

/-!
# Splitting at a separator

Splitting a sequence into at most `n` pieces, and getting the pieces back: a
piece that does not contain the separator is recovered exactly, and so is
whatever follows the last split.
-/

namespace Kubpf.Lib

variable {α : Type} [DecidableEq α]

/-- Everything before the first separator, and what follows it if there is one. -/
def splitOnce (sep : α) : List α → List α × Option (List α)
  | [] => ([], none)
  | c :: cs =>
    if c = sep then ([], some cs)
    else
      let (piece, rest) := splitOnce sep cs
      (c :: piece, rest)

/-- At most `n` pieces, the last one unsplit. -/
def splitN (sep : α) : Nat → List α → List (List α)
  | 0, _ => []
  | 1, cs => [cs]
  | n + 2, cs =>
    match splitOnce sep cs with
    | (piece, none) => [piece]
    | (piece, some rest) => piece :: splitN sep (n + 1) rest

variable {sep : α}

theorem splitOnce_of_not_mem {cs : List α} (h : sep ∉ cs) : splitOnce sep cs = (cs, none) := by
  induction cs with
  | nil => rfl
  | cons c cs ih =>
      have hc : c ≠ sep := fun hc => h (hc ▸ List.mem_cons_self)
      have hcs : sep ∉ cs := fun hmem => h (List.mem_cons_of_mem _ hmem)
      rw [splitOnce, if_neg hc, ih hcs]

theorem splitOnce_append {piece : List α} (h : sep ∉ piece) (rest : List α) :
    splitOnce sep (piece ++ sep :: rest) = (piece, some rest) := by
  induction piece with
  | nil => rw [List.nil_append, splitOnce, if_pos rfl]
  | cons c cs ih =>
      have hc : c ≠ sep := fun hc => h (hc ▸ List.mem_cons_self)
      have hcs : sep ∉ cs := fun hmem => h (List.mem_cons_of_mem _ hmem)
      rw [List.cons_append, splitOnce, if_neg hc, ih hcs]

/-- Nothing to split. -/
theorem splitN_of_not_mem {cs : List α} (h : sep ∉ cs) (n : Nat) :
    splitN sep (n + 1) cs = [cs] := by
  cases n with
  | zero => rfl
  | succ n => rw [splitN, splitOnce_of_not_mem h]

/-- **A piece without separators is split off whole.** -/
theorem splitN_append {piece : List α} (h : sep ∉ piece) (rest : List α) (n : Nat) :
    splitN sep (n + 2) (piece ++ sep :: rest) = piece :: splitN sep (n + 1) rest := by
  rw [splitN, splitOnce_append h]

/-- **Up to two separators**: anything is one plain piece, two, or two and a rest. -/
theorem exists_pieces (sep : α) (cs : List α) :
    sep ∉ cs ∨ (∃ p₀ p₁, cs = p₀ ++ sep :: p₁ ∧ sep ∉ p₀ ∧ sep ∉ p₁) ∨
      ∃ p₀ p₁ p₂, cs = p₀ ++ sep :: (p₁ ++ sep :: p₂) ∧ sep ∉ p₀ ∧ sep ∉ p₁ := by
  by_cases h : sep ∈ cs
  · obtain ⟨p₀, rest, rfl, h₀⟩ := List.eq_append_cons_of_mem h
    by_cases h' : sep ∈ rest
    · obtain ⟨p₁, p₂, rfl, h₁⟩ := List.eq_append_cons_of_mem h'
      exact Or.inr (Or.inr ⟨p₀, p₁, p₂, rfl, h₀, h₁⟩)
    · exact Or.inr (Or.inl ⟨p₀, rest, rfl, h₀, h'⟩)
  · exact Or.inl h

end Kubpf.Lib
