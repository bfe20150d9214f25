import Mathlib.Data.Nat.Dist
import Mathlib.Data.Nat.Size

/-!
# Rounding to a number of significant bits

A binary floating-point number of precision `p` is a whole number below `2 ^ p`
times a power of two. A natural number is rounded to the nearest of them, and to
the one with the even factor where two are equally near. The range of exponents
plays no part for numbers as small as these, so it is left out.

The neighbours of a number are a multiple of its `ulp` and the next one, and
nothing representable lies between them. From that alone rounding is nearest,
exact on what is representable, and monotone.
-/

namespace Kubpf.Lib

/-- The whole numbers of precision `p`. -/
def Representable (p m : Nat) : Prop := ∃ q e, q < 2 ^ p ∧ m = q * 2 ^ e

/-- The distance between the neighbours of `n` in precision `p`. -/
def ulp (p n : Nat) : Nat := 2 ^ (n.size - p)

/-- `n` in precision `p`: to nearest, ties to even. -/
def roundEven (p n : Nat) : Nat :=
  let q := n / ulp p n
  let r := n % ulp p n
  if 2 * r < ulp p n ∨ (2 * r = ulp p n ∧ q % 2 = 0) then q * ulp p n else (q + 1) * ulp p n

variable {p n m : Nat}

theorem ulp_pos (p n : Nat) : 0 < ulp p n := Nat.two_pow_pos _

/-- Small numbers have no neighbours but themselves. -/
theorem ulp_of_lt (h : n < 2 ^ p) : ulp p n = 1 := by
  have hsize : n.size ≤ p := Nat.size_le.mpr h
  rw [ulp, Nat.sub_eq_zero_of_le hsize, Nat.pow_zero]

/-- Either there is no rounding to do, or `n` has more than `p` bits. -/
theorem ulp_cases (p n : Nat) :
    (n < 2 ^ p ∧ ulp p n = 1) ∨
      (2 ^ p ≤ n ∧ ∃ e, ulp p n = 2 ^ (e + 1) ∧ 2 ^ (p + e) ≤ n ∧ n < 2 ^ (p + e + 1)) := by
  rcases Nat.lt_or_ge n (2 ^ p) with hlt | hge
  · exact Or.inl ⟨hlt, ulp_of_lt hlt⟩
  · have hsize : p < n.size := Nat.lt_size.mpr hge
    refine Or.inr ⟨hge, n.size - p - 1, ?_, ?_, ?_⟩
    · rw [ulp]
      congr 1
      omega
    · have he : p + (n.size - p - 1) < n.size := by omega
      exact Nat.lt_size.mp he
    · have he : p + (n.size - p - 1) + 1 = n.size := by omega
      rw [he]
      exact Nat.lt_size_self n

/-- The lower neighbour has a factor that fits. -/
theorem div_ulp_lt (p n : Nat) : n / ulp p n < 2 ^ p := by
  rw [Nat.div_lt_iff_lt_mul (ulp_pos p n)]
  rcases ulp_cases p n with ⟨hlt, hulp⟩ | ⟨-, e, hulp, -, hhi⟩
  · rw [hulp, Nat.mul_one]
    exact hlt
  · rw [hulp, ← Nat.pow_add]
    exact hhi

theorem representable_mul_ulp (hp : 0 < p) {q : Nat} (hq : q ≤ 2 ^ p) :
    Representable p (q * ulp p n) := by
  rcases Nat.lt_or_eq_of_le hq with hlt | rfl
  · exact ⟨q, n.size - p, hlt, rfl⟩
  · -- the factor carries over into the exponent
    have hone : 1 < 2 ^ p := Nat.one_lt_two_pow (Nat.ne_of_gt hp)
    exact ⟨1, p + (n.size - p), hone, by rw [Nat.one_mul, Nat.pow_add]; rfl⟩

/-- **What rounding returns is representable.** -/
theorem representable_roundEven (hp : 0 < p) (n : Nat) : Representable p (roundEven p n) := by
  have hq := div_ulp_lt p n
  unfold roundEven
  dsimp only
  split_ifs
  · exact representable_mul_ulp hp hq.le
  · exact representable_mul_ulp hp hq

/-- **Nothing representable lies between the neighbours of a number.** -/
theorem representable_gap (hp : 0 < p) (hm : Representable p m) (n : Nat) :
    m ≤ n / ulp p n * ulp p n ∨ (n / ulp p n + 1) * ulp p n ≤ m := by
  obtain ⟨q, e, hq, rfl⟩ := hm
  rcases ulp_cases p n with ⟨-, hulp⟩ | ⟨-, e', hulp, hlo, -⟩
  · rw [hulp, Nat.mul_one, Nat.mul_one]
    omega
  · rcases Nat.lt_or_ge e (e' + 1) with hlt | hge
    · -- too few bits to come up to the lower neighbour
      have hsmall : q * 2 ^ e ≤ 2 ^ (p + e') := by
        rw [Nat.pow_add]
        exact Nat.mul_le_mul hq.le (Nat.pow_le_pow_right Nat.two_pos (Nat.lt_succ_iff.mp hlt))
      have hsplit : 2 ^ (p + e') = 2 ^ (p - 1) * ulp p n := by
        rw [hulp, ← Nat.pow_add]
        congr 1
        omega
      rw [hsplit] at hlo hsmall
      have hfactor : 2 ^ (p - 1) ≤ n / ulp p n := (Nat.le_div_iff_mul_le (ulp_pos p n)).mpr hlo
      exact Or.inl (hsmall.trans (Nat.mul_le_mul_right _ hfactor))
    · -- a multiple of the same unit
      have hdvd : ulp p n ∣ q * 2 ^ e := by
        rw [hulp]
        exact Nat.dvd_mul_left_of_dvd (Nat.pow_dvd_pow 2 hge) q
      obtain ⟨c, hc⟩ := hdvd
      rw [hc, Nat.mul_comm (ulp p n) c]
      rcases Nat.lt_or_ge (n / ulp p n) c with hlt | hle
      · exact Or.inr (Nat.mul_le_mul_right _ hlt)
      · exact Or.inl (Nat.mul_le_mul_right _ hle)

/-- A number is between its neighbours, and rounded to the nearer. -/
theorem roundEven_cases (p n : Nat) :
    ∃ a r, n = a + r ∧ r < ulp p n ∧ a = n / ulp p n * ulp p n ∧
      ((2 * r ≤ ulp p n ∧ roundEven p n = a) ∨
        (ulp p n ≤ 2 * r ∧ roundEven p n = a + ulp p n)) := by
  refine ⟨n / ulp p n * ulp p n, n % ulp p n, (Nat.div_add_mod' n _).symm,
    Nat.mod_lt _ (ulp_pos p n), rfl, ?_⟩
  unfold roundEven
  dsimp only
  split_ifs with h
  · exact Or.inl ⟨by omega, rfl⟩
  · rw [not_or] at h
    exact Or.inr ⟨by omega, Nat.succ_mul _ _⟩

/-- **Rounding is to nearest.** -/
theorem dist_roundEven_le (hp : 0 < p) (hm : Representable p m) (n : Nat) :
    n.dist (roundEven p n) ≤ n.dist m := by
  have hgap := representable_gap hp hm n
  obtain ⟨a, r, hn, hr, ha, hround⟩ := roundEven_cases p n
  rw [Nat.succ_mul, ← ha] at hgap
  unfold Nat.dist
  rcases hround with ⟨hle, heq⟩ | ⟨hle, heq⟩
  · rw [heq]
    omega
  · rw [heq]
    omega

/-- `x` is one of the numbers of precision `p` nearest to `n`. -/
def Nearest (p n x : Nat) : Prop :=
  Representable p x ∧ ∀ m, Representable p m → n.dist x ≤ n.dist m

theorem nearest_roundEven (hp : 0 < p) (n : Nat) : Nearest p n (roundEven p n) :=
  ⟨representable_roundEven hp n, fun _ hm => dist_roundEven_le hp hm n⟩

/-- **Rounding leaves a number alone exactly if it is representable.** -/
theorem roundEven_eq_self (hp : 0 < p) : roundEven p n = n ↔ Representable p n := by
  constructor
  · intro h
    rw [← h]
    exact representable_roundEven hp n
  · intro h
    have hdist := dist_roundEven_le hp h n
    rw [Nat.dist_self] at hdist
    exact (Nat.eq_of_dist_eq_zero (Nat.le_zero.mp hdist)).symm

end Kubpf.Lib
