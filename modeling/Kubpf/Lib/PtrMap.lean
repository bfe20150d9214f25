import Mathlib.Data.Finmap

/-!
# Maps of pointers

A map whose values are pointers is two things at once: a directory from keys to
addresses, and the cells those addresses name. Reading the directory and reading
the cell are separate acts, and a pointer taken before a write sees the write.
That difference is invisible in a plain key/value map, so it is kept here.

Two facts make such a map behave like an ordinary one as long as nobody keeps a
pointer across a write, and both are fields of the structure: a pointer the
directory hands out names an allocated cell (`valid`), and no two keys share a
cell (`inj`). From them every operation is one `Function.update` of the contents
`val`.
-/

namespace Kubpf.Lib

/-- A map from keys to pointers, together with the cells it has allocated. -/
structure PtrMap (K V : Type) [DecidableEq K] where
  /-- The cells, addressed by position; a cell is never given back. -/
  cells : List V
  /-- The pointer stored under each key. -/
  dir : Finmap (fun _ : K => Nat)
  /-- Every stored pointer names an allocated cell. -/
  valid : ∀ k p, dir.lookup k = some p → p < cells.length
  /-- No two keys hold the same pointer. -/
  inj : ∀ k₁ k₂ p, dir.lookup k₁ = some p → dir.lookup k₂ = some p → k₁ = k₂

namespace PtrMap

variable {K V : Type} [DecidableEq K]

/-- The map with no keys. -/
def empty : PtrMap K V where
  cells := []
  dir := ∅
  valid := by intro k p h; simp at h
  inj := by intro k₁ k₂ p h _; simp at h

/-- `p, ok := m[k]`: the pointer, not what it points to. -/
def find? (m : PtrMap K V) (k : K) : Option Nat := m.dir.lookup k

/-- `*p`. -/
def deref [Inhabited V] (m : PtrMap K V) (p : Nat) : V := m.cells.getD p default

/-- The keys present. -/
def keys (m : PtrMap K V) : Finset K := m.dir.keys

/-- `m[k] = &v`: a fresh cell, whatever `k` held before. -/
def alloc (m : PtrMap K V) (k : K) (v : V) : PtrMap K V where
  cells := m.cells ++ [v]
  dir := m.dir.insert k m.cells.length
  valid := by
    intro k' p h
    rw [List.length_append, List.length_singleton]
    by_cases hk : k' = k
    · subst hk
      rw [Finmap.lookup_insert] at h
      have := Option.some.inj h
      omega
    · rw [Finmap.lookup_insert_of_ne _ hk] at h
      have := m.valid k' p h
      omega
  inj := by
    intro k₁ k₂ p h₁ h₂
    by_cases hk₁ : k₁ = k <;> by_cases hk₂ : k₂ = k
    · rw [hk₁, hk₂]
    · -- the fresh address is above every address in use
      subst hk₁
      rw [Finmap.lookup_insert] at h₁
      rw [Finmap.lookup_insert_of_ne _ hk₂] at h₂
      have := m.valid k₂ p h₂
      have := Option.some.inj h₁
      omega
    · subst hk₂
      rw [Finmap.lookup_insert] at h₂
      rw [Finmap.lookup_insert_of_ne _ hk₁] at h₁
      have := m.valid k₁ p h₁
      have := Option.some.inj h₂
      omega
    · rw [Finmap.lookup_insert_of_ne _ hk₁] at h₁
      rw [Finmap.lookup_insert_of_ne _ hk₂] at h₂
      exact m.inj k₁ k₂ p h₁ h₂

/-- `*p = f(*p)`. -/
def modify (m : PtrMap K V) (p : Nat) (f : V → V) : PtrMap K V where
  cells := m.cells.modify p f
  dir := m.dir
  valid := by intro k q h; rw [List.length_modify]; exact m.valid k q h
  inj := m.inj

/-- `*m[k] = f(*m[k])`; a key that is absent has no cell to write. -/
def modifyAt (m : PtrMap K V) (k : K) (f : V → V) : PtrMap K V :=
  match m.find? k with
  | none => m
  | some p => m.modify p f

/-- `delete(m, k)`: the key goes, the cell stays for whoever still points to it. -/
def erase (m : PtrMap K V) (k : K) : PtrMap K V where
  cells := m.cells
  dir := m.dir.erase k
  valid := by
    intro k' p h
    by_cases hk : k' = k
    · rw [hk, Finmap.lookup_erase] at h; exact absurd h (by simp)
    · rw [Finmap.lookup_erase_ne hk] at h; exact m.valid k' p h
  inj := by
    intro k₁ k₂ p h₁ h₂
    by_cases hk₁ : k₁ = k
    · rw [hk₁, Finmap.lookup_erase] at h₁; exact absurd h₁ (by simp)
    · by_cases hk₂ : k₂ = k
      · rw [hk₂, Finmap.lookup_erase] at h₂; exact absurd h₂ (by simp)
      · rw [Finmap.lookup_erase_ne hk₁] at h₁
        rw [Finmap.lookup_erase_ne hk₂] at h₂
        exact m.inj k₁ k₂ p h₁ h₂

/-- What the map holds under `k`, read through its pointer. -/
def val [Inhabited V] (m : PtrMap K V) (k : K) : Option V := (m.find? k).map m.deref

/-! ## Pointers -/

@[simp] theorem find?_empty (k : K) : (empty : PtrMap K V).find? k = none :=
  Finmap.lookup_empty k

@[simp] theorem find?_modify (m : PtrMap K V) (p : Nat) (f : V → V) (k : K) :
    (m.modify p f).find? k = m.find? k := rfl

@[simp] theorem find?_modifyAt (m : PtrMap K V) (k k' : K) (f : V → V) :
    (m.modifyAt k f).find? k' = m.find? k' := by
  unfold modifyAt
  cases m.find? k <;> rfl

theorem find?_alloc_self (m : PtrMap K V) (k : K) (v : V) :
    (m.alloc k v).find? k = some m.cells.length := Finmap.lookup_insert _

theorem find?_alloc_of_ne (m : PtrMap K V) {k k' : K} (v : V) (h : k' ≠ k) :
    (m.alloc k v).find? k' = m.find? k' := Finmap.lookup_insert_of_ne _ h

variable [Inhabited V]

/-- A pointer into the map reads the write made through it. -/
theorem deref_modify_self (m : PtrMap K V) {k : K} {p : Nat} (f : V → V)
    (h : m.find? k = some p) : (m.modify p f).deref p = f (m.deref p) := by
  have hp : p < m.cells.length := m.valid k p h
  simp [deref, modify, List.getElem?_eq_getElem hp]

/-- A write through one pointer leaves every other cell alone. -/
theorem deref_modify_of_ne (m : PtrMap K V) {p q : Nat} (f : V → V) (h : q ≠ p) :
    (m.modify p f).deref q = m.deref q := by
  simp [deref, modify, Ne.symm h]

theorem deref_alloc_of_lt (m : PtrMap K V) {p : Nat} (k : K) (v : V)
    (h : p < m.cells.length) : (m.alloc k v).deref p = m.deref p := by
  simp [deref, alloc, List.getElem?_append_left h]

theorem deref_alloc_self (m : PtrMap K V) (k : K) (v : V) :
    (m.alloc k v).deref m.cells.length = v := by
  simp [deref, alloc]

/-- A fresh cell is one that read as nothing before. -/
theorem deref_alloc (m : PtrMap K V) (k : K) (v : V) (p : Nat) :
    (m.alloc k v).deref p = Function.update m.deref m.cells.length v p := by
  by_cases hp : p = m.cells.length
  · subst hp
    rw [Function.update_self, deref_alloc_self]
  · rw [Function.update_of_ne hp]
    rcases Nat.lt_or_gt_of_ne hp with hlt | hgt
    · exact deref_alloc_of_lt m k v hlt
    · have hnew : (m.cells ++ [v]).length ≤ p := by
        rw [List.length_append, List.length_singleton]
        omega
      simp [deref, alloc, List.getElem?_eq_none hnew, List.getElem?_eq_none hgt.le]

/-! ## Contents -/

theorem val_of_find? {m : PtrMap K V} {k : K} {p : Nat} (h : m.find? k = some p) :
    m.val k = some (m.deref p) := by
  rw [val, h]; rfl

theorem val_eq_none {m : PtrMap K V} {k : K} : m.val k = none ↔ m.find? k = none := by
  simp [val]

@[simp] theorem val_empty (k : K) : (empty : PtrMap K V).val k = none :=
  val_eq_none.mpr (find?_empty k)

theorem mem_keys {m : PtrMap K V} {k : K} : k ∈ m.keys ↔ (m.val k).isSome := by
  rw [keys, Finmap.mem_keys, ← Finmap.lookup_isSome, val, Option.isSome_map]
  rfl

@[simp] theorem val_alloc (m : PtrMap K V) (k : K) (v : V) :
    (m.alloc k v).val = Function.update m.val k (some v) := by
  funext k'
  by_cases hk : k' = k
  · subst hk
    rw [Function.update_self, val_of_find? (find?_alloc_self m k' v), deref_alloc_self]
  · rw [Function.update_of_ne hk, val, val, find?_alloc_of_ne m v hk]
    cases hp : m.find? k' with
    | none => rfl
    | some p => exact congrArg some (deref_alloc_of_lt m k v (m.valid k' p hp))

/-- **A write through the pointer of `k` changes what the map holds under `k`, and nothing
else.** -/
theorem val_modify (m : PtrMap K V) {k : K} {p : Nat} (f : V → V) (h : m.find? k = some p) :
    (m.modify p f).val = Function.update m.val k (some (f (m.deref p))) := by
  funext k'
  by_cases hk : k' = k
  · subst hk
    have hf : (m.modify p f).find? k' = some p := h
    rw [Function.update_self, val_of_find? hf, deref_modify_self m f h]
  · rw [Function.update_of_ne hk, val, val, find?_modify]
    cases hq : m.find? k' with
    | none => rfl
    | some q =>
        -- no two keys share a cell
        have hne : q ≠ p := fun he => hk (m.inj k' k p (he ▸ hq) h)
        exact congrArg some (deref_modify_of_ne m f hne)

/-- A write through a pointer that `k` does not hold. -/
theorem val_modify_of_ne (m : PtrMap K V) {k : K} {p : Nat} (f : V → V)
    (h : m.find? k ≠ some p) : (m.modify p f).val k = m.val k := by
  rw [val, val, find?_modify]
  cases hq : m.find? k with
  | none => rfl
  | some q =>
      have hne : q ≠ p := fun he => h (he ▸ hq)
      exact congrArg some (deref_modify_of_ne m f hne)

@[simp] theorem val_modifyAt (m : PtrMap K V) (k : K) (f : V → V) :
    (m.modifyAt k f).val = Function.update m.val k ((m.val k).map f) := by
  unfold modifyAt
  cases hp : m.find? k with
  | none =>
      have hv : m.val k = none := val_eq_none.mpr hp
      rw [hv, Option.map_none, ← hv, Function.update_eq_self]
  | some p =>
      dsimp only
      rw [val_modify m f hp, val_of_find? hp, Option.map_some]

@[simp] theorem val_erase (m : PtrMap K V) (k : K) :
    (m.erase k).val = Function.update m.val k none := by
  funext k'
  by_cases hk : k' = k
  · subst hk
    rw [Function.update_self, val_eq_none]
    exact Finmap.lookup_erase k' m.dir
  · rw [Function.update_of_ne hk, val, val]
    have hf : (m.erase k).find? k' = m.find? k' := Finmap.lookup_erase_ne hk
    rw [hf]
    rfl

/-- After a list of deletions the listed keys are gone and the others are untouched. -/
theorem val_foldl_erase (ks : List K) (m : PtrMap K V) (k : K) :
    (ks.foldl erase m).val k = if k ∈ ks then none else m.val k := by
  induction ks generalizing m with
  | nil => simp
  | cons x xs ih =>
      rw [List.foldl_cons, ih, val_erase]
      by_cases hxs : k ∈ xs
      · simp [hxs]
      · by_cases hx : k = x
        · subst hx; simp
        · simp [hxs, hx]

end PtrMap

end Kubpf.Lib
