import Mathlib.Algebra.Order.BigOperators.Group.Finset
import Kubpf.Lib.BpfHash

/-!
# Hash maps over a stock of elements

A hash map that makes its elements once and hands them out again. An update takes
an element no key holds, which one is not the caller's business, and the element
the key held before goes back to the stock; so does a deleted one. Nothing tells
a holder of its address: a write through an old pointer lands in whatever the
element is used for by now.

What such a write cannot do is make anything up. `held` adds a measure of the
contents over all keys, and every operation raises it by what it writes, at most.
A `BpfHash` is the case in which the stock never runs out and nothing is used
again (`Models`).
-/

namespace Kubpf.Lib

/-- A map from keys to elements, and what the elements hold, in use or not. -/
structure ElementPool (K V : Type) [DecidableEq K] where
  maxEntries : Nat
  /-- The contents of every element there is. -/
  elems : Nat → V
  /-- The element of each key. -/
  dir : Finmap (fun _ : K => Nat)
  /-- No two keys hold the same element. -/
  inj : ∀ k₁ k₂ p, dir.lookup k₁ = some p → dir.lookup k₂ = some p → k₁ = k₂
  bounded : dir.keys.card ≤ maxEntries

namespace ElementPool

variable {K V : Type} [DecidableEq K]

theorem no_elements {k₁ k₂ : K} {p : Nat}
    (h : (∅ : Finmap (fun _ : K => Nat)).lookup k₁ = some p) : k₁ = k₂ := by
  rw [Finmap.lookup_empty] at h
  cases h

/-- A map as it is created. -/
def empty [Inhabited V] (maxEntries : Nat) : ElementPool K V where
  maxEntries := maxEntries
  elems _ := default
  dir := ∅
  inj _ _ _ h _ := no_elements h
  bounded := Nat.zero_le _

def keys (m : ElementPool K V) : Finset K := m.dir.keys

/-- The element a key holds. -/
def lookupElem (m : ElementPool K V) (k : K) : Option Nat := m.dir.lookup k

/-- No key holds this element. -/
def Free (m : ElementPool K V) (p : Nat) : Prop := ∀ k ∈ m.keys, m.lookupElem k ≠ some p

instance (m : ElementPool K V) (p : Nat) : Decidable (m.Free p) :=
  inferInstanceAs (Decidable (∀ k ∈ m.keys, m.lookupElem k ≠ some p))

/-- An insert would be refused. -/
def Full (m : ElementPool K V) (k : K) : Prop := k ∉ m.keys ∧ m.maxEntries ≤ m.keys.card

instance (m : ElementPool K V) (k : K) : Decidable (m.Full k) :=
  inferInstanceAs (Decidable (_ ∧ _))

theorem mem_keys {m : ElementPool K V} {k : K} : k ∈ m.keys ↔ ∃ p, m.lookupElem k = some p := by
  rw [keys, Finmap.mem_keys, ← Finmap.lookup_isSome, Option.isSome_iff_exists]
  rfl

theorem Free.ne {m : ElementPool K V} {p : Nat} (h : m.Free p) (k : K) :
    m.lookupElem k ≠ some p := fun hk => h k (mem_keys.mpr ⟨p, hk⟩) hk

theorem exists_of_not_free {m : ElementPool K V} {p : Nat} (h : ¬ m.Free p) :
    ∃ k, m.lookupElem k = some p := by
  unfold Free at h
  push Not at h
  obtain ⟨k, -, hk⟩ := h
  exact ⟨k, hk⟩

theorem keys_insert (m : ElementPool K V) (k : K) (p : Nat) :
    (m.dir.insert k p).keys = insert k m.keys := by
  ext k'
  rw [Finmap.mem_keys, Finmap.mem_insert, Finset.mem_insert, keys, Finmap.mem_keys]

/-- Put `v` into a free element and give it to `k`. -/
def place (m : ElementPool K V) (slot : Nat) (k : K) (v : V) (hfree : m.Free slot)
    (hroom : ¬ m.Full k) : ElementPool K V where
  maxEntries := m.maxEntries
  elems := Function.update m.elems slot v
  dir := m.dir.insert k slot
  inj := by
    intro k₁ k₂ p h₁ h₂
    by_cases hk₁ : k₁ = k <;> by_cases hk₂ : k₂ = k
    · rw [hk₁, hk₂]
    · -- the other key's element was not free
      subst hk₁
      rw [Finmap.lookup_insert] at h₁
      rw [Finmap.lookup_insert_of_ne _ hk₂, ← h₁] at h₂
      exact absurd h₂ (hfree.ne k₂)
    · subst hk₂
      rw [Finmap.lookup_insert] at h₂
      rw [Finmap.lookup_insert_of_ne _ hk₁, ← h₂] at h₁
      exact absurd h₁ (hfree.ne k₁)
    · rw [Finmap.lookup_insert_of_ne _ hk₁] at h₁
      rw [Finmap.lookup_insert_of_ne _ hk₂] at h₂
      exact m.inj k₁ k₂ p h₁ h₂
  bounded := by
    rw [keys_insert]
    by_cases hk : k ∈ m.keys
    · rw [Finset.insert_eq_of_mem hk]; exact m.bounded
    · rw [Finset.card_insert_of_notMem hk]
      exact Nat.lt_of_not_le fun hle => hroom ⟨hk, hle⟩

/-- An update, where `slot` is the element the stock gives out. A refused insert leaves the map. -/
def updateElem (m : ElementPool K V) (slot : Nat) (k : K) (v : V) : Option (ElementPool K V) :=
  if hroom : m.Full k then some m
  else if hfree : m.Free slot then some (m.place slot k v hfree hroom)
  else none

/-- A write through an element's address. -/
def modify (m : ElementPool K V) (p : Nat) (f : V → V) : ElementPool K V where
  maxEntries := m.maxEntries
  elems := Function.update m.elems p (f (m.elems p))
  dir := m.dir
  inj := m.inj
  bounded := m.bounded

/-- The key's element goes back to the stock, with what it holds. -/
def deleteElem (m : ElementPool K V) (k : K) : ElementPool K V where
  maxEntries := m.maxEntries
  elems := m.elems
  dir := m.dir.erase k
  inj := by
    intro k₁ k₂ p h₁ h₂
    by_cases hk₁ : k₁ = k
    · rw [hk₁, Finmap.lookup_erase] at h₁; cases h₁
    · by_cases hk₂ : k₂ = k
      · rw [hk₂, Finmap.lookup_erase] at h₂; cases h₂
      · rw [Finmap.lookup_erase_ne hk₁] at h₁
        rw [Finmap.lookup_erase_ne hk₂] at h₂
        exact m.inj k₁ k₂ p h₁ h₂
  bounded := by
    rw [Finmap.keys_erase]
    exact Nat.le_trans Finset.card_erase_le m.bounded

/-- What the map holds under `k`. -/
def val (m : ElementPool K V) (k : K) : Option V := (m.lookupElem k).map m.elems

/-! ## Lookups -/

@[simp] theorem lookupElem_modify (m : ElementPool K V) (p : Nat) (f : V → V) (k : K) :
    (m.modify p f).lookupElem k = m.lookupElem k := rfl

theorem lookupElem_place (m : ElementPool K V) {slot : Nat} {k : K} (v : V) (hfree : m.Free slot)
    (hroom : ¬ m.Full k) (k' : K) :
    (m.place slot k v hfree hroom).lookupElem k' = if k' = k then some slot else m.lookupElem k' := by
  split_ifs with hk
  · subst hk; exact Finmap.lookup_insert _
  · exact Finmap.lookup_insert_of_ne _ hk

theorem lookupElem_deleteElem (m : ElementPool K V) (k k' : K) :
    (m.deleteElem k).lookupElem k' = if k' = k then none else m.lookupElem k' := by
  split_ifs with hk
  · subst hk; exact Finmap.lookup_erase k' m.dir
  · exact Finmap.lookup_erase_ne hk

/-- **What an update can do.** -/
theorem updateElem_eq_some {m m' : ElementPool K V} {slot : Nat} {k : K} {v : V}
    (h : m.updateElem slot k v = some m') :
    (m.Full k ∧ m' = m) ∨
      ∃ (hfree : m.Free slot) (hroom : ¬ m.Full k), m' = m.place slot k v hfree hroom := by
  unfold updateElem at h
  split_ifs at h with hroom hfree
  · exact Or.inl ⟨hroom, (Option.some.inj h).symm⟩
  · exact Or.inr ⟨hfree, hroom, (Option.some.inj h).symm⟩

/-! ## Contents -/

@[simp] theorem val_empty [Inhabited V] (n : Nat) (k : K) :
    (empty n : ElementPool K V).val k = none := by
  rw [val, lookupElem, empty, Finmap.lookup_empty]
  rfl

theorem val_of_lookupElem {m : ElementPool K V} {k : K} {p : Nat} (h : m.lookupElem k = some p) :
    m.val k = some (m.elems p) := by
  rw [val, h]; rfl

theorem val_place (m : ElementPool K V) {slot : Nat} {k : K} (v : V) (hfree : m.Free slot)
    (hroom : ¬ m.Full k) :
    (m.place slot k v hfree hroom).val = Function.update m.val k (some v) := by
  funext k'
  rw [val, lookupElem_place]
  by_cases hk : k' = k
  · subst hk
    rw [if_pos rfl, Function.update_self]
    exact congrArg some (Function.update_self ..)
  · rw [if_neg hk, Function.update_of_ne hk, val]
    cases hp : m.lookupElem k' with
    | none => rfl
    | some p =>
        -- nobody held the element that is written
        have hne : p ≠ slot := fun he => hfree.ne k' (he ▸ hp)
        exact congrArg some (Function.update_of_ne hne ..)

/-- **A write through an address changes the key that holds the element now**, if any. -/
theorem val_modify (m : ElementPool K V) (p : Nat) (f : V → V) (k : K) :
    (m.modify p f).val k = if m.lookupElem k = some p then (m.val k).map f else m.val k := by
  rw [val, val, lookupElem_modify]
  split_ifs with hk
  · rw [hk]
    exact congrArg some (Function.update_self ..)
  · cases hq : m.lookupElem k with
    | none => rfl
    | some q =>
        have hne : q ≠ p := fun he => hk (he ▸ hq)
        exact congrArg some (Function.update_of_ne hne ..)

theorem val_deleteElem (m : ElementPool K V) (k : K) :
    (m.deleteElem k).val = Function.update m.val k none := by
  funext k'
  rw [val, lookupElem_deleteElem]
  by_cases hk : k' = k
  · subst hk
    rw [if_pos rfl, Function.update_self]
    rfl
  · rw [if_neg hk, Function.update_of_ne hk]
    rfl

/-! ## What the map holds altogether -/

section Held

variable {A : Type} [AddCommMonoid A] {c : V → A}

/-- A measure of the contents, over all keys. -/
def held (c : V → A) (m : ElementPool K V) : A := ∑ k ∈ m.keys, ((m.val k).map c).getD 0

@[simp] theorem held_empty [Inhabited V] (n : Nat) : (empty n : ElementPool K V).held c = 0 := rfl

variable [PartialOrder A] [IsOrderedAddMonoid A]

/-- Without one of its keys a map holds no more. -/
theorem sum_erase_le (m : ElementPool K V) (hpos : ∀ v, 0 ≤ c v) (k : K) :
    ∑ k' ∈ m.keys.erase k, ((m.val k').map c).getD 0 ≤ m.held c := by
  refine Finset.sum_le_sum_of_subset_of_nonneg (Finset.erase_subset k _) fun k' _ _ => ?_
  cases m.val k' with
  | none => exact le_refl 0
  | some v => exact hpos v

theorem held_deleteElem_le (m : ElementPool K V) (hpos : ∀ v, 0 ≤ c v) (k : K) :
    (m.deleteElem k).held c ≤ m.held c := by
  have hkeys : (m.deleteElem k).keys = m.keys.erase k := Finmap.keys_erase k m.dir
  have hsum : (m.deleteElem k).held c = ∑ k' ∈ m.keys.erase k, ((m.val k').map c).getD 0 := by
    rw [held, hkeys, val_deleteElem]
    refine Finset.sum_congr rfl fun k' hk' => ?_
    rw [Function.update_of_ne (Finset.ne_of_mem_erase hk')]
  rw [hsum]
  exact m.sum_erase_le hpos k

/-- **An update adds the value it puts in, at most.** -/
theorem held_updateElem_le {m m' : ElementPool K V} {slot : Nat} {k : K} {v : V}
    (hpos : ∀ v, 0 ≤ c v) (h : m.updateElem slot k v = some m') : m'.held c ≤ m.held c + c v := by
  rcases updateElem_eq_some h with ⟨-, rfl⟩ | ⟨hfree, hroom, rfl⟩
  · exact le_add_of_nonneg_right (hpos v)
  · have hkeys : (m.place slot k v hfree hroom).keys = insert k (m.keys.erase k) := by
      rw [← Finset.erase_insert_eq_erase, Finset.insert_erase (Finset.mem_insert_self ..)]
      exact m.keys_insert k slot
    rw [held, hkeys, Finset.sum_insert (Finset.notMem_erase k _), val_place, Function.update_self,
      add_comm]
    refine add_le_add_left ?_ _
    refine le_trans (le_of_eq (Finset.sum_congr rfl fun k' hk' => ?_)) (m.sum_erase_le hpos k)
    rw [Function.update_of_ne (Finset.ne_of_mem_erase hk')]

/-- **A write adds what it adds to one element, at most**, wherever it lands. -/
theorem held_modify_le (m : ElementPool K V) (p : Nat) {f : V → V} {d : A} (hd : 0 ≤ d)
    (hf : ∀ v, c (f v) ≤ c v + d) : (m.modify p f).held c ≤ m.held c + d := by
  have hkeys : (m.modify p f).keys = m.keys := rfl
  by_cases hfree : m.Free p
  · -- into an element nobody holds
    have hsame : (m.modify p f).held c = m.held c := by
      rw [held, held, hkeys]
      refine Finset.sum_congr rfl fun k _ => ?_
      rw [val_modify, if_neg (hfree.ne k)]
    rw [hsame]
    exact le_add_of_nonneg_right hd
  · obtain ⟨k, hk⟩ := exists_of_not_free hfree
    have hmem : k ∈ m.keys := mem_keys.mpr ⟨p, hk⟩
    rw [held, held, hkeys, ← Finset.add_sum_erase _ _ hmem, ← Finset.add_sum_erase _ _ hmem,
      add_right_comm]
    refine add_le_add ?_ (le_of_eq (Finset.sum_congr rfl fun k' hk' => ?_))
    · rw [val_modify, if_pos hk, val_of_lookupElem hk]
      exact hf _
    · -- no other key holds it
      have hne : m.lookupElem k' ≠ some p :=
        fun h => Finset.ne_of_mem_erase hk' (m.inj k' k p h hk)
      rw [val_modify, if_neg hne]

end Held

/-! ## Maps that use nothing again -/

/-- The same keys at the same addresses, and the same in every element. -/
structure Models [Inhabited V] (m : BpfHash K V) (e : ElementPool K V) : Prop where
  maxEntries : e.maxEntries = m.maxEntries
  dir : e.dir = m.table.dir
  elems : e.elems = m.table.deref

section Models

variable [Inhabited V] {m : BpfHash K V} {e : ElementPool K V}

theorem models_empty (n : Nat) : Models (BpfHash.empty n : BpfHash K V) (empty n) := ⟨rfl, rfl, rfl⟩

theorem Models.lookupElem_eq (h : Models m e) (k : K) : e.lookupElem k = m.lookupElem k :=
  congrArg (Finmap.lookup k) h.dir

theorem Models.val_eq (h : Models m e) (k : K) : e.val k = m.val k := by
  rw [val, h.lookupElem_eq, h.elems]
  rfl

/-- **A fresh element is one the stock could have given out.** -/
theorem Models.updateElem (h : Models m e) (k : K) (v : V) :
    ∃ slot e', e.updateElem slot k v = some e' ∧ Models (m.updateElem k v).2 e' := by
  have hkeys : e.keys = m.table.keys := congrArg Finmap.keys h.dir
  have hiff : e.Full k ↔ m.Full k := by rw [Full, BpfHash.Full, hkeys, h.maxEntries]
  refine ⟨m.table.cells.length, ?_⟩
  by_cases hfull : m.Full k
  · refine ⟨e, dif_pos (hiff.mpr hfull), ?_⟩
    rw [BpfHash.updateElem_of_full hfull]
    exact h
  · have hroom : ¬ e.Full k := fun hf => hfull (hiff.mp hf)
    have hfree : e.Free m.table.cells.length := by
      intro k' _ hk'
      rw [h.lookupElem_eq] at hk'
      exact Nat.lt_irrefl _ (m.table.valid k' _ hk')
    refine ⟨e.place _ k v hfree hroom, ?_, ?_⟩
    · rw [ElementPool.updateElem, dif_neg hroom, dif_pos hfree]
    · rw [BpfHash.updateElem, dif_neg hfull]
      refine ⟨h.maxEntries, congrArg (Finmap.insert k _) h.dir, ?_⟩
      funext p
      rw [PtrMap.deref_alloc, ← h.elems]
      rfl

/-- Two maps of one size with the same keys refuse the same keys. -/
theorem full_iff (hsize : e.maxEntries = m.maxEntries)
    (hval : ∀ k, (e.val k).isSome = (m.val k).isSome) (k : K) : e.Full k ↔ m.Full k := by
  have hkeys : e.keys = m.table.keys := by
    ext k'
    rw [mem_keys, ← Option.isSome_iff_exists, BpfHash.mem_keys, ← hval k', val, Option.isSome_map]
  rw [Full, BpfHash.Full, hkeys, hsize]

theorem Models.modify (h : Models m e) {p : Nat} (hp : p < m.table.cells.length) (f : V → V) :
    Models (m.modify p f) (e.modify p f) := by
  refine ⟨h.maxEntries, h.dir, ?_⟩
  funext q
  rw [ElementPool.modify, h.elems]
  dsimp only
  by_cases hq : q = p
  · subst hq
    rw [Function.update_self]
    simp [PtrMap.deref, BpfHash.modify, PtrMap.modify, List.getElem?_eq_getElem hp]
  · rw [Function.update_of_ne hq]
    exact (PtrMap.deref_modify_of_ne m.table f hq).symm

end Models

end ElementPool

end Kubpf.Lib
