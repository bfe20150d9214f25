import Mathlib.Data.Finset.Card
import Kubpf.Lib.PtrMap

/-!
# BPF hash maps

`BPF_MAP_TYPE_HASH` as the helpers present it to a program: a lookup returns a
pointer to the element, an update with `BPF_ANY` puts a fresh element in place of
whatever the key held, and an insert into a full map is refused. That the map
never holds more than `maxEntries` keys is part of the type.
-/

namespace Kubpf.Lib

/-- `-E2BIG`, what an update of a full map returns. -/
def negE2BIG : Int := -7

/-- A BPF hash map. -/
structure BpfHash (K V : Type) [DecidableEq K] where
  maxEntries : Nat
  table : PtrMap K V
  /-- The map never outgrows its declared size. -/
  bounded : table.keys.card ≤ maxEntries

namespace BpfHash

variable {K V : Type} [DecidableEq K]

/-- A map as it is created. -/
def empty (maxEntries : Nat) : BpfHash K V where
  maxEntries := maxEntries
  table := PtrMap.empty
  bounded := Nat.zero_le _

/-- `bpf_map_lookup_elem`: a pointer to the element, or null. -/
def lookupElem (m : BpfHash K V) (k : K) : Option Nat := m.table.find? k

/-- An insert would be refused. -/
def Full (m : BpfHash K V) (k : K) : Prop := k ∉ m.table.keys ∧ m.maxEntries ≤ m.table.keys.card

instance (m : BpfHash K V) (k : K) : Decidable (m.Full k) :=
  inferInstanceAs (Decidable (_ ∧ _))

/-- A map that refuses one key refuses every key it does not hold. -/
theorem Full.mem_keys_of_not_full {m : BpfHash K V} {k k' : K} (h : m.Full k)
    (h' : ¬ m.Full k') : k' ∈ m.table.keys := by
  by_contra hk'
  exact h' ⟨hk', h.2⟩

theorem card_alloc_le (m : BpfHash K V) {k : K} {v : V} (h : ¬ m.Full k) :
    (m.table.alloc k v).keys.card ≤ m.maxEntries := by
  have hk : (m.table.alloc k v).keys = insert k m.table.keys := by
    ext k'
    rw [PtrMap.keys, Finmap.mem_keys, PtrMap.alloc, Finmap.mem_insert, Finset.mem_insert,
      PtrMap.keys, Finmap.mem_keys]
  rw [hk]
  -- only a new key takes up room, and `Full` rules out that there is none
  by_cases hmem : k ∈ m.table.keys
  · rw [Finset.insert_eq_of_mem hmem]; exact m.bounded
  · rw [Finset.card_insert_of_notMem hmem]
    exact Nat.lt_of_not_le (fun hle => h ⟨hmem, hle⟩)

/-- `bpf_map_update_elem(m, &k, &v, BPF_ANY)`: the return code and the map afterwards. -/
def updateElem (m : BpfHash K V) (k : K) (v : V) : Int × BpfHash K V :=
  if h : m.Full k then (negE2BIG, m)
  else (0, { m with table := m.table.alloc k v, bounded := m.card_alloc_le h })

/-- A write through an element pointer. -/
def modify (m : BpfHash K V) (p : Nat) (f : V → V) : BpfHash K V where
  maxEntries := m.maxEntries
  table := m.table.modify p f
  bounded := m.bounded

theorem card_erase_le (m : BpfHash K V) (k : K) : (m.table.erase k).keys.card ≤ m.maxEntries := by
  have hk : (m.table.erase k).keys = m.table.keys.erase k := Finmap.keys_erase k m.table.dir
  rw [hk]
  exact Nat.le_trans (Finset.card_erase_le) m.bounded

/-- `bpf_map_delete_elem` as it succeeds; a key that is absent stays absent. -/
def deleteElem (m : BpfHash K V) (k : K) : BpfHash K V where
  maxEntries := m.maxEntries
  table := m.table.erase k
  bounded := m.card_erase_le k

@[simp] theorem maxEntries_modify (m : BpfHash K V) (p : Nat) (f : V → V) :
    (m.modify p f).maxEntries = m.maxEntries := rfl

@[simp] theorem maxEntries_updateElem (m : BpfHash K V) (k : K) (v : V) :
    (m.updateElem k v).2.maxEntries = m.maxEntries := by
  unfold updateElem; split <;> rfl

/-- Elements are not taken back. -/
theorem length_cells_updateElem_le (m : BpfHash K V) (k : K) (v : V) :
    m.table.cells.length ≤ (m.updateElem k v).2.table.cells.length := by
  unfold updateElem
  split_ifs
  · exact Nat.le_refl _
  · simp [PtrMap.alloc]

theorem updateElem_of_full {m : BpfHash K V} {k : K} {v : V} (h : m.Full k) :
    m.updateElem k v = (negE2BIG, m) := by
  rw [updateElem, dif_pos h]

@[simp] theorem lookupElem_modify (m : BpfHash K V) (p : Nat) (f : V → V) (k : K) :
    (m.modify p f).lookupElem k = m.lookupElem k := rfl

/-- A map whose keys, with one more, still fit a set of at most `maxEntries` keys is not full. -/
theorem not_full_of_subset {m : BpfHash K V} {k : K} {s : Finset K}
    (hsub : m.table.keys ⊆ s) (hk : k ∈ s) (hs : s.card ≤ m.maxEntries) : ¬ m.Full k := by
  rintro ⟨hnot, hle⟩
  have hlt : m.table.keys.card < s.card :=
    Finset.card_lt_card ⟨hsub, fun h => hnot (h hk)⟩
  omega

/-! ## Contents -/

variable [Inhabited V]

/-- What the map holds under `k`. -/
def val (m : BpfHash K V) (k : K) : Option V := m.table.val k

@[simp] theorem val_empty (n : Nat) (k : K) : (empty n : BpfHash K V).val k = none :=
  PtrMap.val_empty k

theorem mem_keys {m : BpfHash K V} {k : K} : k ∈ m.table.keys ↔ (m.val k).isSome :=
  PtrMap.mem_keys

/-- The pointer a lookup returns reads the key's value. -/
theorem val_of_lookupElem {m : BpfHash K V} {k : K} {p : Nat} (h : m.lookupElem k = some p) :
    m.val k = some (m.table.deref p) := PtrMap.val_of_find? h

theorem val_eq_none {m : BpfHash K V} {k : K} : m.val k = none ↔ m.lookupElem k = none :=
  PtrMap.val_eq_none

/-- An update that is not refused. -/
theorem val_updateElem {m : BpfHash K V} {k : K} {v : V} (h : ¬ m.Full k) :
    (m.updateElem k v).2.val = Function.update m.val k (some v) := by
  rw [updateElem, dif_neg h]
  exact PtrMap.val_alloc m.table k v

theorem val_modify {m : BpfHash K V} {k : K} {p : Nat} (f : V → V) (h : m.lookupElem k = some p) :
    (m.modify p f).val = Function.update m.val k (some (f (m.table.deref p))) :=
  PtrMap.val_modify m.table f h

/-- A write through a pointer the key no longer holds. -/
theorem val_modify_of_ne {m : BpfHash K V} {k : K} {p : Nat} (f : V → V)
    (h : m.lookupElem k ≠ some p) : (m.modify p f).val k = m.val k :=
  PtrMap.val_modify_of_ne m.table f h

@[simp] theorem val_deleteElem (m : BpfHash K V) (k : K) :
    (m.deleteElem k).val = Function.update m.val k none := PtrMap.val_erase m.table k

/-! ## Maps that cannot be told apart -/

/-- The same size and the same contents; the elements may lie elsewhere. -/
structure Same (m m' : BpfHash K V) : Prop where
  maxEntries : m.maxEntries = m'.maxEntries
  val : m.val = m'.val

theorem same_equiv : Equivalence (@Same K V _ _) where
  refl _ := ⟨rfl, rfl⟩
  symm h := ⟨h.maxEntries.symm, h.val.symm⟩
  trans h h' := ⟨h.maxEntries.trans h'.maxEntries, h.val.trans h'.val⟩

theorem Same.keys_eq {m m' : BpfHash K V} (h : Same m m') : m.table.keys = m'.table.keys := by
  ext k
  rw [mem_keys, mem_keys, h.val]

theorem Same.full_iff {m m' : BpfHash K V} (h : Same m m') (k : K) : m.Full k ↔ m'.Full k := by
  unfold Full
  rw [h.keys_eq, h.maxEntries]

theorem same_deleteElem {m m' : BpfHash K V} (h : Same m m') (k : K) :
    Same (m.deleteElem k) (m'.deleteElem k) := by
  refine ⟨h.maxEntries, ?_⟩
  rw [val_deleteElem, val_deleteElem, h.val]

end BpfHash

end Kubpf.Lib
