import Mathlib.Data.UInt
import Mathlib.Algebra.BigOperators.Group.List.Basic
import Mathlib.Algebra.Order.Group.Nat

/-!
# Flow keys and flow counters

The records that cross the boundary between the kernel program and the agent.
Each is declared twice in the source, once in `flow.h` and once in Go, field for
field in the same order; one structure stands for both.

The counters are kept polymorphic in the number type. `FlowStats` is the record
both programs hold, with 64-bit fields that wrap; the same record over `Nat` is
what a history of packets adds up to, and `FlowStatsOf.ofNat` says how the second
is seen through the first.
-/

namespace Kubpf

/-! ## Keys -/

/-- `struct proto_port`: the padding keeps the key a multiple of four bytes. -/
structure ProtoPort where
  ipProto : UInt8
  padding : Vector UInt8 3
  sport : UInt16
  dport : UInt16
  deriving DecidableEq, Repr

/-- `struct inet_v4_flow`. Addresses and ports hold the packet's bytes as they stand, read
as native integers. -/
structure InetV4Flow where
  srcIp : UInt32
  dstIp : UInt32
  l4 : ProtoPort
  deriving DecidableEq, Repr

/-- `struct inet_v6_flow`. -/
structure InetV6Flow where
  srcIp : Vector UInt32 4
  dstIp : Vector UInt32 4
  l4 : ProtoPort
  deriving DecidableEq, Repr

/-! ## Counters -/

/-- `struct flow_stats` over any number type. -/
@[ext] structure FlowStatsOf (α : Type) where
  outBytes : α
  outPackets : α
  inBytes : α
  inPackets : α
  deriving DecidableEq, Repr

/-- `struct flow_stats` and Go's `FlowStats`: four 64-bit counters. -/
abbrev FlowStats := FlowStatsOf UInt64

namespace FlowStatsOf

section Algebra

variable {α β : Type}

instance [Zero α] : Zero (FlowStatsOf α) := ⟨⟨0, 0, 0, 0⟩⟩

instance [Zero α] : Inhabited (FlowStatsOf α) := ⟨0⟩

instance [Add α] : Add (FlowStatsOf α) where
  add a b := ⟨a.outBytes + b.outBytes, a.outPackets + b.outPackets,
    a.inBytes + b.inBytes, a.inPackets + b.inPackets⟩

@[simp] theorem outBytes_zero [Zero α] : (0 : FlowStatsOf α).outBytes = 0 := rfl
@[simp] theorem outPackets_zero [Zero α] : (0 : FlowStatsOf α).outPackets = 0 := rfl
@[simp] theorem inBytes_zero [Zero α] : (0 : FlowStatsOf α).inBytes = 0 := rfl
@[simp] theorem inPackets_zero [Zero α] : (0 : FlowStatsOf α).inPackets = 0 := rfl

@[simp] theorem outBytes_add [Add α] (a b : FlowStatsOf α) :
    (a + b).outBytes = a.outBytes + b.outBytes := rfl
@[simp] theorem outPackets_add [Add α] (a b : FlowStatsOf α) :
    (a + b).outPackets = a.outPackets + b.outPackets := rfl
@[simp] theorem inBytes_add [Add α] (a b : FlowStatsOf α) :
    (a + b).inBytes = a.inBytes + b.inBytes := rfl
@[simp] theorem inPackets_add [Add α] (a b : FlowStatsOf α) :
    (a + b).inPackets = a.inPackets + b.inPackets := rfl

instance [AddCommMonoid α] : AddCommMonoid (FlowStatsOf α) where
  add_assoc a b c := by ext <;> simp [add_assoc]
  zero_add a := by ext <;> simp
  add_zero a := by ext <;> simp
  add_comm a b := by ext <;> simp [add_comm]
  nsmul := nsmulRec

/-- Componentwise order. -/
instance [LE α] : LE (FlowStatsOf α) where
  le a b := a.outBytes ≤ b.outBytes ∧ a.outPackets ≤ b.outPackets
    ∧ a.inBytes ≤ b.inBytes ∧ a.inPackets ≤ b.inPackets

instance [LE α] [DecidableLE α] : DecidableLE (FlowStatsOf α) := fun a b =>
  inferInstanceAs (Decidable (a.outBytes ≤ b.outBytes ∧ a.outPackets ≤ b.outPackets
    ∧ a.inBytes ≤ b.inBytes ∧ a.inPackets ≤ b.inPackets))

instance [PartialOrder α] : PartialOrder (FlowStatsOf α) where
  le_refl a := ⟨le_refl _, le_refl _, le_refl _, le_refl _⟩
  le_trans _ _ _ h h' :=
    ⟨h.1.trans h'.1, h.2.1.trans h'.2.1, h.2.2.1.trans h'.2.2.1, h.2.2.2.trans h'.2.2.2⟩
  le_antisymm _ _ h h' := by
    ext
    · exact le_antisymm h.1 h'.1
    · exact le_antisymm h.2.1 h'.2.1
    · exact le_antisymm h.2.2.1 h'.2.2.1
    · exact le_antisymm h.2.2.2 h'.2.2.2

instance [AddCommMonoid α] [PartialOrder α] [IsOrderedAddMonoid α] :
    IsOrderedAddMonoid (FlowStatsOf α) where
  add_le_add_left _ _ h _ :=
    ⟨add_le_add_left h.1 _, add_le_add_left h.2.1 _, add_le_add_left h.2.2.1 _,
      add_le_add_left h.2.2.2 _⟩

/-- Apply `f` to each counter. -/
def map (f : α → β) (a : FlowStatsOf α) : FlowStatsOf β :=
  ⟨f a.outBytes, f a.outPackets, f a.inBytes, f a.inPackets⟩

/-- `(*FlowStats).swap`: exchange the two directions. -/
def swap (fs : FlowStatsOf α) : FlowStatsOf α :=
  { fs with
    outPackets := fs.inPackets, inPackets := fs.outPackets
    outBytes := fs.inBytes, inBytes := fs.outBytes }

@[simp] theorem swap_swap (fs : FlowStatsOf α) : fs.swap.swap = fs := rfl

@[simp] theorem swap_zero [Zero α] : (0 : FlowStatsOf α).swap = 0 := rfl

@[simp] theorem swap_add [Add α] (a b : FlowStatsOf α) : (a + b).swap = a.swap + b.swap := rfl

end Algebra

/-! ## From exact totals to 64-bit counters -/

/-- Exact totals as 64-bit counters hold them. -/
def ofNat (a : FlowStatsOf Nat) : FlowStats := a.map UInt64.ofNat

/-- The value of each counter. -/
def toNat (a : FlowStats) : FlowStatsOf Nat := a.map UInt64.toNat

@[simp] theorem ofNat_zero : ofNat 0 = 0 := rfl

@[simp] theorem ofNat_add (a b : FlowStatsOf Nat) : ofNat (a + b) = ofNat a + ofNat b := by
  ext <;> simp [ofNat, map, UInt64.ofNat_add]

@[simp] theorem ofNat_swap (a : FlowStatsOf Nat) : ofNat a.swap = (ofNat a).swap := rfl

/-- No total has reached `2 ^ 64`: nothing has wrapped. -/
def Fits (a : FlowStatsOf Nat) : Prop :=
  a.outBytes < 2 ^ 64 ∧ a.outPackets < 2 ^ 64 ∧ a.inBytes < 2 ^ 64 ∧ a.inPackets < 2 ^ 64

/-- Totals that fit are read back exactly. -/
theorem toNat_ofNat {a : FlowStatsOf Nat} (h : a.Fits) : (ofNat a).toNat = a := by
  obtain ⟨h1, h2, h3, h4⟩ := h
  ext <;> simp only [toNat, ofNat, map, UInt64.toNat_ofNat'] <;> exact Nat.mod_eq_of_lt ‹_›

/-- There is nothing below zero. -/
theorem zero_le_nat (a : FlowStatsOf Nat) : 0 ≤ a :=
  ⟨Nat.zero_le _, Nat.zero_le _, Nat.zero_le _, Nat.zero_le _⟩

/-- Adding in 64 bits gives at most the sum. -/
theorem toNat_add_le (v : FlowStats) (s : FlowStatsOf Nat) : (v + ofNat s).toNat ≤ v.toNat + s := by
  have hle : ∀ (x : UInt64) (n : Nat), (x + UInt64.ofNat n).toNat ≤ x.toNat + n := by
    intro x n
    rw [UInt64.toNat_add, UInt64.toNat_ofNat', Nat.add_mod_mod]
    exact Nat.mod_le _ _
  exact ⟨hle .., hle .., hle .., hle ..⟩

/-- The four counters together, as a homomorphism. -/
def ofNatHom : FlowStatsOf Nat →+ FlowStats where
  toFun := ofNat
  map_zero' := ofNat_zero
  map_add' := ofNat_add

/-- The exchange of directions, as a homomorphism. -/
def swapHom {α : Type} [AddCommMonoid α] : FlowStatsOf α →+ FlowStatsOf α where
  toFun := swap
  map_zero' := swap_zero
  map_add' := swap_add

theorem ofNat_sum (l : List (FlowStatsOf Nat)) : ofNat l.sum = (l.map ofNat).sum :=
  map_list_sum ofNatHom l

/-! ## Packets of both directions -/

def packets (s : FlowStatsOf Nat) : Nat := s.outPackets + s.inPackets

theorem packets_add (a b : FlowStatsOf Nat) : packets (a + b) = packets a + packets b := by
  simp only [packets, outPackets_add, inPackets_add]
  omega

/-- Counters that gain nothing gain a multiple of `2 ^ 64` packets. -/
theorem packets_eq_zero_of_add_eq {v : FlowStats} {d : FlowStatsOf Nat}
    (h : v = v + ofNat d) (hd : packets d < 2 ^ 64) : packets d = 0 := by
  -- the increment is a multiple of 2 ^ 64, and only 0 is small enough
  have hzero : ∀ (x : UInt64) (n : Nat), n < 2 ^ 64 → x = x + UInt64.ofNat n → n = 0 := by
    intro x n hn hx
    have hx0 : UInt64.ofNat n = 0 := by grind
    have := congrArg UInt64.toNat hx0
    rw [UInt64.toNat_ofNat', Nat.mod_eq_of_lt hn] at this
    exact this
  have hout := hzero v.outPackets d.outPackets (by unfold packets at hd; omega)
    (congrArg FlowStatsOf.outPackets h)
  have hin := hzero v.inPackets d.inPackets (by unfold packets at hd; omega)
    (congrArg FlowStatsOf.inPackets h)
  unfold packets
  omega

end FlowStatsOf

end Kubpf
