import Mathlib.Data.UInt
import Mathlib.Logic.Equiv.Basic

/-!
# Records as bytes

Two accounts of how a record lies in a buffer. A reader and writer of records go
field by field and leave nothing between the fields: a `Codec` carries the proof
that what is written is read back, and that nothing else is read. A C compiler
places each member at a multiple of its alignment and rounds the size up: an
`Image` is a C object in memory, with `none` for a byte no member accounts for.

The two agree where every member happens to fall on its alignment
(`Packed.filled`), which is what the explicit padding of wire formats is for.
-/

namespace Kubpf.Lib

/-! ## Reading and writing -/

/-- Values of one kind as so many bytes. -/
structure Codec (α : Type) where
  width : Nat
  write : α → List UInt8
  /-- The value at the front, and what comes after it. -/
  read : List UInt8 → Option (α × List UInt8)
  length_write : ∀ a, (write a).length = width
  read_write : ∀ a rest, read (write a ++ rest) = some (a, rest)
  /-- Only what is written can be read. -/
  write_read : ∀ bytes a rest, read bytes = some (a, rest) → bytes = write a ++ rest

namespace Codec

variable {α β : Type}

/-- **Different values are written differently.** -/
theorem write_injective (c : Codec α) {a a' : α} (h : c.write a = c.write a') : a = a' := by
  have hread := c.read_write a []
  rw [h, c.read_write a' []] at hread
  exact (Prod.mk.inj (Option.some.inj hread)).1.symm

/-- One byte. -/
def byte : Codec UInt8 where
  width := 1
  write b := [b]
  read
    | [] => none
    | b :: rest => some (b, rest)
  length_write _ := rfl
  read_write _ _ := rfl
  write_read := by
    intro bytes a rest h
    cases bytes with
    | nil => cases h
    | cons b bytes => cases h; rfl

/-- The same bytes, taken for values of another kind. -/
def map (e : α ≃ β) (c : Codec α) : Codec β where
  width := c.width
  write b := c.write (e.symm b)
  read bytes := (c.read bytes).map fun p => (e p.1, p.2)
  length_write b := c.length_write (e.symm b)
  read_write := by
    intro b rest
    rw [c.read_write]
    simp
  write_read := by
    intro bytes b rest h
    obtain ⟨⟨a, rest'⟩, hread, heq⟩ := Option.map_eq_some_iff.mp h
    obtain ⟨rfl, rfl⟩ := Prod.mk.inj heq
    rw [e.symm_apply_apply]
    exact c.write_read bytes a _ hread

/-- One value after the other. -/
def seq (c : Codec α) (d : Codec β) : Codec (α × β) where
  width := c.width + d.width
  write p := c.write p.1 ++ d.write p.2
  read bytes := (c.read bytes).bind fun p => (d.read p.2).map fun q => ((p.1, q.1), q.2)
  length_write p := by rw [List.length_append, c.length_write, d.length_write]
  read_write := by
    intro p rest
    rw [List.append_assoc, c.read_write, Option.bind_some, d.read_write]
    rfl
  write_read := by
    intro bytes p rest h
    obtain ⟨⟨a, rest₁⟩, hread, h⟩ := Option.bind_eq_some_iff.mp h
    obtain ⟨⟨b, rest₂⟩, hread₂, heq⟩ := Option.map_eq_some_iff.mp h
    obtain ⟨rfl, rfl⟩ := Prod.mk.inj heq
    rw [c.write_read bytes a rest₁ hread, d.write_read rest₁ b rest₂ hread₂, List.append_assoc]

/-- Nothing at all. -/
def unit : Codec Unit where
  width := 0
  write _ := []
  read bytes := some ((), bytes)
  length_write _ := rfl
  read_write _ _ := rfl
  write_read := by
    intro bytes a rest h
    cases h
    rfl

/-- A vector is its first entry and the others. -/
def consEquiv (α : Type) (n : Nat) : α × Vector α n ≃ Vector α (n + 1) where
  toFun p := ⟨(p.1 :: p.2.toList).toArray, by simp⟩
  invFun v := (v[0], v.tail)
  left_inv := by
    intro p
    refine Prod.ext rfl ?_
    ext i hi
    simp
  right_inv := by
    intro v
    ext i hi
    cases i with
    | zero => simp
    | succ i => simp [Nat.add_comm]

/-- So many values, one after the other. -/
def vector (c : Codec α) : (n : Nat) → Codec (Vector α n)
  | 0 => unit.map ⟨fun _ => #v[], fun _ => (), fun _ => rfl, fun v => by ext i hi; cases hi⟩
  | n + 1 => (c.seq (c.vector n)).map (consEquiv α n)

theorem write_vector (c : Codec α) {n : Nat} (v : Vector α n) :
    (c.vector n).write v = v.toList.flatMap c.write := by
  induction n with
  | zero =>
      obtain rfl : v = #v[] := by ext i hi; cases hi
      rfl
  | succ n ih =>
      obtain ⟨⟨a, u⟩, rfl⟩ := (consEquiv α n).surjective v
      have hwrite : (c.vector (n + 1)).write (consEquiv α n (a, u))
          = c.write a ++ (c.vector n).write u := by
        dsimp only [vector, map, seq]
        rw [Equiv.symm_apply_apply]
      rw [hwrite, ih]
      rfl

/-! ### Numbers, the low byte first -/

def writeLe16 (x : UInt16) : List UInt8 := [x.toUInt8, (x >>> 8).toUInt8]

def readLe16 : List UInt8 → Option (UInt16 × List UInt8)
  | b₀ :: b₁ :: rest => some (.ofNat (b₀.toNat + 2 ^ 8 * b₁.toNat), rest)
  | _ => none

theorem readLe16_writeLe16 (x : UInt16) (rest : List UInt8) :
    readLe16 (writeLe16 x ++ rest) = some (x, rest) := by
  refine congrArg (fun y => some (y, rest)) (UInt16.toNat_inj.mp ?_)
  have e8 : UInt16.toNat 8 % 16 = 8 := rfl
  have hx := x.toNat_lt
  rw [UInt16.toNat_ofNat', UInt16.toNat_toUInt8, UInt16.toNat_toUInt8, UInt16.toNat_shiftRight,
    e8, Nat.shiftRight_eq_div_pow]
  omega

theorem eq_writeLe16 (bytes : List UInt8) (x : UInt16) (rest : List UInt8)
    (h : readLe16 bytes = some (x, rest)) : bytes = writeLe16 x ++ rest := by
  rcases bytes with _ | ⟨b₀, _ | ⟨b₁, bytes⟩⟩
  · cases h
  · cases h
  · cases h
    have e8 : UInt16.toNat 8 % 16 = 8 := rfl
    have h₀ := b₀.toNat_lt
    have h₁ := b₁.toNat_lt
    simp only [writeLe16, List.cons_append, List.nil_append, List.cons.injEq, ← UInt8.toNat_inj,
      UInt16.toNat_toUInt8, UInt16.toNat_shiftRight, UInt16.toNat_ofNat', e8,
      Nat.shiftRight_eq_div_pow, and_true]
    refine ⟨?_, ?_⟩
    · omega
    · omega

def writeLe32 (x : UInt32) : List UInt8 :=
  [x.toUInt8, (x >>> 8).toUInt8, (x >>> 16).toUInt8, (x >>> 24).toUInt8]

def readLe32 : List UInt8 → Option (UInt32 × List UInt8)
  | b₀ :: b₁ :: b₂ :: b₃ :: rest =>
    some (.ofNat (b₀.toNat + 2 ^ 8 * b₁.toNat + 2 ^ 16 * b₂.toNat + 2 ^ 24 * b₃.toNat), rest)
  | _ => none

theorem readLe32_writeLe32 (x : UInt32) (rest : List UInt8) :
    readLe32 (writeLe32 x ++ rest) = some (x, rest) := by
  refine congrArg (fun y => some (y, rest)) (UInt32.toNat_inj.mp ?_)
  have e8 : UInt32.toNat 8 % 32 = 8 := rfl
  have e16 : UInt32.toNat 16 % 32 = 16 := rfl
  have e24 : UInt32.toNat 24 % 32 = 24 := rfl
  have hx := x.toNat_lt
  simp only [UInt32.toNat_ofNat', UInt32.toNat_toUInt8, UInt32.toNat_shiftRight, e8, e16, e24,
    Nat.shiftRight_eq_div_pow]
  omega

theorem eq_writeLe32 (bytes : List UInt8) (x : UInt32) (rest : List UInt8)
    (h : readLe32 bytes = some (x, rest)) : bytes = writeLe32 x ++ rest := by
  rcases bytes with _ | ⟨b₀, _ | ⟨b₁, _ | ⟨b₂, _ | ⟨b₃, bytes⟩⟩⟩⟩
  · cases h
  · cases h
  · cases h
  · cases h
  · cases h
    have e8 : UInt32.toNat 8 % 32 = 8 := rfl
    have e16 : UInt32.toNat 16 % 32 = 16 := rfl
    have e24 : UInt32.toNat 24 % 32 = 24 := rfl
    have h₀ := b₀.toNat_lt
    have h₁ := b₁.toNat_lt
    have h₂ := b₂.toNat_lt
    have h₃ := b₃.toNat_lt
    -- each byte is a digit of the number in base 256
    simp only [writeLe32, List.cons_append, List.nil_append, List.cons.injEq, ← UInt8.toNat_inj,
      UInt32.toNat_toUInt8, UInt32.toNat_shiftRight, UInt32.toNat_ofNat', e8, e16, e24,
      Nat.shiftRight_eq_div_pow, and_true]
    refine ⟨?_, ?_, ?_, ?_⟩
    · omega
    · omega
    · omega
    · omega

def le16 : Codec UInt16 where
  width := 2
  write := writeLe16
  read := readLe16
  length_write _ := rfl
  read_write := readLe16_writeLe16
  write_read := eq_writeLe16

def le32 : Codec UInt32 where
  width := 4
  write := writeLe32
  read := readLe32
  length_write _ := rfl
  read_write := readLe32_writeLe32
  write_read := eq_writeLe32

end Codec

/-! ## C objects in memory -/

/-- An object in memory: what its address is a multiple of, and its bytes, `none` where no member
lies. -/
structure Image where
  align : Nat
  bytes : List (Option UInt8)

namespace Image

/-- A number of these bytes, which C aligns to its size. -/
def scalar (bytes : List UInt8) : Image := ⟨bytes.length, bytes.map some⟩

/-- The bytes skipped at `off` to get to a multiple of `align`. -/
def padding (align off : Nat) : Nat := (align - off % align) % align

def pad (align : Nat) (bytes : List (Option UInt8)) : List (Option UInt8) :=
  bytes ++ List.replicate (padding align bytes.length) none

/-- Each member at the next multiple of its alignment. -/
def place (bytes : List (Option UInt8)) (member : Image) : List (Option UInt8) :=
  pad member.align bytes ++ member.bytes

/-- `struct { … }`: the members in order, and the size rounded up to the alignment. -/
def struct (members : List Image) : Image :=
  let align := (members.map align).foldl max 1
  ⟨align, pad align (members.foldl place [])⟩

/-- `T x[n]`: the elements side by side. -/
def array (elems : List Image) : Image :=
  ⟨(elems.map align).foldl max 1, elems.flatMap bytes⟩

/-- The bytes, if they are all accounted for. -/
def content (image : Image) : Option (List UInt8) := image.bytes.mapM id

/-- The object is these bytes and no others. -/
structure Filled (image : Image) (align width : Nat) (bytes : List UInt8) : Prop where
  align_eq : image.align = align
  bytes_eq : image.bytes = bytes.map some
  length_eq : bytes.length = width

/-- The members are these bytes, one after the other: each falls on its alignment. -/
inductive Packed : List Image → Nat → Nat → List UInt8 → Prop
  | nil : Packed [] 1 0 []
  | snoc {members : List Image} {member : Image} {align width a w : Nat} {bytes b : List UInt8}
      (h : Packed members align width bytes) (hmember : member.Filled a w b) (hoff : a ∣ width) :
      Packed (members ++ [member]) (max align a) (width + w) (bytes ++ b)

theorem Filled.content_eq {image : Image} {align width : Nat} {bytes : List UInt8}
    (h : image.Filled align width bytes) : image.content = some bytes := by
  rw [content, h.bytes_eq]
  have hall : ∀ l : List UInt8, (l.map some).mapM id = some l := by
    intro l
    induction l with
    | nil => rfl
    | cons b l ih => simp [List.mapM_cons, ih]
  exact hall bytes

theorem pad_of_dvd {align : Nat} {bytes : List (Option UInt8)} (h : align ∣ bytes.length) :
    pad align bytes = bytes := by
  rw [pad, padding, Nat.mod_eq_zero_of_dvd h, Nat.sub_zero, Nat.mod_self]
  exact List.append_nil bytes

theorem filled_scalar {α : Type} (c : Codec α) (a : α) :
    (scalar (c.write a)).Filled c.width c.width (c.write a) :=
  ⟨c.length_write a, rfl, c.length_write a⟩

theorem foldl_max_of_forall {n m : Nat} {l : List Nat} (hl : ∀ x ∈ l, x = n) (hm : m ≤ n)
    (hne : l ≠ []) : l.foldl max m = n := by
  induction l generalizing m with
  | nil => exact absurd rfl hne
  | cons x l ih =>
      have hx : max m x = n := by
        rw [hl x (List.mem_cons_self ..)]
        exact Nat.max_eq_right hm
      rw [List.foldl_cons, hx]
      by_cases hnil : l = []
      · rw [hnil, List.foldl_nil]
      · exact ih (fun y hy => hl y (List.mem_cons_of_mem _ hy)) (Nat.le_refl n) hnil

/-- An array of numbers is its elements' bytes. -/
theorem filled_vector {α : Type} (c : Codec α) (hc : 0 < c.width) {n : Nat}
    (v : Vector α (n + 1)) :
    (array (v.toList.map fun a => scalar (c.write a))).Filled c.width (c.vector (n + 1)).width
      ((c.vector (n + 1)).write v) where
  align_eq := by
    refine foldl_max_of_forall (fun x hx => ?_) hc ?_
    · rw [List.map_map] at hx
      obtain ⟨a, -, rfl⟩ := List.mem_map.mp hx
      exact c.length_write a
    · rw [List.map_map, Ne, List.map_eq_nil_iff]
      intro hnil
      have hlen := congrArg List.length hnil
      rw [Vector.length_toList] at hlen
      cases hlen
  bytes_eq := by
    rw [Codec.write_vector]
    simp only [array, scalar, List.flatMap_map, List.map_flatMap]
  length_eq := Codec.length_write _ v

theorem Packed.foldl_place {members : List Image} {align width : Nat} {bytes : List UInt8}
    (h : Packed members align width bytes) :
    (members.map Image.align).foldl max 1 = align ∧ members.foldl place [] = bytes.map some ∧
      bytes.length = width := by
  induction h with
  | nil => exact ⟨rfl, rfl, rfl⟩
  | snoc _ hmember hoff ih =>
      obtain ⟨halign, hbytes, hlen⟩ := ih
      refine ⟨?_, ?_, ?_⟩
      · rw [List.map_append, List.foldl_append, halign, ← hmember.align_eq]
        rfl
      · rw [List.foldl_append, hbytes, List.foldl_cons, List.foldl_nil, place, hmember.align_eq,
          pad_of_dvd (by rw [List.length_map, hlen]; exact hoff), hmember.bytes_eq, List.map_append]
      · rw [List.length_append, hlen, hmember.length_eq]

/-- **A struct whose members fall on their alignment is its members' bytes**, if its size does
too. -/
theorem Packed.filled {members : List Image} {align width : Nat} {bytes : List UInt8}
    (h : Packed members align width bytes) (hend : align ∣ width) :
    (struct members).Filled align width bytes := by
  obtain ⟨halign, hbytes, hlen⟩ := h.foldl_place
  refine ⟨halign, ?_, hlen⟩
  dsimp only [struct]
  rw [halign, hbytes]
  exact pad_of_dvd (by rw [List.length_map, hlen]; exact hend)

end Image

end Kubpf.Lib
