import Kubpf.Flow

/-!
# Packets as the kernel program sees them

A socket buffer is a length and the bytes between `data` and `data_end`; the
length counts the whole packet, so it may exceed the bytes. The program overlays
`struct iphdr`, `struct ipv6hdr`, `struct tcphdr` and `struct udphdr` on those
bytes and reads multi-byte fields as native integers of a little-endian machine.
-/

namespace Kubpf.Kernel

/-- `enum cgroup_direction`. -/
inductive CgroupDirection where
  | ingress
  | egress
  deriving DecidableEq, Repr

/-- The parts of `struct __sk_buff` the program reads. -/
structure SkBuff where
  /-- `skb->len`. -/
  len : UInt32
  /-- The bytes in `[data, data_end)`. -/
  data : List UInt8
  deriving DecidableEq, Repr

/-- The byte at an offset from `data`. -/
def byteAt (data : List UInt8) (off : Nat) : UInt8 := data.getD off 0

/-- A 16-bit load on a little-endian machine. -/
def load16 (data : List UInt8) (off : Nat) : UInt16 :=
  .ofNat ((byteAt data off).toNat + 2 ^ 8 * (byteAt data (off + 1)).toNat)

/-- A 32-bit load on a little-endian machine. -/
def load32 (data : List UInt8) (off : Nat) : UInt32 :=
  .ofNat ((byteAt data off).toNat + 2 ^ 8 * (byteAt data (off + 1)).toNat
    + 2 ^ 16 * (byteAt data (off + 2)).toNat + 2 ^ 24 * (byteAt data (off + 3)).toNat)

/-! ## Header overlays -/

/-- `struct iphdr`, with the bit-fields of `__LITTLE_ENDIAN_BITFIELD`. -/
structure Iphdr where
  ihl : UInt8
  version : UInt8
  protocol : UInt8
  saddr : UInt32
  daddr : UInt32

/-- `struct ipv6hdr`. -/
structure Ipv6hdr where
  nexthdr : UInt8
  saddr : Vector UInt32 4
  daddr : Vector UInt32 4

/-- The ports, which `struct tcphdr` and `struct udphdr` both start with. -/
structure PortsHdr where
  source : UInt16
  dest : UInt16

def sizeofIphdr : Nat := 20
def sizeofIpv6hdr : Nat := 40
def sizeofTcphdr : Nat := 20
def sizeofUdphdr : Nat := 8

/-- `(struct iphdr *) skb->data`. -/
def iphdrAt (data : List UInt8) : Iphdr where
  ihl := byteAt data 0 &&& 0x0f
  version := byteAt data 0 >>> 4
  protocol := byteAt data 9
  saddr := load32 data 12
  daddr := load32 data 16

/-- Sixteen address bytes copied into four words. -/
def load128 (data : List UInt8) (off : Nat) : Vector UInt32 4 :=
  #v[load32 data off, load32 data (off + 4), load32 data (off + 8), load32 data (off + 12)]

/-- `(struct ipv6hdr *) skb->data`. -/
def ipv6hdrAt (data : List UInt8) : Ipv6hdr where
  nexthdr := byteAt data 6
  saddr := load128 data 8
  daddr := load128 data 24

/-- `(struct tcphdr *)(data + off)` or `(struct udphdr *)(data + off)`. -/
def portsHdrAt (data : List UInt8) (off : Nat) : PortsHdr where
  source := load16 data off
  dest := load16 data (off + 2)

end Kubpf.Kernel
