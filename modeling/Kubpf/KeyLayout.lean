import Kubpf.PodTotals

/-!
# Keys across the boundary

The kernel program leaves a key in the map as a C struct; the agent reads the same
bytes into a Go struct, field by field, and writes them back to delete an entry.
In between, network-order fields are loaded as native numbers, addresses are
written little-endian for `net.IP`, and ports are written big-endian and read
little-endian. All of it together gives back what stood in the packet.

`net.IP.String` is left open here, and is assumed to print different addresses of
one length differently. For IPv4 the rest of the agent has it concretely
(`v4FlowKey_ipString`).
-/

namespace Kubpf

open Lib Kernel Agent

/-! ## The structs of `flow.h` in memory -/

/-- `struct proto_port`. -/
def ProtoPort.image (l4 : ProtoPort) : Image :=
  .struct
    [.scalar (Codec.byte.write l4.ipProto),
      .array (l4.padding.toList.map fun b => .scalar (Codec.byte.write b)),
      .scalar (Codec.le16.write l4.sport), .scalar (Codec.le16.write l4.dport)]

/-- `struct inet_v4_flow`. -/
def InetV4Flow.image (flow : InetV4Flow) : Image :=
  .struct [.scalar (Codec.le32.write flow.srcIp), .scalar (Codec.le32.write flow.dstIp),
    flow.l4.image]

/-- `__be32 x[4]`. -/
def wordsImage (words : Vector UInt32 4) : Image :=
  .array (words.toList.map fun x => .scalar (Codec.le32.write x))

/-- `struct inet_v6_flow`. -/
def InetV6Flow.image (flow : InetV6Flow) : Image :=
  .struct [wordsImage flow.srcIp, wordsImage flow.dstIp, flow.l4.image]

/-! ## The structs of Go, as they are marshalled -/

/-- `proto_port`. -/
def protoPortCodec : Codec ProtoPort :=
  (Codec.byte.seq ((Codec.byte.vector 3).seq (Codec.le16.seq Codec.le16))).map
    { toFun := fun p => ⟨p.1, p.2.1, p.2.2.1, p.2.2.2⟩
      invFun := fun l4 => (l4.ipProto, l4.padding, l4.sport, l4.dport)
      left_inv := fun _ => rfl
      right_inv := fun _ => rfl }

/-- `inet_v4_flow`. -/
def v4FlowCodec : Codec InetV4Flow :=
  (Codec.le32.seq (Codec.le32.seq protoPortCodec)).map
    { toFun := fun p => ⟨p.1, p.2.1, p.2.2⟩
      invFun := fun flow => (flow.srcIp, flow.dstIp, flow.l4)
      left_inv := fun _ => rfl
      right_inv := fun _ => rfl }

/-- `inet_v6_flow`. -/
def v6FlowCodec : Codec InetV6Flow :=
  ((Codec.le32.vector 4).seq ((Codec.le32.vector 4).seq protoPortCodec)).map
    { toFun := fun p => ⟨p.1, p.2.1, p.2.2⟩
      invFun := fun flow => (flow.srcIp, flow.dstIp, flow.l4)
      left_inv := fun _ => rfl
      right_inv := fun _ => rfl }

/-! ## The two agree -/

/-- The padding takes the ports to an even offset, so that the compiler adds none. -/
theorem image_protoPort (l4 : ProtoPort) : l4.image.Filled 2 8 (protoPortCodec.write l4) :=
  ((((Image.Packed.nil.snoc (Image.filled_scalar Codec.byte l4.ipProto) (by decide)).snoc
    (Image.filled_vector Codec.byte (by decide) l4.padding) (by decide)).snoc
    (Image.filled_scalar Codec.le16 l4.sport) (by decide)).snoc
    (Image.filled_scalar Codec.le16 l4.dport) (by decide)).filled (by decide)

/-- **An IPv4 key is 16 bytes in memory, those Go writes.** -/
theorem image_v4Flow (flow : InetV4Flow) : flow.image.Filled 4 16 (v4FlowCodec.write flow) :=
  (((Image.Packed.nil.snoc (Image.filled_scalar Codec.le32 flow.srcIp) (by decide)).snoc
    (Image.filled_scalar Codec.le32 flow.dstIp) (by decide)).snoc
    (image_protoPort flow.l4) (by decide)).filled (by decide)

/-- **An IPv6 key is 40 bytes in memory, those Go writes.** -/
theorem image_v6Flow (flow : InetV6Flow) : flow.image.Filled 4 40 (v6FlowCodec.write flow) :=
  (((Image.Packed.nil.snoc (Image.filled_vector Codec.le32 (by decide) flow.srcIp)
    (by decide)).snoc (Image.filled_vector Codec.le32 (by decide) flow.dstIp) (by decide)).snoc
    (image_protoPort flow.l4) (by decide)).filled (by decide)

/-! ## What the agent makes of a key -/

/-- `binary.Write(buf, binary.LittleEndian, x)` for `x [4]uint32`. -/
def putUint32s (x : Vector UInt32 4) : List UInt8 := x.toList.flatMap putUint32

section Decoded

variable (ipText : List UInt8 → String)

/-- The methods of `inet_v4_flow`, whatever `net.IP.String` is. -/
@[reducible] def v4FlowKey : FlowKey InetV4Flow where
  getSrcIp flow := ipText (putUint32 flow.srcIp)
  getDstIp flow := ipText (putUint32 flow.dstIp)
  getIpProto flow := Nat.repr flow.l4.ipProto.toNat
  getSPort flow := portString flow.l4.sport
  getDPort flow := portString flow.l4.dport

/-- The methods of `inet_v6_flow`. -/
@[reducible] def v6FlowKey : FlowKey InetV6Flow where
  getSrcIp flow := ipText (putUint32s flow.srcIp)
  getDstIp flow := ipText (putUint32s flow.dstIp)
  getIpProto flow := Nat.repr flow.l4.ipProto.toNat
  getSPort flow := portString flow.l4.sport
  getDPort flow := portString flow.l4.dport

theorem v4FlowKey_ipString : v4FlowKey ipString = inferInstanceAs (FlowKey InetV4Flow) := rfl

end Decoded

/-- What the methods of `FlowKey` give. -/
structure FlowTuple where
  srcIp : String
  dstIp : String
  ipProto : String
  sPort : String
  dPort : String
  deriving DecidableEq, Repr

/-- The tuple of a key, by the methods of its struct. -/
def flowTuple {K : Type} (methods : FlowKey K) (flow : K) : FlowTuple where
  srcIp := methods.getSrcIp flow
  dstIp := methods.getDstIp flow
  ipProto := methods.getIpProto flow
  sPort := methods.getSPort flow
  dPort := methods.getDPort flow

/-- The Go struct read from an object in memory: all of its bytes, and no byte more. -/
def decode {K : Type} (c : Codec K) (stored : Image) : Option K :=
  stored.content.bind fun bytes =>
    match c.read bytes with
    | some (flow, []) => some flow
    | _ => none

theorem decode_of_filled {K : Type} {c : Codec K} {stored : Image} {align width : Nat} {flow : K}
    (h : stored.Filled align width (c.write flow)) : decode c stored = some flow := by
  have hread := c.read_write flow []
  rw [List.append_nil] at hread
  rw [decode, h.content_eq, Option.bind_some, hread]

/-! ## What stood in the packet -/

/-- A big-endian 16-bit field. -/
def be16 (data : List UInt8) (off : Nat) : Nat :=
  2 ^ 8 * (byteAt data off).toNat + (byteAt data (off + 1)).toNat

/-- The addresses, in wire order, the protocol and the ports of a packet. -/
structure WireFlow where
  src : List UInt8
  dst : List UInt8
  proto : UInt8
  sport : Nat
  dport : Nat

/-- An IPv4 packet's, the transport header being where the header length says. -/
def wireV4 (skb : SkBuff) : WireFlow where
  src := octets4 skb.data 12
  dst := octets4 skb.data 16
  proto := byteAt skb.data 9
  sport := be16 skb.data (4 * headerWords skb)
  dport := be16 skb.data (4 * headerWords skb + 2)

/-- An IPv6 packet's. -/
def wireV6 (skb : SkBuff) : WireFlow where
  src := octets16 skb.data 8
  dst := octets16 skb.data 24
  proto := byteAt skb.data 6
  sport := be16 skb.data 40
  dport := be16 skb.data 42

/-- Source and destination as they are for ingress, exchanged for egress. -/
def WireFlow.seen (wire : WireFlow) : CgroupDirection → WireFlow
  | .ingress => wire
  | .egress => { wire with
      src := wire.dst, dst := wire.src, sport := wire.dport, dport := wire.sport }

/-- The fields in print. -/
def WireFlow.tuple (ipText : List UInt8 → String) (wire : WireFlow) : FlowTuple where
  srcIp := ipText wire.src
  dstIp := ipText wire.dst
  ipProto := Nat.repr wire.proto.toNat
  sPort := Nat.repr wire.sport
  dPort := Nat.repr wire.dport

/-- The protocols with ports. -/
def HasPorts (proto : UInt8) : Prop := proto = 6 ∨ proto = 17

instance (proto : UInt8) : Decidable (HasPorts proto) := inferInstanceAs (Decidable (_ ∨ _))

/-! ## There and back -/

/-- The bytes of a port, as it was loaded, are those of the packet. -/
theorem write_load16 (data : List UInt8) (off : Nat) :
    Codec.le16.write (load16 data off) = [byteAt data off, byteAt data (off + 1)] := by
  have hread := Codec.le16.write_read [byteAt data off, byteAt data (off + 1)] (load16 data off)
    [] rfl
  rw [List.append_nil] at hread
  exact hread.symm

/-- **Big-endian out and little-endian in makes a number of a network-order port.** -/
theorem portString_load16 (data : List UInt8) (off : Nat) :
    portString (load16 data off) = Nat.repr (be16 data off) := by
  have hbytes := write_load16 data off
  obtain ⟨hlo, hrest⟩ := List.cons.inj hbytes
  obtain ⟨hhi, -⟩ := List.cons.inj hrest
  rw [portString, hlo, hhi, be16, Nat.add_comm]

theorem eq_of_toDigits_eq {m n : Nat} (h : Nat.toDigits 10 m = Nat.toDigits 10 n) : m = n := by
  have hnum := congrArg (fun cs => Nat.ofDigitChars 10 cs 0) h
  simpa only [Nat.ofDigitChars_ten_toDigits] using hnum

/-- Different numbers print differently. -/
theorem eq_of_repr_eq {m n : Nat} (h : Nat.repr m = Nat.repr n) : m = n := by
  have hdigits := congrArg String.toList h
  rw [Nat.toList_repr, Nat.toList_repr] at hdigits
  exact eq_of_toDigits_eq hdigits

theorem portString_injective {p q : UInt16} (h : portString p = portString q) : p = q := by
  have hnum := eq_of_repr_eq h
  have hlo := (p.toUInt8).toNat_lt
  have hhi := ((p >>> 8).toUInt8).toNat_lt
  have hlo' := (q.toUInt8).toNat_lt
  have hhi' := ((q >>> 8).toUInt8).toNat_lt
  have hlow : p.toUInt8 = q.toUInt8 := UInt8.toNat_inj.mp (by omega)
  have hhigh : (p >>> 8).toUInt8 = (q >>> 8).toUInt8 := UInt8.toNat_inj.mp (by omega)
  refine Codec.le16.write_injective ?_
  dsimp only [Codec.le16, Codec.writeLe16]
  rw [hlow, hhigh]

theorem putUint32s_load128 (data : List UInt8) (off : Nat) :
    putUint32s (load128 data off) = octets16 data off := by
  have hocts : octets16 data off = octets4 data off ++ (octets4 data (off + 4)
      ++ (octets4 data (off + 8) ++ (octets4 data (off + 12) ++ []))) := rfl
  rw [hocts, ← putUint32_load32, ← putUint32_load32, ← putUint32_load32, ← putUint32_load32]
  rfl

theorem putUint32_injective {x y : UInt32} (h : putUint32 x = putUint32 y) : x = y :=
  Codec.le32.write_injective h

theorem putUint32s_injective {x y : Vector UInt32 4} (h : putUint32s x = putUint32s y) :
    x = y := by
  refine (Codec.le32.vector 4).write_injective ?_
  rw [Codec.write_vector, Codec.write_vector]
  exact h

/-! ## Printing addresses -/

/-- `net.IP.String` prints different addresses of one length differently. -/
def PrintsApart (ipText : List UInt8 → String) : Prop :=
  ∀ a b : List UInt8, a.length = b.length → (a.length = 4 ∨ a.length = 16) →
    ipText a = ipText b → a = b

/-- Four octets in dotted notation, and any others as characters. -/
def quadText (octets : List UInt8) : String :=
  if octets.length = 4 then ipString octets else String.ofList (octets.map UInt8.toChar)

/-- The four numbers are found again between the dots. -/
theorem splitN_ipString (a b c d : UInt8) :
    splitN '.' 4 (ipString [a, b, c, d]).toList
      = [Nat.toDigits 10 a.toNat, Nat.toDigits 10 b.toNat, Nat.toDigits 10 c.toNat,
        Nat.toDigits 10 d.toNat] := by
  have hplain : ∀ n : Nat, '.' ∉ Nat.toDigits 10 n := not_mem_toDigits (by decide)
  have hjoin : (ipString [a, b, c, d]).toList = Nat.toDigits 10 a.toNat ++ '.' ::
      (Nat.toDigits 10 b.toNat ++ '.' :: (Nat.toDigits 10 c.toNat ++ '.' ::
        Nat.toDigits 10 d.toNat)) := by
    simp [ipString, Nat.toList_repr]
  rw [hjoin, splitN_append (hplain _), splitN_append (hplain _), splitN_append (hplain _)]
  rfl

theorem ipString_injective {a b : List UInt8} (ha : a.length = 4) (hb : b.length = 4)
    (h : ipString a = ipString b) : a = b := by
  obtain ⟨a₀, a₁, a₂, a₃, rfl⟩ := List.length_eq_four.mp ha
  obtain ⟨b₀, b₁, b₂, b₃, rfl⟩ := List.length_eq_four.mp hb
  have hsplit := congrArg (fun s : String => splitN '.' 4 s.toList) h
  simp only [splitN_ipString, List.cons.injEq, and_true] at hsplit
  obtain ⟨h₀, h₁, h₂, h₃⟩ := hsplit
  rw [UInt8.toNat_inj.mp (eq_of_toDigits_eq h₀), UInt8.toNat_inj.mp (eq_of_toDigits_eq h₁),
    UInt8.toNat_inj.mp (eq_of_toDigits_eq h₂), UInt8.toNat_inj.mp (eq_of_toDigits_eq h₃)]

theorem printsApart_quadText : PrintsApart quadText := by
  intro a b hlen _ h
  unfold quadText at h
  rw [← hlen] at h
  split_ifs at h with h4
  · exact ipString_injective h4 (hlen ▸ h4) h
  · refine List.map_injective_iff.mpr (fun x y hxy => ?_) (String.ofList_injective h)
    exact UInt8.toUInt32_inj.mp (congrArg Char.val hxy)

/-! ## Counted packets -/

/-- What the methods of `inet_v4_flow` hand to `net.IP`. -/
def v4Octets (flow : InetV4Flow) : List UInt8 × List UInt8 :=
  (putUint32 flow.srcIp, putUint32 flow.dstIp)

/-- What the methods of `inet_v6_flow` hand to `net.IP`. -/
def v6Octets (flow : InetV6Flow) : List UInt8 × List UInt8 :=
  (putUint32s flow.srcIp, putUint32s flow.dstIp)

/-- The stored object is `width` bytes; Go reads a struct from them, hands the addresses of `wire`
to `net.IP`, prints the fields of `wire`, and writes the same bytes back. -/
def ReadsAs {K : Type} (c : Codec K) (methods : FlowKey K) (octets : K → List UInt8 × List UInt8)
    (ipText : List UInt8 → String) (stored : Image) (width : Nat) (wire : WireFlow) : Prop :=
  ∃ bytes flow, stored.content = some bytes ∧ bytes.length = width ∧ decode c stored = some flow ∧
    octets flow = (wire.src, wire.dst) ∧ flowTuple methods flow = wire.tuple ipText ∧
    c.write flow = bytes

/-- The tuple, from the octets handed to `net.IP` and the transport part. -/
def tupleOf (ipText : List UInt8 → String) (octets : List UInt8 × List UInt8) (l4 : ProtoPort) :
    FlowTuple where
  srcIp := ipText octets.1
  dstIp := ipText octets.2
  ipProto := Nat.repr l4.ipProto.toNat
  sPort := portString l4.sport
  dPort := portString l4.dport

theorem flowTuple_v4 (ipText : List UInt8 → String) (flow : InetV4Flow) :
    flowTuple (v4FlowKey ipText) flow = tupleOf ipText (v4Octets flow) flow.l4 := rfl

theorem flowTuple_v6 (ipText : List UInt8 → String) (flow : InetV6Flow) :
    flowTuple (v6FlowKey ipText) flow = tupleOf ipText (v6Octets flow) flow.l4 := rfl

section Counted

variable {skb : SkBuff} {dir : CgroupDirection} {ipText : List UInt8 → String}

/-- The loaded ports, printed. -/
theorem tupleOf_ports (octets : List UInt8 × List UInt8) {proto : UInt8}
    (padding : Vector UInt8 3) (data : List UInt8) (off off' : Nat) :
    tupleOf ipText octets ⟨proto, padding, load16 data off, load16 data off'⟩
      = ⟨ipText octets.1, ipText octets.2, Nat.repr proto.toNat, Nat.repr (be16 data off),
        Nat.repr (be16 data off')⟩ := by
  rw [tupleOf, portString_load16, portString_load16]

theorem ports_of_hasPorts {proto : UInt8} (h : HasPorts proto) (data : List UInt8) (off : Nat) :
    ports data proto off = (load16 data off, load16 data (off + 2)) := if_pos h

theorem v4Octets_v4Key :
    v4Octets (v4Key skb dir) = (((wireV4 skb).seen dir).src, ((wireV4 skb).seen dir).dst) := by
  cases dir with
  | ingress => exact Prod.ext (putUint32_load32 skb.data 12) (putUint32_load32 skb.data 16)
  | egress => exact Prod.ext (putUint32_load32 skb.data 16) (putUint32_load32 skb.data 12)

theorem v6Octets_v6Key :
    v6Octets (v6Key skb dir) = (((wireV6 skb).seen dir).src, ((wireV6 skb).seen dir).dst) := by
  cases dir with
  | ingress => exact Prod.ext (putUint32s_load128 skb.data 8) (putUint32s_load128 skb.data 24)
  | egress => exact Prod.ext (putUint32s_load128 skb.data 24) (putUint32s_load128 skb.data 8)

theorem flowTuple_v4Key (h : HasPorts (byteAt skb.data 9)) :
    flowTuple (v4FlowKey ipText) (v4Key skb dir) = ((wireV4 skb).seen dir).tuple ipText := by
  rw [flowTuple_v4, v4Octets_v4Key]
  cases dir with
  | ingress =>
      dsimp only [v4Key]
      rw [ports_of_hasPorts h, tupleOf_ports]
      rfl
  | egress =>
      dsimp only [v4Key]
      rw [ports_of_hasPorts h, tupleOf_ports]
      rfl

theorem flowTuple_v6Key (h : HasPorts (byteAt skb.data 6)) :
    flowTuple (v6FlowKey ipText) (v6Key skb dir) = ((wireV6 skb).seen dir).tuple ipText := by
  rw [flowTuple_v6, v6Octets_v6Key]
  cases dir with
  | ingress =>
      dsimp only [v6Key]
      rw [ports_of_hasPorts h, tupleOf_ports]
      rfl
  | egress =>
      dsimp only [v6Key]
      rw [ports_of_hasPorts h, tupleOf_ports]
      rfl

theorem readsAs_of_filled {K : Type} {c : Codec K} {methods : FlowKey K}
    {octets : K → List UInt8 × List UInt8} {stored : Image} {align width : Nat} {wire : WireFlow}
    {flow : K} (h : stored.Filled align width (c.write flow))
    (hoctets : octets flow = (wire.src, wire.dst))
    (htuple : flowTuple methods flow = wire.tuple ipText) :
    ReadsAs c methods octets ipText stored width wire :=
  ⟨c.write flow, flow, h.content_eq, h.length_eq, decode_of_filled h, hoctets, htuple, rfl⟩

/-! ## Different keys, different tuples -/

theorem eq_of_tupleOf {octets octets' : List UInt8 × List UInt8} {l4 l4' : ProtoPort}
    (hip : PrintsApart ipText) (h : tupleOf ipText octets l4 = tupleOf ipText octets' l4')
    (hpad : l4.padding = l4'.padding) {n : Nat} (hn : n = 4 ∨ n = 16)
    (hsrc : octets.1.length = n) (hdst : octets.2.length = n) (hsrc' : octets'.1.length = n)
    (hdst' : octets'.2.length = n) : octets = octets' ∧ l4 = l4' := by
  obtain ⟨proto, padding, sport, dport⟩ := l4
  obtain ⟨proto', padding', sport', dport'⟩ := l4'
  obtain ⟨hsrcIp, hdstIp, hproto, hsport, hdport⟩ := FlowTuple.mk.inj h
  obtain rfl : padding = padding' := hpad
  obtain rfl : proto = proto' := UInt8.toNat_inj.mp (eq_of_repr_eq hproto)
  obtain rfl : sport = sport' := portString_injective hsport
  obtain rfl : dport = dport' := portString_injective hdport
  have h₁ := hip octets.1 octets'.1 (hsrc.trans hsrc'.symm) (hsrc ▸ hn) hsrcIp
  have h₂ := hip octets.2 octets'.2 (hdst.trans hdst'.symm) (hdst ▸ hn) hdstIp
  exact ⟨Prod.ext h₁ h₂, rfl⟩

/-- **Keys with the same padding that print the same are the same.** -/
theorem eq_of_flowTuple_v4 (hip : PrintsApart ipText) {flow flow' : InetV4Flow}
    (hpad : flow.l4.padding = flow'.l4.padding)
    (h : flowTuple (v4FlowKey ipText) flow = flowTuple (v4FlowKey ipText) flow') : flow = flow' := by
  rw [flowTuple_v4, flowTuple_v4] at h
  obtain ⟨hoctets, hl4⟩ := eq_of_tupleOf hip h hpad (Or.inl rfl) rfl rfl rfl rfl
  obtain ⟨hsrc, hdst⟩ := Prod.mk.inj hoctets
  obtain ⟨src, dst, l4⟩ := flow
  obtain ⟨src', dst', l4'⟩ := flow'
  rw [InetV4Flow.mk.injEq]
  exact ⟨putUint32_injective hsrc, putUint32_injective hdst, hl4⟩

theorem length_putUint32s (x : Vector UInt32 4) : (putUint32s x).length = 16 :=
  (congrArg List.length (Codec.write_vector Codec.le32 x)).symm.trans (Codec.length_write _ x)

theorem eq_of_flowTuple_v6 (hip : PrintsApart ipText) {flow flow' : InetV6Flow}
    (hpad : flow.l4.padding = flow'.l4.padding)
    (h : flowTuple (v6FlowKey ipText) flow = flowTuple (v6FlowKey ipText) flow') : flow = flow' := by
  rw [flowTuple_v6, flowTuple_v6] at h
  obtain ⟨hoctets, hl4⟩ := eq_of_tupleOf hip h hpad (Or.inr rfl) (length_putUint32s _)
    (length_putUint32s _) (length_putUint32s _) (length_putUint32s _)
  obtain ⟨hsrc, hdst⟩ := Prod.mk.inj hoctets
  obtain ⟨src, dst, l4⟩ := flow
  obtain ⟨src', dst', l4'⟩ := flow'
  rw [InetV6Flow.mk.injEq]
  exact ⟨putUint32s_injective hsrc, putUint32s_injective hdst, hl4⟩

theorem padding_v4Key : (v4Key skb dir).l4.padding = .replicate 3 0 := by cases dir <;> rfl

theorem padding_v6Key : (v6Key skb dir).l4.padding = .replicate 3 0 := by cases dir <;> rfl

/-- The same bytes decode to the same tuple; and as different keys decode to different tuples, the
other way round. -/
theorem content_eq_iff_decode {K : Type} {c : Codec K} {methods : FlowKey K} {stored stored' : Image}
    {align width align' width' : Nat} {flow flow' : K}
    (h : stored.Filled align width (c.write flow))
    (h' : stored'.Filled align' width' (c.write flow'))
    (hinj : flowTuple methods flow = flowTuple methods flow' → flow = flow') :
    stored.content = stored'.content
      ↔ (decode c stored).map (flowTuple methods) = (decode c stored').map (flowTuple methods) := by
  refine ⟨fun heq => by rw [decode, decode, heq], fun heq => ?_⟩
  rw [decode_of_filled h, decode_of_filled h'] at heq
  rw [h.content_eq, h'.content_eq, hinj (Option.some.inj heq)]

end Counted

/--
**The layout of a key in C and its decoder in Go agree.**

For every TCP or UDP packet that is counted, in either direction: the key stored
is 16 bytes, or 40, every one of them determined; read into the Go struct, its
methods hand `net.IP` the address octets in wire order and print the addresses,
the protocol and the big-endian ports of the packet, exchanged for egress; and
written back it is the same bytes. Of two packets counted in one map the stored
keys are the same exactly if the decoded tuples are.
-/
theorem key_layouts_agree (ipText : List UInt8 → String) (hip : PrintsApart ipText) :
    (∀ skb dir key, flowKey skb dir = some (.inl key) → HasPorts (byteAt skb.data 9) →
      ReadsAs v4FlowCodec (v4FlowKey ipText) v4Octets ipText key.image 16
        ((wireV4 skb).seen dir)) ∧
    (∀ skb dir key, flowKey skb dir = some (.inr key) → HasPorts (byteAt skb.data 6) →
      ReadsAs v6FlowCodec (v6FlowKey ipText) v6Octets ipText key.image 40
        ((wireV6 skb).seen dir)) ∧
    (∀ skb dir key skb' dir' key', flowKey skb dir = some (.inl key) →
      flowKey skb' dir' = some (.inl key') →
      (key.image.content = key'.image.content ↔
        (decode v4FlowCodec key.image).map (flowTuple (v4FlowKey ipText))
          = (decode v4FlowCodec key'.image).map (flowTuple (v4FlowKey ipText)))) ∧
    (∀ skb dir key skb' dir' key', flowKey skb dir = some (.inr key) →
      flowKey skb' dir' = some (.inr key') →
      (key.image.content = key'.image.content ↔
        (decode v6FlowCodec key.image).map (flowTuple (v6FlowKey ipText))
          = (decode v6FlowCodec key'.image).map (flowTuple (v6FlowKey ipText)))) := by
  refine ⟨fun skb dir key hkey hports => ?_, fun skb dir key hkey hports => ?_,
    fun skb dir key skb' dir' key' hkey hkey' => ?_,
    fun skb dir key skb' dir' key' hkey hkey' => ?_⟩
  · obtain rfl := eq_v4Key_of_flowKey hkey
    exact readsAs_of_filled (image_v4Flow _) v4Octets_v4Key (flowTuple_v4Key hports)
  · obtain rfl := eq_v6Key_of_flowKey hkey
    exact readsAs_of_filled (image_v6Flow _) v6Octets_v6Key (flowTuple_v6Key hports)
  · obtain rfl := eq_v4Key_of_flowKey hkey
    obtain rfl := eq_v4Key_of_flowKey hkey'
    refine content_eq_iff_decode (image_v4Flow _) (image_v4Flow _) (eq_of_flowTuple_v4 hip ?_)
    rw [padding_v4Key, padding_v4Key]
  · obtain rfl := eq_v6Key_of_flowKey hkey
    obtain rfl := eq_v6Key_of_flowKey hkey'
    refine content_eq_iff_decode (image_v6Flow _) (image_v6Flow _) (eq_of_flowTuple_v6 hip ?_)
    rw [padding_v6Key, padding_v6Key]

/-- A query to the name server, on its way out: the key has it the other way round. -/
theorem key_layouts_agree_query :
    let skb := udpPacket [10, 244, 0, 5] [10, 96, 0, 10] [0xc0, 0, 0, 53] 28
    ReadsAs v4FlowCodec (v4FlowKey quadText) v4Octets quadText (v4Key skb .egress).image 16
        ((wireV4 skb).seen .egress) ∧
      ((wireV4 skb).seen .egress).tuple quadText
        = ⟨"10.96.0.10", "10.244.0.5", "17", "53", "49152"⟩ :=
  ⟨(key_layouts_agree quadText printsApart_quadText).1 _ _ _ rfl (by decide), by decide⟩

end Kubpf
