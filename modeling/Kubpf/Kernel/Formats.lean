import Kubpf.Kernel.FlowReader

/-!
# Packets by their formats

What a packet is, said without the program: it has a version, addresses, a
protocol and ports at fixed offsets, and it is well formed when all of them lie
in the buffer. `flowKey_v4`, `flowKey_v6` and `flowKey_none` say that the program
reads packets exactly so: a counted packet gets the key of its format, and a
packet that fails a bounds check or carries a loopback address gets none.
-/

namespace Kubpf.Kernel

open Lib

/-! ## Headers -/

/-- The IP version: the high half of the first byte. -/
def version (skb : SkBuff) : Nat := (byteAt skb.data 0).toNat / 16

/-- The IPv4 header length in words: the low half of the first byte. -/
def headerWords (skb : SkBuff) : Nat := (byteAt skb.data 0).toNat % 16

/-- The four octets at an offset. -/
def octets4 (data : List UInt8) (off : Nat) : List UInt8 :=
  (List.range 4).map fun i => byteAt data (off + i)

/-- The sixteen octets at an offset. -/
def octets16 (data : List UInt8) (off : Nat) : List UInt8 :=
  (List.range 16).map fun i => byteAt data (off + i)

/-- The header a protocol needs inside the buffer: TCP's is 20 bytes, UDP's 8. -/
def l4Inside (data : List UInt8) (proto : UInt8) (off : Nat) : Prop :=
  (proto = 6 → off + 20 ≤ data.length) ∧ (proto = 17 → off + 8 ≤ data.length)

instance (data : List UInt8) (proto : UInt8) (off : Nat) : Decidable (l4Inside data proto off) :=
  inferInstanceAs (Decidable (_ ∧ _))

/-- Version 4, a header of at least five words, and everything the key needs in the buffer. -/
def WellFormedV4 (skb : SkBuff) : Prop :=
  version skb = 4 ∧ 5 ≤ headerWords skb ∧ 4 * headerWords skb ≤ skb.data.length
    ∧ l4Inside skb.data (byteAt skb.data 9) (4 * headerWords skb)

/-- Version 6 and everything the key needs in the buffer. -/
def WellFormedV6 (skb : SkBuff) : Prop :=
  version skb = 6 ∧ 40 ≤ skb.data.length ∧ l4Inside skb.data (byteAt skb.data 6) 40

/-- One of the comparisons with `data_end` goes the wrong way. -/
def FailsBounds (skb : SkBuff) : Prop :=
  skb.data.length < 20
    ∨ (version skb = 4 ∧ ¬ l4Inside skb.data (byteAt skb.data 9) (4 * headerWords skb))
    ∨ (version skb ≠ 4 ∧
        (skb.data.length < 40 ∨ ¬ l4Inside skb.data (byteAt skb.data 6) 40))

/-- `127.0.0.1` as source or destination. -/
def LoopbackV4 (skb : SkBuff) : Prop :=
  version skb = 4 ∧ (octets4 skb.data 12 = [127, 0, 0, 1] ∨ octets4 skb.data 16 = [127, 0, 0, 1])

/-- `::1` in sixteen octets. -/
def v6Localhost : List UInt8 := [0, 0, 0, 0, 0, 0, 0, 0, 0, 0, 0, 0, 0, 0, 0, 1]

/-- `::1` as source or destination. -/
def LoopbackV6 (skb : SkBuff) : Prop :=
  version skb = 6 ∧ (octets16 skb.data 8 = v6Localhost ∨ octets16 skb.data 24 = v6Localhost)

instance (skb : SkBuff) : Decidable (WellFormedV4 skb) := inferInstanceAs (Decidable (_ ∧ _))
instance (skb : SkBuff) : Decidable (WellFormedV6 skb) := inferInstanceAs (Decidable (_ ∧ _))
instance (skb : SkBuff) : Decidable (FailsBounds skb) := inferInstanceAs (Decidable (_ ∨ _))
instance (skb : SkBuff) : Decidable (LoopbackV4 skb) := inferInstanceAs (Decidable (_ ∧ _))
instance (skb : SkBuff) : Decidable (LoopbackV6 skb) := inferInstanceAs (Decidable (_ ∧ _))

/-- An IPv4 packet that is counted. -/
def CountedV4 (skb : SkBuff) : Prop := WellFormedV4 skb ∧ ¬ LoopbackV4 skb

/-- An IPv6 packet that is counted. -/
def CountedV6 (skb : SkBuff) : Prop := WellFormedV6 skb ∧ ¬ LoopbackV6 skb

instance (skb : SkBuff) : Decidable (CountedV4 skb) := inferInstanceAs (Decidable (_ ∧ _))
instance (skb : SkBuff) : Decidable (CountedV6 skb) := inferInstanceAs (Decidable (_ ∧ _))

/-- The two 16-bit words at the transport header, for the protocols that have ports. -/
def ports (data : List UInt8) (proto : UInt8) (off : Nat) : UInt16 × UInt16 :=
  if proto = 6 ∨ proto = 17 then (load16 data off, load16 data (off + 2)) else (0, 0)

/-- The key of an IPv4 packet: the tuple as it stands for ingress, turned around for egress. -/
def v4Key (skb : SkBuff) : CgroupDirection → InetV4Flow
  | .ingress =>
    let p := ports skb.data (byteAt skb.data 9) (4 * headerWords skb)
    ⟨load32 skb.data 12, load32 skb.data 16, ⟨byteAt skb.data 9, .replicate 3 0, p.1, p.2⟩⟩
  | .egress =>
    let p := ports skb.data (byteAt skb.data 9) (4 * headerWords skb)
    ⟨load32 skb.data 16, load32 skb.data 12, ⟨byteAt skb.data 9, .replicate 3 0, p.2, p.1⟩⟩

/-- The key of an IPv6 packet. -/
def v6Key (skb : SkBuff) : CgroupDirection → InetV6Flow
  | .ingress =>
    let p := ports skb.data (byteAt skb.data 6) 40
    ⟨load128 skb.data 8, load128 skb.data 24, ⟨byteAt skb.data 6, .replicate 3 0, p.1, p.2⟩⟩
  | .egress =>
    let p := ports skb.data (byteAt skb.data 6) 40
    ⟨load128 skb.data 24, load128 skb.data 8, ⟨byteAt skb.data 6, .replicate 3 0, p.2, p.1⟩⟩

/-- The smallest IPv4 UDP packet: addresses of four octets each, then the four port octets. -/
def udpPacket (src dst portOctets : List UInt8) (len : UInt32) : SkBuff where
  len := len
  data := [0x45, 0, 0, 28, 0, 0, 0, 0, 64, 17, 0, 0] ++ src ++ dst ++ portOctets ++ [0, 8, 0, 0]

/-! ## The program reads packets by their formats -/

theorem byte_lt (b : UInt8) : b.toNat < 256 := b.toNat_lt

theorem load32_toNat (data : List UInt8) (off : Nat) :
    (load32 data off).toNat = (byteAt data off).toNat + 2 ^ 8 * (byteAt data (off + 1)).toNat
      + 2 ^ 16 * (byteAt data (off + 2)).toNat + 2 ^ 24 * (byteAt data (off + 3)).toNat := by
  have h0 := byte_lt (byteAt data off)
  have h1 := byte_lt (byteAt data (off + 1))
  have h2 := byte_lt (byteAt data (off + 2))
  have h3 := byte_lt (byteAt data (off + 3))
  rw [load32, UInt32.toNat_ofNat']
  -- four octets never carry out of 32 bits
  exact Nat.mod_eq_of_lt (by omega)

theorem ihl_toNat (skb : SkBuff) : (iphdrAt skb.data).ihl.toNat = headerWords skb := by
  rw [headerWords, iphdrAt, UInt8.toNat_and]
  exact Nat.and_two_pow_sub_one_eq_mod (byteAt skb.data 0).toNat 4

theorem version_iff (skb : SkBuff) : (iphdrAt skb.data).version = 4 ↔ version skb = 4 := by
  have h : (iphdrAt skb.data).version.toNat = version skb := by
    rw [version, iphdrAt, UInt8.toNat_shiftRight]
    exact Nat.shiftRight_eq_div_pow (byteAt skb.data 0).toNat 4
  rw [← h, ← UInt8.toNat_inj]; rfl

/-- A native word is determined by its octets. -/
theorem load32_eq_iff (data : List UInt8) (off : Nat) (a b c d : UInt8) :
    load32 data off
        = .ofNat (a.toNat + 2 ^ 8 * b.toNat + 2 ^ 16 * c.toNat + 2 ^ 24 * d.toNat)
      ↔ octets4 data off = [a, b, c, d] := by
  have ha := byte_lt a
  have hb := byte_lt b
  have hc := byte_lt c
  have hd := byte_lt d
  have h0 := byte_lt (byteAt data off)
  have h1 := byte_lt (byteAt data (off + 1))
  have h2 := byte_lt (byteAt data (off + 2))
  have h3 := byte_lt (byteAt data (off + 3))
  have hocts : octets4 data off
      = [byteAt data off, byteAt data (off + 1), byteAt data (off + 2), byteAt data (off + 3)] :=
    rfl
  rw [hocts, ← UInt32.toNat_inj, load32_toNat, UInt32.toNat_ofNat',
    Nat.mod_eq_of_lt (by omega)]
  -- both sides are numbers of four digits in base 256
  simp only [List.cons.injEq, ← UInt8.toNat_inj, and_true]
  omega

theorem loopback4_iff (data : List UInt8) (off : Nat) :
    load32 data off = ipv4Loopback ↔ octets4 data off = [127, 0, 0, 1] :=
  load32_eq_iff data off 127 0 0 1

theorem loopback6_iff (data : List UInt8) (off : Nat) :
    load128 data off = ipv6Lo ↔ octets16 data off = v6Localhost := by
  have h0 : load32 data off = 0 ↔ _ := load32_eq_iff data off 0 0 0 0
  have h1 : load32 data (off + 4) = 0 ↔ _ := load32_eq_iff data (off + 4) 0 0 0 0
  have h2 : load32 data (off + 8) = 0 ↔ _ := load32_eq_iff data (off + 8) 0 0 0 0
  have h3 : load32 data (off + 12) = 0x01000000 ↔ _ := load32_eq_iff data (off + 12) 0 0 0 1
  have hv : load128 data off = ipv6Lo ↔ load32 data off = 0 ∧ load32 data (off + 4) = 0
      ∧ load32 data (off + 8) = 0 ∧ load32 data (off + 12) = 0x01000000 := by
    simp [load128, ipv6Lo]
  have hocts : octets16 data off = octets4 data off ++ octets4 data (off + 4)
      ++ octets4 data (off + 8) ++ octets4 data (off + 12) := rfl
  have hlo : v6Localhost = [0, 0, 0, 0] ++ [0, 0, 0, 0] ++ [0, 0, 0, 0] ++ [0, 0, 0, 1] := rfl
  rw [hv, h0, h1, h2, h3, hocts, hlo]
  constructor
  · rintro ⟨e0, e1, e2, e3⟩
    rw [e0, e1, e2, e3]
  · intro h
    obtain ⟨h, e3⟩ := List.append_inj h rfl
    obtain ⟨h, e2⟩ := List.append_inj h rfl
    obtain ⟨e0, e1⟩ := List.append_inj h rfl
    exact ⟨e0, e1, e2, e3⟩

theorem readL4_of_inside {data : List UInt8} {proto : UInt8} {off : Nat}
    (h : l4Inside data proto off) :
    readL4 data proto off
      = some ⟨proto, .replicate 3 0, (ports data proto off).1, (ports data proto off).2⟩ := by
  unfold readL4
  dsimp only
  by_cases htcp : proto = ipprotoTcp
  · have hlen : ¬ off + sizeofTcphdr > data.length := Nat.not_lt.mpr (h.1 htcp)
    have hp : ports data proto off = (load16 data off, load16 data (off + 2)) :=
      if_pos (Or.inl htcp)
    rw [if_pos htcp, if_neg hlen, hp]
    rfl
  · by_cases hudp : proto = ipprotoUdp
    · have hlen : ¬ off + sizeofUdphdr > data.length := Nat.not_lt.mpr (h.2 hudp)
      have hp : ports data proto off = (load16 data off, load16 data (off + 2)) :=
        if_pos (Or.inr hudp)
      rw [if_neg htcp, if_pos hudp, if_neg hlen, hp]
      rfl
    · have hp : ports data proto off = (0, 0) := if_neg (not_or.mpr ⟨htcp, hudp⟩)
      rw [if_neg htcp, if_neg hudp, hp]

theorem readL4_of_outside {data : List UInt8} {proto : UInt8} {off : Nat}
    (h : ¬ l4Inside data proto off) : readL4 data proto off = none := by
  unfold readL4
  dsimp only
  by_cases htcp : proto = ipprotoTcp
  · have hlen : off + sizeofTcphdr > data.length := by
      by_contra hge
      exact h ⟨fun _ => Nat.not_lt.mp hge, fun h17 => absurd (htcp ▸ h17) (by decide)⟩
    rw [if_pos htcp, if_pos hlen]
  · by_cases hudp : proto = ipprotoUdp
    · have hlen : off + sizeofUdphdr > data.length := by
        by_contra hge
        exact h ⟨fun h6 => absurd h6 htcp, fun _ => Nat.not_lt.mp hge⟩
      rw [if_neg htcp, if_pos hudp, if_pos hlen]
    · -- without ports there is no header to stick out
      exact absurd ⟨fun h6 => absurd h6 htcp, fun h17 => absurd h17 hudp⟩ h

/-- **A counted IPv4 packet gets the key of its format.** -/
theorem flowKey_v4 {skb : SkBuff} (h : CountedV4 skb) (dir : CgroupDirection) :
    flowKey skb dir = some (.inl (v4Key skb dir)) := by
  obtain ⟨⟨hver, hwords, hhdr, hl4⟩, hloop⟩ := h
  have hlo : ¬ ((iphdrAt skb.data).saddr = ipv4Loopback
      ∨ (iphdrAt skb.data).daddr = ipv4Loopback) := by
    intro hc
    exact hloop ⟨hver, hc.imp (loopback4_iff skb.data 12).mp (loopback4_iff skb.data 16).mp⟩
  have hoff : (iphdrAt skb.data).ihl.toNat <<< 2 = 4 * headerWords skb := by
    rw [ihl_toNat, Nat.shiftLeft_eq]; omega
  rw [flowKey, if_neg (by simp only [sizeofIphdr]; omega), if_pos ((version_iff skb).mpr hver)]
  dsimp only [readV4]
  rw [if_neg hlo, hoff]
  have hr := readL4_of_inside hl4
  simp only [iphdrAt] at hr ⊢
  rw [hr]
  cases dir <;> rfl

/-- **A counted IPv6 packet gets the key of its format.** -/
theorem flowKey_v6 {skb : SkBuff} (h : CountedV6 skb) (dir : CgroupDirection) :
    flowKey skb dir = some (.inr (v6Key skb dir)) := by
  obtain ⟨⟨hver, hlen, hl4⟩, hloop⟩ := h
  have hlo : ¬ ((ipv6hdrAt skb.data).saddr = ipv6Lo ∨ (ipv6hdrAt skb.data).daddr = ipv6Lo) := by
    intro hc
    exact hloop ⟨hver, hc.imp (loopback6_iff skb.data 8).mp (loopback6_iff skb.data 24).mp⟩
  have hver4 : ¬ (iphdrAt skb.data).version = 4 := by
    rw [version_iff, hver]; decide
  rw [flowKey, if_neg (by simp only [sizeofIphdr]; omega), if_neg hver4]
  dsimp only [readV6]
  rw [if_neg (by simp only [sizeofIpv6hdr]; omega), if_neg hlo]
  have hr := readL4_of_inside hl4
  simp only [ipv6hdrAt, sizeofIpv6hdr] at hr ⊢
  rw [hr]
  cases dir <;> rfl

/-- A packet that fails a bounds check or carries a loopback address gets no key. -/
theorem flowKey_none {skb : SkBuff} (h : FailsBounds skb ∨ LoopbackV4 skb ∨ LoopbackV6 skb)
    (dir : CgroupDirection) : flowKey skb dir = none := by
  unfold flowKey
  by_cases h20 : sizeofIphdr > skb.data.length
  · rw [if_pos h20]
  rw [if_neg h20]
  simp only [sizeofIphdr] at h20
  by_cases hver : version skb = 4
  · rw [if_pos ((version_iff skb).mpr hver), Option.map_eq_none_iff, readV4]
    split
    · rfl
    · rename_i hlo
      -- the buffer is long enough and neither address is loopback, so it is the transport header
      have hl4 : ¬ l4Inside skb.data (byteAt skb.data 9) (4 * headerWords skb) := by
        rcases h with (hlen | ⟨_, hl4⟩ | ⟨hne, _⟩) | ⟨_, hl⟩ | ⟨hv6, _⟩
        · omega
        · exact hl4
        · exact absurd hver hne
        · exact absurd (hl.imp (loopback4_iff skb.data 12).mpr (loopback4_iff skb.data 16).mpr) hlo
        · omega
      have hoff : (iphdrAt skb.data).ihl.toNat <<< 2 = 4 * headerWords skb := by
        rw [ihl_toNat, Nat.shiftLeft_eq]; omega
      rw [hoff]
      exact congrArg (Option.map _) (readL4_of_outside hl4)
  · rw [if_neg (fun hv => hver ((version_iff skb).mp hv)), Option.map_eq_none_iff, readV6]
    split
    · rfl
    · rename_i hlen
      simp only [sizeofIpv6hdr] at hlen
      dsimp only
      split
      · rfl
      · rename_i hlo
        have hl4 : ¬ l4Inside skb.data (byteAt skb.data 6) 40 := by
          rcases h with (hlt | ⟨hv4, _⟩ | ⟨_, hlt | hl4⟩) | ⟨hv4, _⟩ | ⟨_, hl⟩
          · omega
          · exact absurd hv4 hver
          · omega
          · exact hl4
          · exact absurd hv4 hver
          · exact absurd (hl.imp (loopback6_iff skb.data 8).mpr
              (loopback6_iff skb.data 24).mpr) hlo
        exact congrArg (Option.map _) (readL4_of_outside hl4)

/-- What was read for the ports. -/
theorem eq_of_readL4 {data : List UInt8} {proto : UInt8} {off : Nat} {l4 : ProtoPort}
    (h : readL4 data proto off = some l4) :
    l4 = ⟨proto, .replicate 3 0, (ports data proto off).1, (ports data proto off).2⟩ := by
  by_cases hin : l4Inside data proto off
  · rw [readL4_of_inside hin] at h
    exact (Option.some.inj h).symm
  · rw [readL4_of_outside hin] at h
    cases h

/-- **Whatever is counted as IPv4 has the key of its format**, well formed or not. -/
theorem eq_v4Key_of_flowKey {skb : SkBuff} {dir : CgroupDirection} {key : InetV4Flow}
    (h : flowKey skb dir = some (.inl key)) : key = v4Key skb dir := by
  unfold flowKey at h
  split_ifs at h with hlen hver
  · obtain ⟨flow, hread, heq⟩ := Option.map_eq_some_iff.mp h
    unfold readV4 at hread
    dsimp only at hread
    split_ifs at hread with hlo
    obtain ⟨l4, hl4, rfl⟩ := Option.map_eq_some_iff.mp hread
    rw [ihl_toNat, show headerWords skb <<< 2 = 4 * headerWords skb by
      rw [Nat.shiftLeft_eq]; omega] at hl4
    rw [← Sum.inl.inj heq, eq_of_readL4 hl4]
    cases dir <;> rfl
  · obtain ⟨flow, -, heq⟩ := Option.map_eq_some_iff.mp h
    cases heq

/-- The same for what is counted as IPv6. -/
theorem eq_v6Key_of_flowKey {skb : SkBuff} {dir : CgroupDirection} {key : InetV6Flow}
    (h : flowKey skb dir = some (.inr key)) : key = v6Key skb dir := by
  unfold flowKey at h
  split_ifs at h with hlen hver
  · obtain ⟨flow, -, heq⟩ := Option.map_eq_some_iff.mp h
    cases heq
  · obtain ⟨flow, hread, heq⟩ := Option.map_eq_some_iff.mp h
    unfold readV6 at hread
    dsimp only at hread
    split_ifs at hread with hshort hlo
    obtain ⟨l4, hl4, rfl⟩ := Option.map_eq_some_iff.mp hread
    rw [← Sum.inr.inj heq, eq_of_readL4 hl4]
    cases dir <;> rfl

end Kubpf.Kernel
