import Ironhide.Proofs.Framing

namespace Ironhide.Proofs.HeaderCopies
open Model Lib.Bytes PacketUtils Framing

def Holds {α : Type} (read : List Byte → α) (size : Nat) : Prop :=
  ∀ m m', read m = read m' ↔ ∀ i < size, read8 m i = read8 m' i

/-- A copy of `len` bytes leaves the packet's own fields in a struct: it ends
within the struct, and where it ends early the packet has zeros, as the struct. -/
structure Exact (size len : Nat) (m : List Byte) : Prop where
  fits : len ≤ size
  zeros : ∀ i, len ≤ i → i < size → read8 m i = 0

theorem read8_take_ge {m : List Byte} {n i : Nat} (h : n ≤ i) : read8 (m.take n) i = 0 := by
  have hnone : (m.take n)[i]? = none := List.getElem?_eq_none (by rw [List.length_take]; omega)
  rw [read8, List.getD_eq_getElem?_getD, hnone]
  rfl

theorem Holds.take_iff {α : Type} {read : List Byte → α} {size : Nat} (h : Holds read size)
    (len : Nat) (m : List Byte) :
    read (m.take len) = read m ↔ ∀ i, len ≤ i → i < size → read8 m i = 0 := by
  rw [h]
  constructor
  · intro hread i hlen hi
    have heq := hread i hi
    rw [read8_take_ge hlen] at heq
    exact heq.symm
  · intro hzero i hi
    by_cases hlen : i < len
    · exact read8_take hlen
    · rw [read8_take_ge (Nat.le_of_not_lt hlen), hzero i (Nat.le_of_not_lt hlen) hi]

theorem Holds.exact_iff {α : Type} {read : List Byte → α} {size : Nat} (h : Holds read size)
    (len : Nat) (m : List Byte) :
    len ≤ size ∧ read (m.take len) = read m ↔ Exact size len m := by
  rw [h.take_iff]
  exact ⟨fun hparts => ⟨hparts.1, hparts.2⟩, fun he => ⟨he.fits, he.zeros⟩⟩

theorem le16_read16 (m : List Byte) (i : Nat) : le16 (read16 m i) = [read8 m i, read8 m (i+1)] := by
  have hlow : (read16 m i).extractLsb' 0 8 = read8 m i := BitVec.extractLsb'_append_eq_right
  have hhigh : (read16 m i).extractLsb' 8 8 = read8 m (i+1) :=
    field_above (by decide) BitVec.extractLsb'_eq_self
  rw [le16, hlow, hhigh]

theorem le32_read32 (m : List Byte) (i : Nat) :
    le32 (read32 m i) = [read8 m i, read8 m (i+1), read8 m (i+2), read8 m (i+3)] := by
  have h0 : (read32 m i).extractLsb' 0 8 = read8 m i := BitVec.extractLsb'_append_eq_right
  have h1 : (read32 m i).extractLsb' 8 8 = read8 m (i+1) :=
    field_above (by decide) BitVec.extractLsb'_append_eq_right
  have h2 : (read32 m i).extractLsb' 16 8 = read8 m (i+2) :=
    field_above (by decide) (field_above (by decide) BitVec.extractLsb'_append_eq_right)
  have h3 : (read32 m i).extractLsb' 24 8 = read8 m (i+3) :=
    field_above (by decide) (field_above (by decide) (field_above (by decide)
      BitVec.extractLsb'_eq_self))
  rw [le32, h0, h1, h2, h3]

/-- The two nibbles of a byte. -/
theorem join8 (b : Byte) : b.extractLsb' 4 4 ++ b.extractLsb' 0 4 = b := by
  apply BitVec.eq_of_getLsbD_eq
  intro i hi
  simp only [BitVec.getLsbD_append, BitVec.getLsbD_extractLsb']
  by_cases h : i < 4
  · simp [h]
  · have h4 : 4 + (i - 4) = i := by omega
    have hlt : i - 4 < 4 := by omega
    simp [h, h4, hlt]

/-- A struct that can be written back byte by byte holds its bytes. -/
theorem holds_of_bytes {α : Type} {read : List Byte → α} {size : Nat} (bytes : α → List Byte)
    (hbytes : ∀ m, bytes (read m) = (List.range size).map (read8 m))
    (hread : ∀ m m', (∀ i < size, read8 m i = read8 m' i) → read m = read m') : Holds read size := by
  intro m m'
  refine ⟨fun h i hi => ?_, hread m m'⟩
  have hb := congrArg bytes h
  rw [hbytes, hbytes, List.map_inj_left] at hb
  exact hb i (List.mem_range.mpr hi)

theorem iphdr_holds : Holds Iphdr.read ipHdrLen := by
  apply holds_of_bytes Iphdr.bytes
  · intro m
    simp only [Iphdr.bytes, Iphdr.read, join8, le16_read16, le32_read32]
    rfl
  · intro m m' h
    have hb (i : Nat) (hi : i < 20) : read8 m i = read8 m' i := h i hi
    simp (disch := decide) only [Iphdr.read, read16, read32, hb]

def tcphdrBytes (h : Tcphdr) : List Byte :=
  le16 h.source ++ le16 h.dest ++ le32 h.seq ++ le32 h.ackSeq ++ [h.doff ++ h.res1, h.flags] ++
    le16 h.window ++ le16 h.check ++ le16 h.urgPtr

theorem tcphdr_holds : Holds Tcphdr.read tcpHdrLen := by
  apply holds_of_bytes tcphdrBytes
  · intro m
    simp only [tcphdrBytes, Tcphdr.read, join8, le16_read16, le32_read32]
    rfl
  · intro m m' h
    have hb (i : Nat) (hi : i < 20) : read8 m i = read8 m' i := h i hi
    simp (disch := decide) only [Tcphdr.read, read16, read32, hb]

theorem udphdr_holds : Holds Udphdr.read udpHdrLen := by
  apply holds_of_bytes Udphdr.bytes
  · intro m
    simp only [Udphdr.bytes, Udphdr.read, le16_read16]
    rfl
  · intro m m' h
    have hb (i : Nat) (hi : i < 8) : read8 m i = read8 m' i := h i hi
    simp (disch := decide) only [Udphdr.read, read16, hb]

/-- The second copy of the IP header, which is as long as its first byte says. -/
def ExactIp (pkt : List Byte) : Prop := Exact ipHdrLen (ipPktLen pkt) pkt

def ExactTcp (pkt : List Byte) : Prop :=
  Exact tcpHdrLen (tcpPktLen pkt) (pkt.drop (ipPktLen pkt))

theorem retrieveIpHeader_exact_iff (pkt : List Byte) :
    (retrieveIpHeader pkt).inBounds = true ∧ (retrieveIpHeader pkt).value = Iphdr.read pkt ↔
      ExactIp pkt := by
  rw [retrieveIpHeader_inBounds, decide_eq_true_eq]
  exact iphdr_holds.exact_iff (ipPktLen pkt) pkt

theorem retrieveIpUdpHeader_exact_iff (pkt : List Byte) :
    (retrieveIpUdpHeader pkt).inBounds = true ∧ (retrieveIpUdpHeader pkt).value =
      (Iphdr.read pkt, Udphdr.read (pkt.drop (ipPktLen pkt))) ↔ ExactIp pkt := by
  have hudp : Udphdr.read ((pkt.drop (ipPktLen pkt)).take udpHdrLen) =
      Udphdr.read (pkt.drop (ipPktLen pkt)) :=
    (udphdr_holds.take_iff _ _).mpr fun i hle hlt => absurd hlt (Nat.not_lt.mpr hle)
  rw [retrieveIpUdpHeader_inBounds, decide_eq_true_eq, retrieveIpUdpHeader, hudp, Prod.mk.injEq,
    and_iff_left (rfl : Udphdr.read (pkt.drop (ipPktLen pkt)) = _)]
  exact iphdr_holds.exact_iff (ipPktLen pkt) pkt

theorem retrieveIpTcpHeader_exact_iff (pkt : List Byte) :
    (retrieveIpTcpHeader pkt).inBounds = true ∧ (retrieveIpTcpHeader pkt).value =
      (Iphdr.read pkt, Tcphdr.read (pkt.drop (ipPktLen pkt))) ↔ ExactIp pkt ∧ ExactTcp pkt := by
  have hip := iphdr_holds.exact_iff (ipPktLen pkt) pkt
  have htcp := tcphdr_holds.exact_iff (tcpPktLen pkt) (pkt.drop (ipPktLen pkt))
  rw [retrieveIpTcpHeader_inBounds, Bool.and_eq_true, decide_eq_true_eq, decide_eq_true_eq,
    retrieveIpTcpHeader, Prod.mk.injEq, ExactIp, ExactTcp, ← hip, ← htcp]
  tauto

/-- Header copies stay within their structs and give the packet's fields exactly
when no header declares more than 20 bytes, and one that declares fewer has
zeros in place of the rest. -/
theorem header_copies_exact_iff (pkt : List Byte) :
    ((retrieveIpHeader pkt).inBounds = true ∧ (retrieveIpHeader pkt).value = Iphdr.read pkt ↔
      ExactIp pkt) ∧
    ((retrieveIpUdpHeader pkt).inBounds = true ∧ (retrieveIpUdpHeader pkt).value =
      (Iphdr.read pkt, Udphdr.read (pkt.drop (ipPktLen pkt))) ↔ ExactIp pkt) ∧
    ((retrieveIpTcpHeader pkt).inBounds = true ∧ (retrieveIpTcpHeader pkt).value =
      (Iphdr.read pkt, Tcphdr.read (pkt.drop (ipPktLen pkt))) ↔ ExactIp pkt ∧ ExactTcp pkt) :=
  ⟨retrieveIpHeader_exact_iff pkt, retrieveIpUdpHeader_exact_iff pkt,
    retrieveIpTcpHeader_exact_iff pkt⟩

def ipWithOptions : List Byte :=
  [0x46, 0, 0, 47, 0, 0, 0, 0, 64, 6, 0, 0, 10, 0, 0, 1, 10, 0, 1, 1, 1, 1, 1, 0]

/-- It is well formed, and copied over the end of the struct. -/
theorem options_overrun :
    IpHeader ipWithOptions ∧ ipPktLen (ipWithOptions ++ plainTcp) ≤ (ipWithOptions ++ plainTcp).length ∧
      ¬ (retrieveIpHeader (ipWithOptions ++ plainTcp)).inBounds = true ∧
      ¬ (retrieveIpUdpHeader (ipWithOptions ++ plainTcp)).inBounds = true ∧
      ¬ (retrieveIpTcpHeader (ipWithOptions ++ plainTcp)).inBounds = true :=
  ⟨⟨by decide, by decide⟩, by decide, by decide, by decide, by decide⟩

end Ironhide.Proofs.HeaderCopies
