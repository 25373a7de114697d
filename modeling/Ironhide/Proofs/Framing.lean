import Ironhide.Model.SfcHeader

namespace Ironhide.Proofs.Framing
open Model Lib.Bytes PacketUtils SfcUtilities

/-- A bit-field that starts above the low part of a word lies in the high part. -/
theorem field_above {v w start len : Nat} {x : BitVec v} {y : BitVec w} {z : BitVec len}
    (hw : w ≤ start) (hx : x.extractLsb' (start - w) len = z) :
    (x ++ y).extractLsb' start len = z := by
  rw [BitVec.extractLsb'_append_eq_of_le hw, hx]

@[simp] theorem bytes_length (h : SfcHeader) : h.bytes.length = headerSize := rfl

/-- The struct is read back from its own memory, bit-fields included. -/
theorem read_bytes (h : SfcHeader) (rest : List Byte) : SfcHeader.read (h.bytes ++ rest) = h := by
  have low {v w : Nat} {x : BitVec v} {y : BitVec w} : (x ++ y).extractLsb' 0 w = y :=
    BitVec.extractLsb'_append_eq_right
  have full {w : Nat} {x : BitVec w} : x.extractLsb' 0 w = x := BitVec.extractLsb'_eq_self
  have base : read16 (h.bytes ++ rest) 0 = h.len ++ h.ttl ++ h.u1 ++ h.oam ++ h.ver := join16 _
  have md : read8 (h.bytes ++ rest) 2 = h.mdType ++ h.u2 := rfl
  have prot : read8 (h.bytes ++ rest) 3 = h.prot := rfl
  have path : read32 (h.bytes ++ rest) 4 = h.si ++ h.pId := join32 _
  have source : read32 (h.bytes ++ rest) 8 = h.sourceAddress := join32 _
  have destination : read32 (h.bytes ++ rest) 12 = h.destinationAddress := join32 _
  have sourcePort : read16 (h.bytes ++ rest) 16 = h.sourcePort := join16 _
  have destinationPort : read16 (h.bytes ++ rest) 18 = h.destinationPort := join16 _
  have last : read32 (h.bytes ++ rest) 20 = h.pad ++ h.other ++ h.directionFlag := join32 _
  cases h
  simp only [SfcHeader.read, base, md, prot, path, source, destination, sourcePort,
    destinationPort, last, SfcHeader.mk.injEq, true_and]
  refine ⟨low, field_above (by decide) low, field_above (by decide) (field_above (by decide) low),
    ?_, ?_, low, field_above (by decide) full, low, field_above (by decide) full, low,
    field_above (by decide) low, field_above (by decide) (field_above (by decide) full)⟩
  · exact field_above (by decide) (field_above (by decide) (field_above (by decide) low))
  · exact field_above (by decide) (field_above (by decide) (field_above (by decide)
      (field_above (by decide) full)))

@[simp] theorem retrieveHeader_append (h : SfcHeader) (rest : List Byte) :
    retrieveHeader (h.bytes ++ rest) = h := by
  have htake : (h.bytes ++ rest).take headerSize = h.bytes := List.take_left' (bytes_length h)
  rw [retrieveHeader, htake]
  simpa using read_bytes h []

@[simp] theorem drop_bytes_append (h : SfcHeader) (rest : List Byte) :
    (h.bytes ++ rest).drop headerSize = rest :=
  List.drop_left' (bytes_length h)

theorem read8_append {m : List Byte} {i : Nat} (h : i < m.length) (rest : List Byte) :
    read8 (m ++ rest) i = read8 m i := by
  simp [read8, List.getElem?_append_left h]

theorem read8_take {m : List Byte} {i n : Nat} (h : i < n) : read8 (m.take n) i = read8 m i := by
  simp [read8, h]

theorem read8_drop (m : List Byte) (k i : Nat) : read8 (m.drop k) i = read8 m (k + i) := by
  simp [read8]

/-- A well-formed IP header, options included: as long as its first byte says. -/
structure IpHeader (bs : List Byte) : Prop where
  ihl : 5 ≤ (Iphdr.read bs).ihl.toNat
  length : bs.length = (Iphdr.read bs).ihl.toNat * 4

/-- A well-formed TCP header, options included: as long as its data offset says. -/
structure TcpHeader (bs : List Byte) : Prop where
  doff : 5 ≤ (Tcphdr.read bs).doff.toNat
  length : bs.length = (Tcphdr.read bs).doff.toNat * 4

/-- The length an IP header declares is in its first byte. -/
theorem ipPktLen_first (m : List Byte) :
    ipPktLen m = ((read8 m 0).extractLsb' 0 4).toNat * 4 := by
  simp only [ipPktLen, Iphdr.read, read8_take (m := m) (show 0 < ipHdrLen by decide)]

theorem ipPktLen_append {m : List Byte} (h : m ≠ []) (rest : List Byte) :
    ipPktLen (m ++ rest) = ipPktLen m := by
  rw [ipPktLen_first, ipPktLen_first, read8_append (List.length_pos_iff.mpr h)]

theorem IpHeader.ipPktLen {ip : List Byte} (h : IpHeader ip) (rest : List Byte) :
    ipPktLen (ip ++ rest) = ip.length := by
  have hne : ip ≠ [] := by
    intro hnil
    have hi := h.ihl
    have hl := h.length
    have h0 : ip.length = 0 := by rw [hnil, List.length_nil]
    omega
  rw [ipPktLen_append hne, ipPktLen_first, h.length]
  rfl

theorem TcpHeader.tcpPktLen {ip tcp : List Byte} (hip : IpHeader ip) (h : TcpHeader tcp)
    (rest : List Byte) : tcpPktLen (ip ++ (tcp ++ rest)) = tcp.length := by
  have hlt : 12 < tcp.length := by
    have hd := h.doff
    have hl := h.length
    omega
  have hoff : read8 ((tcp ++ rest).take tcpHdrLen) 12 = read8 tcp 12 := by
    rw [read8_take (by decide), read8_append hlt]
  rw [h.length]
  simp only [PacketUtils.tcpPktLen, hip.ipPktLen, List.drop_left, Tcphdr.read, hoff]

/-- What is behind the SFC, IP and transport headers is the payload. -/
theorem drop_headers (hdr : SfcHeader) (ip transport payload : List Byte) :
    (hdr.bytes ++ (ip ++ (transport ++ payload))).drop
      (headerSize + (ip.length + transport.length)) = payload := by
  rw [← List.drop_drop, drop_bytes_append, ← List.drop_drop, List.drop_left, List.drop_left]

def UdpHeader (bs : List Byte) : Prop := bs.length = udpHdrLen

def plainIp (protocol : Byte) : List Byte :=
  [0x45, 0, 0, 43, 0, 0, 0, 0, 64, protocol, 0, 0, 10, 0, 0, 1, 10, 0, 1, 1]

def plainTcp : List Byte :=
  [0x13, 0x88, 0, 80, 0, 0, 0, 1, 0, 0, 0, 0, 0x50, 0x18, 0xff, 0xff, 0, 0, 0, 0]

def plainUdp : List Byte := [0x13, 0x88, 0, 80, 0, 11, 0, 0]

def tcpPacket : List Byte := plainIp 6 ++ plainTcp ++ [0x61, 0x62, 0x63]

theorem plainIp_header (protocol : Byte) : IpHeader (plainIp protocol) := by
  have hihl : (Iphdr.read (plainIp protocol)).ihl = 5 :=
    show (0x45 : Byte).extractLsb' 0 4 = 5 by decide
  exact ⟨by rw [hihl]; decide, by rw [hihl]; rfl⟩

theorem plainTcp_header : TcpHeader plainTcp := ⟨by decide, by decide⟩

end Ironhide.Proofs.Framing
