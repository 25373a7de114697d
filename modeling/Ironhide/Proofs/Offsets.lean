import Ironhide.Model.Reads
import Ironhide.Proofs.Connection

namespace Ironhide.Proofs.Offsets
open Model Lib.Bytes Lib.Buffer PacketUtils Framing

variable {Transport : List Byte → Prop}

/-- In the packet the transport header reaches from `off` to `size`, and the
payload from there to the end. -/
structure PartsAt (p : Packet Transport) (off size : Nat) : Prop where
  transport : (⟨off, size - off⟩ : Extent).read p.bytes = p.transport
  payload : p.bytes.drop size = p.payload
  length : size + p.payload.length = p.bytes.length

/-- The ports are the first two fields of the header at `off`. -/
structure PortsAt (m : List Byte) (off : Nat) (source dest : BitVec 16) : Prop where
  source : source = read16 m off
  dest : dest = read16 m (off + 2)

theorem partsAt (p : Packet Transport) :
    PartsAt p p.ip.length (p.ip.length + p.transport.length) where
  transport := by
    rw [Extent.read, Nat.add_sub_cancel_left, Packet.bytes, List.drop_left, List.take_left]
  payload := by
    rw [Packet.bytes, ← List.drop_drop, List.drop_left, List.drop_left]
  length := by
    rw [Packet.bytes, List.length_append, List.length_append, Nat.add_assoc]

/-- A load from the transport header, by its place in the packet. -/
theorem read16_transport (p : Packet Transport) {i : Nat} (h : i + 1 < p.transport.length) :
    read16 p.bytes (p.ip.length + i) = read16 p.transport i := by
  have hbyte (j : Nat) (hj : j < p.transport.length) :
      read8 p.bytes (p.ip.length + j) = read8 p.transport j := by
    rw [← read8_drop, Packet.bytes, List.drop_left, read8_append hj]
  rw [read16, read16, Nat.add_assoc, hbyte _ h, hbyte _ (Nat.lt_of_succ_lt h)]

theorem portsAt (p : Packet Transport) (h : 4 ≤ p.transport.length) :
    PortsAt p.bytes p.ip.length (read16 p.transport 0) (read16 p.transport 2) where
  source := (read16_transport p (i := 0) (by omega)).symm
  dest := (read16_transport p (by omega)).symm

theorem udp_offset (p : Packet UdpHeader) :
    ipPktLen p.bytes = p.ip.length ∧
      udpPacketHeaderSize p.bytes = p.ip.length + p.transport.length := by
  have hip : ipPktLen p.bytes = p.ip.length := p.ipHeader.ipPktLen _
  have hudp : p.transport.length = udpHdrLen := p.transportHeader
  rw [udpPacketHeaderSize, hip, hudp]
  exact ⟨rfl, rfl⟩

theorem tcp_offset (p : Packet TcpHeader) :
    ipPktLen p.bytes = p.ip.length ∧ tcpPktLen p.bytes = p.transport.length ∧
      tcpPacketHeaderSize p.bytes = p.ip.length + p.transport.length := by
  have hip : ipPktLen p.bytes = p.ip.length := p.ipHeader.ipPktLen _
  have htcp : tcpPktLen p.bytes = p.transport.length := p.transportHeader.tcpPktLen p.ipHeader _
  rw [tcpPacketHeaderSize, hip, htcp]
  exact ⟨rfl, rfl, rfl⟩

/-- The ports of a UDP packet. -/
theorem udp_ports (p : Packet UdpHeader) :
    PortsAt p.bytes p.ip.length (retrieveIpUdpHeader p.bytes).value.2.source
      (retrieveIpUdpHeader p.bytes).value.2.dest := by
  have hvalue := p.retrieveIpUdpHeader_value []
  have hudp : p.transport.length = 8 := p.transportHeader
  rw [List.append_nil] at hvalue
  rw [hvalue]
  exact portsAt p (by omega)

/-- The ports of a TCP packet. -/
theorem tcp_ports (p : Packet TcpHeader) :
    PortsAt p.bytes p.ip.length (retrieveIpTcpHeader p.bytes).value.2.source
      (retrieveIpTcpHeader p.bytes).value.2.dest := by
  have hvalue := p.retrieveIpTcpHeader_value []
  have hdoff := p.transportHeader.doff
  have hlen := p.transportHeader.length
  rw [List.append_nil] at hvalue
  rw [hvalue]
  exact portsAt p (by omega)

/-- Both header sizes are the payload's offset, and the transport header they count
is the one the header copies start from: options move both alike. -/
theorem payload_offsets :
    (∀ p : Packet UdpHeader, ∃ off, PartsAt p off (udpPacketHeaderSize p.bytes) ∧
      retrieveIpUdpHeaderReads p.bytes = [⟨0, ipHdrLen⟩, ⟨0, off⟩, ⟨off, udpHdrLen⟩] ∧
      PortsAt p.bytes off (retrieveIpUdpHeader p.bytes).value.2.source
        (retrieveIpUdpHeader p.bytes).value.2.dest) ∧
    (∀ p : Packet TcpHeader, ∃ off, PartsAt p off (tcpPacketHeaderSize p.bytes) ∧
      retrieveIpTcpHeaderReads p.bytes =
        [⟨0, ipHdrLen⟩, ⟨0, off⟩, ⟨off, tcpHdrLen⟩, ⟨off, p.transport.length⟩] ∧
      PortsAt p.bytes off (retrieveIpTcpHeader p.bytes).value.2.source
        (retrieveIpTcpHeader p.bytes).value.2.dest) := by
  constructor
  · intro p
    obtain ⟨hip, hsize⟩ := udp_offset p
    refine ⟨p.ip.length, ?_, ?_, udp_ports p⟩
    · rw [hsize]
      exact partsAt p
    · rw [retrieveIpUdpHeaderReads, hip]
  · intro p
    obtain ⟨hip, htcp, hsize⟩ := tcp_offset p
    refine ⟨p.ip.length, ?_, ?_, tcp_ports p⟩
    · rw [hsize]
      exact partsAt p
    · rw [retrieveIpTcpHeaderReads, hip, htcp]

end Ironhide.Proofs.Offsets
