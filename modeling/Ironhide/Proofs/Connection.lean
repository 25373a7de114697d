import Ironhide.Model.Egress
import Ironhide.Proofs.Framing

namespace Ironhide.Proofs
open Model Lib.Bytes Lib.Text Lib.Program PacketUtils SfcUtilities Framing

variable {φ : Type}

/-- What tells a connection from others: the addresses and ports as they stand
in its packets, and a chain id an SFC header has room for. -/
structure Connection where
  saddr : BitVec 32
  daddr : BitVec 32
  source : BitVec 16
  dest : BitVec 16
  id : Nat
  id_lt : id < 2^24
  deriving DecidableEq

namespace Connection

def entry (c : Connection) (prt : ProtocolType) : ConnectionEntry :=
  connectionEntry c.saddr c.daddr c.source c.dest (Model.toString c.id) prt

/-- The SFC header its packets get, in either direction. -/
def header (c : Connection) (hops : Nat) (direction : Byte) : SfcHeader :=
  createHeader (BitVec.ofNat 32 c.id) 0 (intToIp c.saddr) c.source (intToIp c.daddr) c.dest
    (BitVec.ofNat 16 (hops + 2)) direction

section Fields
variable (c : Connection) (hops : Nat) (direction : Byte)

@[simp] theorem header_sourceAddress : (c.header hops direction).sourceAddress = c.saddr := by
  rw [header, createHeader, ipToInt, intToIp, inetAddr_inetNtoa]

@[simp] theorem header_destinationAddress : (c.header hops direction).destinationAddress = c.daddr := by
  rw [header, createHeader, ipToInt, ipToInt, intToIp, intToIp, inetAddr_inetNtoa, inetAddr_inetNtoa]

@[simp] theorem header_sourcePort : (c.header hops direction).sourcePort = c.source := rfl

@[simp] theorem header_destinationPort : (c.header hops direction).destinationPort = c.dest := rfl

@[simp] theorem header_pId : (c.header hops direction).pId.toNat = c.id := by
  have hlt := c.id_lt
  change (BitVec.setWidth 24 (BitVec.ofNat 32 c.id)).toNat = c.id
  rw [BitVec.toNat_setWidth, BitVec.toNat_ofNat]
  omega

end Fields

/-- The header keeps all of the key: addresses survive their text, the id its 24 bits. -/
theorem headerEntry_header (c : Connection) (hops : Nat) (direction : Byte) (prt : ProtocolType) :
    headerEntry (c.header hops direction) prt = c.entry prt := by
  simp [headerEntry, entry]

theorem ext {c d : Connection} (hs : c.saddr = d.saddr) (hd : c.daddr = d.daddr)
    (hp : c.source = d.source) (hq : c.dest = d.dest) (hid : c.id = d.id) : c = d := by
  cases c
  cases d
  simp_all

section Id
variable (c : Connection)

theorem servicePathId_id :
    (servicePathId (Model.toString c.id) : Handler φ (BitVec 32)) = .ret (BitVec.ofNat 32 c.id) := by
  have hlt := c.id_lt
  have hid : Model.stoi (Model.toString c.id) = .ok (c.id : Int) :=
    Model.stoi_decimal c.id (by omega)
  simp [servicePathId, hid]

theorem getRouteList_id : (getRouteList (Model.toString c.id) : Handler φ (List Address)) =
    .op (.getRouteList (BitVec.ofNat 32 c.id)) raise := by
  rw [getRouteList, servicePathId_id]
  rfl

/-- Forwarding a packet of the connection is one send, behind its header. -/
theorem forward_id (path : List Address) (hop : Address) (direction : Byte) (pkt : List Byte)
    (size : Nat) :
    (forward (Model.toString c.id) path hop c.saddr c.source c.daddr c.dest direction pkt size :
      Handler φ Unit) =
      .op (.sendAndWaitResponse ((c.header path.length direction).bytes ++ pkt.take size)
        hop.address hop.port) fun resolved => if resolved then .ret () else .throw .exit := by
  rw [forward, servicePathId_id]
  rfl

end Id

structure Classifies (c : Connection) (s : Self) (pkt : List Byte) (pktLen : Nat) : Prop where
  inBounds : (s.classify pkt pktLen).inBounds = true
  value : (s.classify pkt pktLen).value = .ok (Model.toString c.id)

theorem Classifies.classifyPkt {c : Connection} {self : Self} {pkt : List Byte} {pktLen : Nat}
    (h : c.Classifies self pkt pktLen) :
    (Model.classifyPkt self pkt pktLen : Handler φ String) = .ret (Model.toString c.id) := by
  rw [Model.classifyPkt, checked_ok h.inBounds, h.value]
  rfl

/-- A datagram the ingress takes to be the connection's, by the headers it reads. -/
structure Enters (c : Connection) (s : Self) (args : UdpArgs φ) : Prop where
  chain : c.Classifies s args.pkt args.pktLen
  saddr : (retrieveIpUdpHeader args.pkt).value.1.saddr = c.saddr
  daddr : (retrieveIpUdpHeader args.pkt).value.1.daddr = c.daddr
  source : (retrieveIpUdpHeader args.pkt).value.2.source = c.source
  dest : (retrieveIpUdpHeader args.pkt).value.2.dest = c.dest

end Connection

structure Packet (Transport : List Byte → Prop) where
  ip : List Byte
  transport : List Byte
  payload : List Byte
  ipHeader : IpHeader ip
  transportHeader : Transport transport

namespace Packet

variable {Transport : List Byte → Prop}

def bytes (p : Packet Transport) : List Byte := p.ip ++ (p.transport ++ p.payload)

/-- The packet belongs to the connection: its addresses and ports are where the
protocols put them. -/
structure Of (p : Packet Transport) (c : Connection) : Prop where
  saddr : read32 p.ip 12 = c.saddr
  daddr : read32 p.ip 16 = c.daddr
  source : read16 p.transport 0 = c.source
  dest : read16 p.transport 2 = c.dest

theorem retrieveIpUdpHeader_value (p : Packet UdpHeader) (stale : List Byte) :
    (retrieveIpUdpHeader (p.bytes ++ stale)).value = (Iphdr.read p.ip, Udphdr.read p.transport) := by
  have hudp : p.transport.length = udpHdrLen := p.transportHeader
  simp only [retrieveIpUdpHeader, bytes, List.append_assoc, p.ipHeader.ipPktLen, List.take_left,
    List.drop_left]
  rw [List.take_left' hudp]

theorem retrieveIpTcpHeader_value (p : Packet TcpHeader) (stale : List Byte) :
    (retrieveIpTcpHeader (p.bytes ++ stale)).value = (Iphdr.read p.ip, Tcphdr.read p.transport) := by
  simp only [retrieveIpTcpHeader, bytes, List.append_assoc, p.ipHeader.ipPktLen,
    p.transportHeader.tcpPktLen p.ipHeader, List.take_left, List.drop_left]

theorem Of.enters {p : Packet UdpHeader} {c : Connection} (h : p.Of c) {s : Self}
    {args : UdpArgs φ} {stale : List Byte} (hpkt : args.pkt = p.bytes ++ stale)
    (hclass : c.Classifies s args.pkt args.pktLen) : c.Enters s args := by
  have hvalue := p.retrieveIpUdpHeader_value stale
  rw [← hpkt] at hvalue
  refine ⟨hclass, ?_, ?_, ?_, ?_⟩
  · rw [hvalue]
    exact h.saddr
  · rw [hvalue]
    exact h.daddr
  · rw [hvalue]
    exact h.source
  · rw [hvalue]
    exact h.dest

end Packet

end Ironhide.Proofs
