import Ironhide.Lib.Text

namespace Ironhide.Model
open Lib.Bytes Lib.Text

def bufferSize : Nat := 65536

/-- `struct iphdr` on a little-endian host. -/
structure Iphdr where
  ihl : BitVec 4
  version : BitVec 4
  tos : Byte
  totLen : BitVec 16
  id : BitVec 16
  fragOff : BitVec 16
  ttl : Byte
  protocol : Byte
  check : BitVec 16
  saddr : BitVec 32
  daddr : BitVec 32
  deriving DecidableEq, Repr

def Iphdr.read (m : List Byte) : Iphdr where
  ihl := (read8 m 0).extractLsb' 0 4
  version := (read8 m 0).extractLsb' 4 4
  tos := read8 m 1
  totLen := read16 m 2
  id := read16 m 4
  fragOff := read16 m 6
  ttl := read8 m 8
  protocol := read8 m 9
  check := read16 m 10
  saddr := read32 m 12
  daddr := read32 m 16

def Iphdr.bytes (h : Iphdr) : List Byte :=
  [h.version ++ h.ihl, h.tos] ++ le16 h.totLen ++ le16 h.id ++ le16 h.fragOff ++
    [h.ttl, h.protocol] ++ le16 h.check ++ le32 h.saddr ++ le32 h.daddr

/-- `struct tcphdr`; `flags` holds the one-bit fields. -/
structure Tcphdr where
  source : BitVec 16
  dest : BitVec 16
  seq : BitVec 32
  ackSeq : BitVec 32
  res1 : BitVec 4
  doff : BitVec 4
  flags : Byte
  window : BitVec 16
  check : BitVec 16
  urgPtr : BitVec 16
  deriving DecidableEq, Repr

def Tcphdr.read (m : List Byte) : Tcphdr where
  source := read16 m 0
  dest := read16 m 2
  seq := read32 m 4
  ackSeq := read32 m 8
  res1 := (read8 m 12).extractLsb' 0 4
  doff := (read8 m 12).extractLsb' 4 4
  flags := read8 m 13
  window := read16 m 14
  check := read16 m 16
  urgPtr := read16 m 18

structure Udphdr where
  source : BitVec 16
  dest : BitVec 16
  len : BitVec 16
  check : BitVec 16
  deriving DecidableEq, Repr

def Udphdr.read (m : List Byte) : Udphdr where
  source := read16 m 0
  dest := read16 m 2
  len := read16 m 4
  check := read16 m 6

def Udphdr.bytes (h : Udphdr) : List Byte :=
  le16 h.source ++ le16 h.dest ++ le16 h.len ++ le16 h.check

structure PseudoHeader where
  sourceAddress : BitVec 32
  destAddress : BitVec 32
  placeholder : Byte
  protocol : Byte
  udpLength : BitVec 16
  deriving DecidableEq, Repr

def PseudoHeader.bytes (h : PseudoHeader) : List Byte :=
  le32 h.sourceAddress ++ le32 h.destAddress ++ [h.placeholder, h.protocol] ++ le16 h.udpLength

/-- A `memcpy` of `n` bytes into a struct of `size` bytes. -/
structure Copy where
  size : Nat
  n : Nat
  deriving DecidableEq, Repr

/-- A value assembled from raw copies. When one of them is longer than its
struct, the source has overrun it, and the value is only what the struct held. -/
structure Copied (α : Type) where
  value : α
  copies : List Copy

def Copied.inBounds {α : Type} (c : Copied α) : Bool := c.copies.all (fun m => m.n ≤ m.size)

@[simp] theorem Copied.inBounds_mk {α β : Type} (v : α) (c : Copied β) :
    (Copied.mk v c.copies).inBounds = c.inBounds := rfl

namespace PacketUtils

def ipHdrLen : Nat := 20
def udpHdrLen : Nat := 8
def tcpHdrLen : Nat := 20

def ack : List Byte := [0x41, 0x43, 0x4b]

def intToIp (ipInt : BitVec 32) : String := inetNtoa ipInt

def ipToInt (ipString : String) : BitVec 32 := inetAddr ipString

/-- The length the low nibble of the first byte declares, in bytes. -/
def ipPktLen (pkt : List Byte) : Nat := (Iphdr.read (pkt.take ipHdrLen)).ihl.toNat * 4

def tcpPktLen (pkt : List Byte) : Nat :=
  (Tcphdr.read ((pkt.drop (ipPktLen pkt)).take tcpHdrLen)).doff.toNat * 4

def retrieveIpHeader (pkt : List Byte) : Copied Iphdr where
  value := Iphdr.read (pkt.take (ipPktLen pkt))
  copies := [⟨ipHdrLen, ipHdrLen⟩, ⟨ipHdrLen, ipPktLen pkt⟩]

def retrieveIpTcpHeader (pkt : List Byte) : Copied (Iphdr × Tcphdr) where
  value := (Iphdr.read (pkt.take (ipPktLen pkt)),
    Tcphdr.read ((pkt.drop (ipPktLen pkt)).take (tcpPktLen pkt)))
  copies := [⟨ipHdrLen, ipHdrLen⟩, ⟨ipHdrLen, ipPktLen pkt⟩, ⟨tcpHdrLen, tcpHdrLen⟩,
    ⟨tcpHdrLen, tcpPktLen pkt⟩]

def retrieveIpUdpHeader (pkt : List Byte) : Copied (Iphdr × Udphdr) where
  value := (Iphdr.read (pkt.take (ipPktLen pkt)),
    Udphdr.read ((pkt.drop (ipPktLen pkt)).take udpHdrLen))
  copies := [⟨ipHdrLen, ipHdrLen⟩, ⟨ipHdrLen, ipPktLen pkt⟩, ⟨udpHdrLen, udpHdrLen⟩]

@[simp] theorem retrieveIpHeader_inBounds (pkt : List Byte) :
    (retrieveIpHeader pkt).inBounds = decide (ipPktLen pkt ≤ ipHdrLen) := by
  simp [Copied.inBounds, retrieveIpHeader]

@[simp] theorem retrieveIpTcpHeader_inBounds (pkt : List Byte) :
    (retrieveIpTcpHeader pkt).inBounds =
      (decide (ipPktLen pkt ≤ ipHdrLen) && decide (tcpPktLen pkt ≤ tcpHdrLen)) := by
  simp [Copied.inBounds, retrieveIpTcpHeader]

@[simp] theorem retrieveIpUdpHeader_inBounds (pkt : List Byte) :
    (retrieveIpUdpHeader pkt).inBounds = decide (ipPktLen pkt ≤ ipHdrLen) := by
  simp [Copied.inBounds, retrieveIpUdpHeader]

def udpPacketHeaderSize (pkt : List Byte) : Nat := ipPktLen pkt + udpHdrLen

def tcpPacketHeaderSize (pkt : List Byte) : Nat := ipPktLen pkt + tcpPktLen pkt

/-- The little-endian 16-bit words of a buffer, added up; an odd last byte is zero-extended. -/
def wordSum : List Byte → Nat
  | b₀ :: b₁ :: m => (b₁ ++ b₀).toNat + wordSum m
  | [b] => b.toNat
  | [] => 0

def csum (ptr : List Byte) (nbytes : Nat) : BitVec 16 :=
  let sum := wordSum (ptr.take nbytes)
  let sum := sum / 2^16 + sum % 2^16
  let sum := sum + sum / 2^16
  ~~~ BitVec.ofNat 16 sum

/-- The IP header `forge_ip_udp_pkt` fills in, its checksum still zero. -/
def forgedIphdr (dataLen : Nat) (sourceIp destIp : String) : Iphdr where
  ihl := 5
  version := 4
  tos := 0
  totLen := BitVec.ofNat 16 (ipHdrLen + udpHdrLen + dataLen)
  id := (htonl 54321).setWidth 16
  fragOff := 0
  ttl := 255
  protocol := 17
  check := 0
  saddr := inetAddr sourceIp
  daddr := inetAddr destIp

def forgedUdphdr (dataLen : Nat) (sourcePort destPort : BitVec 16) : Udphdr where
  source := htons sourcePort
  dest := htons destPort
  len := htons (BitVec.ofNat 16 (8 + dataLen))
  check := 0

/-- `forge_ip_udp_pkt`: what it leaves in the datagram buffer. -/
def forgeIpUdpPkt (data : List Byte) (dataLen : Nat) (sourceIp destIp : String)
    (sourcePort destPort : BitVec 16) (datagram : List Byte) : List Byte :=
  let iph := forgedIphdr dataLen sourceIp destIp
  let datagram := writeAt datagram 0 (List.replicate 4096 0)
  let datagram := writeAt datagram (ipHdrLen + udpHdrLen) (strncpy data dataLen)
  let datagram := writeAt datagram 0 iph.bytes
  let datagram := writeAt datagram 10 (le16 (csum datagram iph.totLen.toNat))
  let datagram := writeAt datagram ipHdrLen (forgedUdphdr dataLen sourcePort destPort).bytes
  let psh : PseudoHeader := {
    sourceAddress := inetAddr sourceIp
    destAddress := inetAddr destIp
    placeholder := 0
    protocol := 17
    udpLength := htons (BitVec.ofNat 16 (udpHdrLen + dataLen)) }
  let pseudogram := psh.bytes ++ (datagram.drop ipHdrLen).take (udpHdrLen + dataLen)
  writeAt datagram (ipHdrLen + 6) (le16 (csum pseudogram (12 + udpHdrLen + dataLen)))

end PacketUtils

end Ironhide.Model
