import Ironhide.Lib.Buffer
import Ironhide.Model.Egress
import Ironhide.Model.Ingress

namespace Ironhide.Model
open Lib.Bytes Lib.Buffer

namespace PacketUtils

/-- What `retrieve_ip_header` copies of the packet it is given. -/
def retrieveIpHeaderReads (pkt : List Byte) : List Extent :=
  [⟨0, ipHdrLen⟩, ⟨0, ipPktLen pkt⟩]

def retrieveIpUdpHeaderReads (pkt : List Byte) : List Extent :=
  [⟨0, ipHdrLen⟩, ⟨0, ipPktLen pkt⟩, ⟨ipPktLen pkt, udpHdrLen⟩]

def retrieveIpTcpHeaderReads (pkt : List Byte) : List Extent :=
  [⟨0, ipHdrLen⟩, ⟨0, ipPktLen pkt⟩, ⟨ipPktLen pkt, tcpHdrLen⟩, ⟨ipPktLen pkt, tcpPktLen pkt⟩]

/-- What is read is as long as what is copied. -/
theorem reads_copies (pkt : List Byte) :
    (retrieveIpHeaderReads pkt).map Extent.len = (retrieveIpHeader pkt).copies.map Copy.n ∧
    (retrieveIpUdpHeaderReads pkt).map Extent.len = (retrieveIpUdpHeader pkt).copies.map Copy.n ∧
    (retrieveIpTcpHeaderReads pkt).map Extent.len = (retrieveIpTcpHeader pkt).copies.map Copy.n :=
  ⟨rfl, rfl, rfl⟩

def udpPacketHeaderSizeReads : List Extent := [⟨0, ipHdrLen⟩]

def tcpPacketHeaderSizeReads (pkt : List Byte) : List Extent :=
  [⟨0, ipHdrLen⟩, ⟨ipPktLen pkt, tcpHdrLen⟩]

end PacketUtils

namespace SfcUtilities

def retrieveHeaderReads : List Extent := [⟨0, headerSize⟩]

end SfcUtilities

open PacketUtils SfcUtilities

variable {φ : Type}

/-- The payload, behind headers of `pktCalc` bytes. `strncpy` may stop before its end. -/
def payloadReads (pktLen pktCalc : Nat) : List Extent :=
  [⟨pktCalc, (Egress.payloadLen pktLen pktCalc).toNat⟩]

namespace Egress

def manageExitingUdpPacketsReads (pkt : List Byte) (pktLen : Nat) : List Extent :=
  udpPacketHeaderSizeReads.map (Extent.shift headerSize) ++ retrieveHeaderReads ++
    payloadReads pktLen (headerSize + udpPacketHeaderSize (pkt.drop headerSize))

def manageExitingTcpPacketsReads (pkt : List Byte) (pktLen : Nat) : List Extent :=
  retrieveHeaderReads ++
    (tcpPacketHeaderSizeReads (pkt.drop headerSize)).map (Extent.shift headerSize) ++
    payloadReads pktLen (headerSize + tcpPacketHeaderSize (pkt.drop headerSize))

/-- The reads of `Egress::manage_pkt_from_chain` and of the closure it starts. -/
def managePktFromChainReads (args : UdpArgs φ) : List Extent :=
  retrieveHeaderReads ++
    (retrieveIpUdpHeaderReads (args.pkt.drop headerSize)).map (Extent.shift headerSize) ++
    match connType (retrieveIpUdpHeader (args.pkt.drop headerSize)).value.1.protocol with
    | .tcp => manageExitingTcpPacketsReads args.pkt args.pktLen
    | .udp => manageExitingUdpPacketsReads args.pkt args.pktLen

end Egress

namespace Ingress

/-- The reads of `Ingress::manage_pkt_from_chain`. -/
def managePktFromChainReads (args : UdpArgs φ) : List Extent :=
  retrieveHeaderReads ++
    (retrieveIpHeaderReads (args.pkt.drop headerSize)).map (Extent.shift headerSize) ++
    match connType (retrieveIpHeader (args.pkt.drop headerSize)).value.protocol with
    | .tcp =>
      (tcpPacketHeaderSizeReads (args.pkt.drop headerSize)).map (Extent.shift headerSize) ++
        payloadReads args.pktLen (headerSize + tcpPacketHeaderSize (args.pkt.drop headerSize))
    | .udp =>
      udpPacketHeaderSizeReads.map (Extent.shift headerSize) ++
        payloadReads args.pktLen (headerSize + udpPacketHeaderSize (args.pkt.drop headerSize))

end Ingress

end Ironhide.Model
