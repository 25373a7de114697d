import Ironhide.Model.Ingress
import Ironhide.Proofs.Framing

namespace Ironhide.Proofs.FromChain
open Model Lib.Bytes Lib.Program PacketUtils SfcUtilities Ingress

variable {φ : Type}

def chainPrt (args : UdpArgs φ) : ProtocolType :=
  connType (retrieveIpHeader (args.pkt.drop headerSize)).value.protocol

def chainEntry (args : UdpArgs φ) : ConnectionEntry :=
  headerEntry (retrieveHeader args.pkt) (chainPrt args)

/-- The header copy the ingress makes fits its struct. -/
def Fits (args : UdpArgs φ) : Prop :=
  (retrieveIpHeader (args.pkt.drop headerSize)).inBounds = true

def payloadOffset (args : UdpArgs φ) : Nat :=
  headerSize + match chainPrt args with
    | .tcp => tcpPacketHeaderSize (args.pkt.drop headerSize)
    | .udp => udpPacketHeaderSize (args.pkt.drop headerSize)

def chainPayload (args : UdpArgs φ) : List Byte :=
  (args.pkt.take args.pktLen).drop (payloadOffset args)

def deliver (args : UdpArgs φ) (sock : φ × SockaddrIn) : Handler φ Unit :=
  match chainPrt args with
  | .tcp => deliverTcp args sock
  | .udp => deliverUdp args (retrieveHeader args.pkt) sock

theorem managePktFromChain_eq (args : UdpArgs φ) (h : Fits args) :
    managePktFromChain args =
      .op (.sendto args.socketFd ack args.clientAddress) fun _ =>
        .op (.retrieveConnection2 (chainEntry args)) fun sock => deliver args sock := by
  rw [managePktFromChain, checked_ok h]
  rfl

theorem managePktFromChain_overrun (args : UdpArgs φ) (h : ¬ Fits args) :
    managePktFromChain args =
      .op (.sendto args.socketFd ack args.clientAddress) fun _ => .throw .undefined := by
  rw [managePktFromChain, checked_overrun h]
  rfl

theorem payloadFrom_ok {args : UdpArgs φ} {pktCalc : Nat} (h : pktCalc ≤ args.pktLen) :
    payloadFrom args pktCalc = .ret ((args.pkt.take args.pktLen).drop pktCalc) := if_pos h

theorem payloadFrom_short {args : UdpArgs φ} {pktCalc : Nat} (h : ¬ pktCalc ≤ args.pktLen) :
    payloadFrom args pktCalc = .throw .undefined := if_neg h

theorem payloadOffset_tcp {args : UdpArgs φ} (hp : chainPrt args = .tcp) :
    payloadOffset args = headerSize + tcpPacketHeaderSize (args.pkt.drop headerSize) := by
  rw [payloadOffset, hp]

theorem payloadOffset_udp {args : UdpArgs φ} (hp : chainPrt args = .udp) :
    payloadOffset args = headerSize + udpPacketHeaderSize (args.pkt.drop headerSize) := by
  rw [payloadOffset, hp]

/-- Writing the payload back on a TCP connection, and closing it. -/
theorem deliver_tcp (args : UdpArgs φ) (sock : φ × SockaddrIn) (hp : chainPrt args = .tcp)
    (h : payloadOffset args ≤ args.pktLen) :
    deliver args sock = .op (.send sock.1 (chainPayload args)) fun respC =>
      if respC < 0 then .throw .exit
      else .op (.shutdown sock.1 2) fun _ => .op (.close sock.1) fun _ => .ret () := by
  rw [chainPayload]
  rw [payloadOffset_tcp hp] at h ⊢
  rw [deliver, hp]
  change deliverTcp args sock = _
  rw [deliverTcp, payloadFrom_ok h]
  rfl

/-- Sending the payload back to a UDP client, and deleting its entry. -/
theorem deliver_udp (args : UdpArgs φ) (sock : φ × SockaddrIn) (hp : chainPrt args = .udp)
    (h : payloadOffset args ≤ args.pktLen) :
    deliver args sock = .op (.sendto sock.1 (chainPayload args) sock.2) fun respC =>
      if respC < 0 then .throw .exit else deleteEntry (chainEntry args) := by
  rw [chainPayload, chainEntry]
  rw [payloadOffset_udp hp] at h ⊢
  rw [deliver, hp]
  change deliverUdp args (retrieveHeader args.pkt) sock = _
  rw [deliverUdp, payloadFrom_ok h]
  rfl

theorem deliver_short (args : UdpArgs φ) (sock : φ × SockaddrIn)
    (h : ¬ payloadOffset args ≤ args.pktLen) : deliver args sock = .throw .undefined := by
  cases hp : chainPrt args with
  | tcp =>
    rw [payloadOffset_tcp hp] at h
    rw [deliver, hp]
    change deliverTcp args sock = _
    rw [deliverTcp, payloadFrom_short h]
    rfl
  | udp =>
    rw [payloadOffset_udp hp] at h
    rw [deliver, hp]
    change deliverUdp args (retrieveHeader args.pkt) sock = _
    rw [deliverUdp, payloadFrom_short h]
    rfl

end Ironhide.Proofs.FromChain
