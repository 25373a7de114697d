import Ironhide.Lib.Passing
import Ironhide.Proofs.Checksum
import Ironhide.Proofs.Forwarded

namespace Ironhide.Proofs.Translation
open Model Lib.Bytes Lib.Text Lib.Program Lib.Passing PacketUtils SfcUtilities
open Framing Observed

variable {φ : Type}

/-- The two ends of a connection, as they stand in its packets. -/
structure Ends where
  saddr : BitVec 32
  daddr : BitVec 32
  source : BitVec 16
  dest : BitVec 16
  deriving DecidableEq, Repr

def packetEnds {Transport : List Byte → Prop} (p : Packet Transport) : Ends where
  saddr := read32 p.ip 12
  daddr := read32 p.ip 16
  source := read16 p.transport 0
  dest := read16 p.transport 2

def headerEnds (h : SfcHeader) : Ends where
  saddr := h.sourceAddress
  daddr := h.destinationAddress
  source := h.sourcePort
  dest := h.destinationPort

/-- The ends that the handlers of a protocol read at the front of a buffer. -/
def readEnds : ProtocolType → List Byte → Ends
  | .udp, pkt =>
    let headers := (retrieveIpUdpHeader pkt).value
    ⟨headers.1.saddr, headers.1.daddr, headers.2.source, headers.2.dest⟩
  | .tcp, pkt =>
    let headers := (retrieveIpTcpHeader pkt).value
    ⟨headers.1.saddr, headers.1.daddr, headers.2.source, headers.2.dest⟩

/-- The ends that are read of what was received. What the bytes are too short for is
read from whatever the buffer has behind them. -/
def ReadAs (input : ProtocolType × List Byte) (ends : Ends) : Prop :=
  ∃ stale, readEnds input.1 (input.2 ++ stale) = ends

/-- The frame is what a client sent, behind a header with the ends that were read of it. -/
def Framed (input : ProtocolType × List Byte) (m : List Byte) : Prop :=
  ∃ hdr : SfcHeader, m = hdr.bytes ++ input.2 ∧ ReadAs input (headerEnds hdr)

def takes {μ : Type} (f : List Byte → μ) (e : Event (Op φ) (Reply φ)) : Option μ := (chunk e).map f

section Forwarding
variable {μ ν : Type} {f : List Byte → μ} {R : μ → List Byte → Prop} {held : Option μ}

theorem quiet_of_aside {o : Op φ} (h : Forwarded.Aside o) : Quiet (takes f) message o := by
  refine ⟨h.1, fun r => ?_⟩
  rw [takes, chunk_none h.2]
  rfl

/-- Forwarding hands on the packet behind a header with the ends it is given. -/
theorem forward_passes {a : μ} {sfcid : String} {path : List Address} {hop : Address}
    {saddr daddr : BitVec 32} {source dest : BitVec 16} {direction : Byte} {pkt : List Byte}
    {size : Nat} (hR : ∀ hdr : SfcHeader, headerEnds hdr = ⟨saddr, daddr, source, dest⟩ →
      R a (hdr.bytes ++ pkt.take size)) :
    Passes (takes f) message R (forward sfcid path hop saddr source daddr dest direction pkt size :
      Handler φ Unit) (some a) := by
  refine Passes.after (servicePathId_all sfcid) fun pId es _ => ⟨fun m hm => ?_, fun resolved => ?_⟩
  · cases hm
    refine ⟨a, rfl, hR _ ?_⟩
    simp [headerEnds, createHeader, ipToInt, intToIp]
  · cases resolved <;> trivial

theorem runs_checked {α : Type} {c : Copied α} {es : List (Event (Op φ) (Reply φ))} {a : α}
    (h : (checked c : Handler φ α).Runs es (.ok a)) : a = c.value := by
  unfold checked at h
  split at h
  · cases h
    rfl
  · cases h

theorem runs_checked_nil {α : Type} {c : Copied α} {es : List (Event (Op φ) (Reply φ))}
    {out : Except Stop α} (h : (checked c : Handler φ α).Runs es out) : es = [] := by
  unfold checked at h
  split at h
  · exact (Prog.runs_ret.mp h).1
  · exact (Prog.runs_throw.mp h).1

theorem manageEnteringUdpPackets_passes (self : Self) (args : UdpArgs φ)
    (f : List Byte → ProtocolType × List Byte) :
    Passes (takes f) message Framed (Ingress.manageEnteringUdpPackets self args)
      (some (.udp, args.pkt.take args.pktLen)) := by
  have hquiet (o : Op φ) (h : Forwarded.Aside o) := quiet_of_aside (f := f) h
  refine Passes.after ((classifyPkt_all self _ _).mono hquiet) fun sfcid _ _ => ?_
  refine Passes.after ((checked_all _).mono hquiet) fun headers _ hread => ?_
  refine Passes.after ((addEntry_all ⟨rfl, id⟩).mono hquiet) fun _ _ _ => ?_
  refine Passes.after ((getRouteList_all (fun _ => ⟨rfl, id⟩) sfcid).mono hquiet) fun path _ _ => ?_
  cases path with
  | nil => trivial
  | cons hop hops =>
    refine forward_passes fun hdr hends => ⟨hdr, rfl, args.pkt.drop args.pktLen, ?_⟩
    rw [List.take_append_drop, hends, runs_checked hread]
    rfl

/-- A round of the receive loop forwards what it is for, or nothing. -/
theorem enteringRound_passes (self : Self) (args : TcpArgs φ) (st : Ingress.Entering)
    (received : List Byte) :
    Passes (takes (Prod.mk .tcp)) message Framed (Ingress.enteringRound self args st received)
      (some (.tcp, received)) := by
  have hquiet (o : Op φ) (h : Forwarded.Aside o) :=
    quiet_of_aside (f := Prod.mk ProtocolType.tcp) h
  refine Passes.after ((classifyPkt_all self _ _).mono hquiet) fun sfcid _ _ => ?_
  dsimp only
  split
  · refine Passes.after ((checked_all _).mono hquiet) fun headers _ hread => ?_
    refine Passes.bind (Passes.rescue ?_ fun stop => ?_) fun turn => ?_
    · refine Passes.after ((addEntry_all ⟨rfl, id⟩).mono hquiet) fun _ _ _ => ?_
      refine Passes.after ((getRouteList_all (fun _ => ⟨rfl, id⟩) _).mono hquiet) fun path _ _ => ?_
      cases path with
      | nil => trivial
      | cons hop hops =>
        refine Passes.bind (forward_passes fun hdr hends =>
          ⟨hdr, ?_, st.pkt.drop received.length, ?_⟩) fun _ => trivial
        · rw [overwrite, List.take_left]
        · rw [hends, runs_checked hread]
          rfl
    · exact passes_of_all ((Ingress.catchFailure_all stop).mono hquiet)
    · cases turn <;> trivial
  · trivial

theorem enteringLoop_passes (self : Self) (args : TcpArgs φ) (n : Nat) (st : Ingress.Entering) :
    Passes (takes (Prod.mk .tcp)) message Framed (Ingress.enteringLoop self args n st) none := by
  induction n generalizing st with
  | zero => trivial
  | succ n ih =>
    refine ⟨fun m hm => (by cases hm), fun reply => ?_⟩
    match reply with
    | none => trivial
    | some [] => trivial
    | some (b :: bs) =>
      refine (enteringRound_passes self args st (b :: bs)).bind fun next => ?_
      dsimp only
      split
      · exact ih _
      · trivial

theorem manageEnteringTcpPackets_passes (self : Self) (args : TcpArgs φ) (pkt : List Byte)
    (fuel : Nat) :
    Passes (takes (Prod.mk .tcp)) message Framed
      (Ingress.manageEnteringTcpPackets self args pkt fuel) none := by
  refine (enteringLoop_passes self args fuel _).bind fun last => ?_
  refine passes_of_all ((Ingress.afterLoop_all (fun ce => ?_) ?_ _ _).mono fun o => quiet_of_aside)
  · exact ⟨rfl, id⟩
  · exact ⟨rfl, id⟩

def given : Ingress.Callback φ → Option (ProtocolType × List Byte)
  | .udp args => some (.udp, args.pkt.take args.pktLen)
  | _ => none

/-- A handler of the ingress forwards what clients have sent, each of it once. -/
theorem ingress_passes (self : Self) (g : Ingress.Callback φ) :
    Passes (takes (Prod.mk .tcp)) message Framed (Ingress.start self g) (given g) := by
  cases g with
  | tcp args pkt fuel => exact manageEnteringTcpPackets_passes self args pkt fuel
  | udp args => exact manageEnteringUdpPackets_passes self args _
  | vnf args =>
    refine passes_of_all (Prog.All.mono (fun o => quiet_of_aside) ?_)
    exact Ingress.managePktFromChain_all ⟨rfl, id⟩ (fun _ => ⟨rfl, id⟩) (fun _ _ => ⟨rfl, id⟩)
      (fun _ _ => ⟨rfl, id⟩) (fun _ => ⟨rfl, id⟩) (fun _ _ _ => ⟨rfl, id⟩) fun _ => ⟨rfl, id⟩

end Forwarding

inductive Output where
  | datagram (bytes : List Byte) (addr : SockaddrIn)
  | stream (bytes : List Byte)
  deriving DecidableEq, Repr

namespace Output

def prt : Output → ProtocolType
  | datagram .. => .udp
  | stream _ => .tcp

def bytes : Output → List Byte
  | datagram bytes _ => bytes
  | stream bytes => bytes

end Output

def writesOn : Op φ → Option (φ × Output)
  | .sendto fd bytes addr => some (fd, .datagram bytes addr)
  | .send fd bytes => some (fd, .stream bytes)
  | _ => none

def connects : Op φ → Option (String × BitVec 16)
  | .connectToServer dst port => some (dst, port)
  | _ => none

def packetHeaderSize : ProtocolType → List Byte → Nat
  | .udp => udpPacketHeaderSize
  | .tcp => tcpPacketHeaderSize

/-- Read as a packet the bytes are one of the protocol, and the payload is all that
is behind its headers. Of headers that are cut short the rest is read from whatever
the buffer has behind the bytes. -/
def Carries (prt : ProtocolType) (bytes payload : List Byte) : Prop :=
  ∃ stale, connType (retrieveIpHeader (bytes ++ stale)).value.protocol = prt ∧
    packetHeaderSize prt (bytes ++ stale) ≤ bytes.length ∧
    payload = bytes.drop (packetHeaderSize prt (bytes ++ stale))

def destination (ends : Ends) : String × BitVec 16 := (intToIp ends.daddr, htons ends.dest)

/-- The output takes to its destination what `strncpy` copies of the payload: the
bytes before its first zero byte, then zeros. A datagram names the egress as its source. -/
def Delivers (self : Self) (ends : Ends) (payload : List Byte) : Output → Prop
  | .datagram bytes addr => addr = ⟨2, htons ends.dest, ends.daddr⟩ ∧
    ∃ p : Packet UdpHeader, p.bytes = bytes ∧ p.payload = strncpy payload payload.length ∧
      packetEnds p = ⟨inetAddr self.myIp, ends.daddr, htons self.extPort, ends.dest⟩
  | .stream bytes => bytes = strncpy payload payload.length

/-- What the egress sends for a frame that fits its buffers. -/
def Exits (self : Self) (frame : List Byte) (output : Output) : Prop :=
  frame.length ≤ bufferSize → headerSize ≤ frame.length ∧
    ∃ payload, Carries output.prt (frame.drop headerSize) payload ∧
      Delivers self (headerEnds (retrieveHeader frame)) payload output

/-- Where it opens a connection to for such a frame, which carries a TCP packet then. -/
def Reaches (frame : List Byte) (server : String × BitVec 16) : Prop :=
  frame.length ≤ bufferSize → (∃ payload, Carries .tcp (frame.drop headerSize) payload) ∧
    server = destination (headerEnds (retrieveHeader frame))

section Packets
variable {ends : Ends} {payload : List Byte}

/-- Of a packet its own ends are read. -/
theorem readAs_udp (p : Packet UdpHeader) : ReadAs (.udp, p.bytes) ends ↔ ends = packetEnds p := by
  have hread (stale : List Byte) : readEnds .udp (p.bytes ++ stale) = packetEnds p := by
    rw [readEnds, p.retrieveIpUdpHeader_value stale]
    rfl
  exact ⟨fun h => h.elim fun stale hends => hends.symm.trans (hread stale),
    fun h => ⟨[], (hread []).trans h.symm⟩⟩

theorem retrieveIpHeader_packet {Transport : List Byte → Prop} (p : Packet Transport)
    (stale : List Byte) : (retrieveIpHeader (p.bytes ++ stale)).value = Iphdr.read p.ip := by
  simp only [retrieveIpHeader, Packet.bytes, List.append_assoc, p.ipHeader.ipPktLen, List.take_left]

/-- A packet carries its own payload. -/
theorem carries_udp (p : Packet UdpHeader) (hp : (Iphdr.read p.ip).protocol = 17) :
    Carries .udp p.bytes payload ↔ payload = p.payload := by
  have hsize (stale : List Byte) : packetHeaderSize .udp (p.bytes ++ stale) =
      (p.ip ++ p.transport).length := by
    have hudp : p.transport.length = udpHdrLen := p.transportHeader
    rw [packetHeaderSize, udpPacketHeaderSize, List.length_append, hudp]
    simp only [Packet.bytes, List.append_assoc, p.ipHeader.ipPktLen]
  have hdrop : p.bytes.drop (p.ip ++ p.transport).length = p.payload := by
    rw [Packet.bytes, ← List.append_assoc, List.drop_left]
  constructor
  · intro h
    obtain ⟨stale, _, _, rfl⟩ := h
    rw [hsize, hdrop]
  · rintro rfl
    refine ⟨[], ?_, ?_, ?_⟩
    · rw [retrieveIpHeader_packet, hp]
      rfl
    · rw [hsize, Packet.bytes, ← List.append_assoc]
      exact (List.sublist_append_left _ _).length_le
    · rw [hsize, hdrop]

end Packets

def Genuine : Model.Task φ → Prop
  | .exitingTcp pkt pktLen ce _ => pktLen ≤ pkt.length ∧
    ce = headerEntry (retrieveHeader pkt) .tcp ∧
    connType (retrieveIpUdpHeader (pkt.drop headerSize)).value.1.protocol = .tcp
  | .exitingUdp pkt pktLen ce _ => pktLen ≤ pkt.length ∧
    ce = headerEntry (retrieveHeader pkt) .udp ∧
    connType (retrieveIpUdpHeader (pkt.drop headerSize)).value.1.protocol = .udp

def taskFrame : Model.Task φ → List Byte
  | .exitingTcp pkt pktLen .. => pkt.take pktLen
  | .exitingUdp pkt pktLen .. => pkt.take pktLen

section Exiting
variable {self : Self} {pkt : List Byte} {pktLen : Nat}

/-- The forged datagram, as much of it as its header says. -/
theorem forged_packet (data : List Byte) (n : Nat) (sourceIp destIp : String)
    (sourcePort destPort : BitVec 16) (datagram : List Byte) (hn : 28 + n < bufferSize) :
    let forged := forgeIpUdpPkt data n sourceIp destIp sourcePort destPort datagram
    ∃ p : Packet UdpHeader, p.bytes = forged.take (read16 forged 2).toNat ∧
      p.payload = strncpy data n ∧
      packetEnds p = ⟨inetAddr sourceIp, inetAddr destIp, htons sourcePort, htons destPort⟩ := by
  have hlayout := Checksum.forged_layout data n sourceIp destIp sourcePort destPort datagram
    (Nat.le_of_lt hn)
  generalize hip : Checksum.checkedIp (forgedIphdr n sourceIp destIp)
    (Checksum.ipCheck data n sourceIp destIp datagram) = iph at hlayout
  generalize hudp : Checksum.checkedUdp (forgedUdphdr n sourcePort destPort)
    (Checksum.udpCheck data n sourceIp destIp sourcePort destPort) = udph at hlayout
  have hread := Checksum.iphdr_read_bytes iph []
  rw [List.append_nil] at hread
  have hreadUdp := Checksum.udphdr_read_bytes udph []
  rw [List.append_nil] at hreadUdp
  have hihl : iph.ihl = 5 := by
    rw [← hip]
    rfl
  have htot : iph.totLen.toNat = 28 + n := by
    rw [← hip]
    exact Nat.mod_eq_of_lt hn
  have hlen : read16 (iph.bytes ++ (udph.bytes ++ (strncpy data n ++ Checksum.stale n datagram))) 2 =
      iph.totLen := congrArg Iphdr.totLen (Checksum.iphdr_read_bytes iph _)
  have hheader : IpHeader iph.bytes := by
    refine ⟨?_, ?_⟩
    · rw [hread, hihl]
      decide
    · rw [hread, hihl]
      rfl
  refine ⟨⟨iph.bytes, udph.bytes, strncpy data n, hheader, rfl⟩, ?_, rfl, ?_⟩
  · rw [hlayout, hlen, htot, ← List.append_assoc, ← List.append_assoc]
    have hfront : (iph.bytes ++ udph.bytes ++ strncpy data n).length = 28 + n := by
      rw [List.length_append, strncpy_length]
      rfl
    rw [List.take_left' hfront, List.append_assoc]
    rfl
  · have hsaddr : read32 iph.bytes 12 = iph.saddr := congrArg Iphdr.saddr hread
    have hdaddr : read32 iph.bytes 16 = iph.daddr := congrArg Iphdr.daddr hread
    have hsource : read16 udph.bytes 0 = udph.source := congrArg Udphdr.source hreadUdp
    have hdest : read16 udph.bytes 2 = udph.dest := congrArg Udphdr.dest hreadUdp
    change (⟨read32 iph.bytes 12, read32 iph.bytes 16, read16 udph.bytes 0, read16 udph.bytes 2⟩ :
      Ends) = _
    rw [hsaddr, hdaddr, hsource, hdest, ← hip, ← hudp]
    rfl

/-- A frame that is longer than the headers at its front. -/
theorem frame_split (hlen : pktLen ≤ pkt.length) (hlong : headerSize ≤ pktLen) :
    pkt.drop headerSize = (pkt.take pktLen).drop headerSize ++ pkt.drop pktLen ∧
      ((pkt.take pktLen).drop headerSize).length = pktLen - headerSize ∧
      retrieveHeader pkt = retrieveHeader (pkt.take pktLen) := by
  have htake : (pkt.take pktLen).length = pktLen := by
    rw [List.length_take, Nat.min_eq_left hlen]
  refine ⟨?_, ?_, ?_⟩
  · have hsplit := congrArg (List.drop headerSize) (List.take_append_drop pktLen pkt)
    rw [List.drop_append_of_le_length (hlong.trans_eq htake.symm)] at hsplit
    exact hsplit.symm
  · rw [List.length_drop, htake]
  · rw [retrieveHeader, retrieveHeader, List.take_take, Nat.min_eq_left hlong]

/-- When the length of the payload has not wrapped, the payload is behind the headers
of the packet in the frame. -/
theorem carries_frame {prt : ProtocolType} (hlen : pktLen ≤ pkt.length)
    (hprt : connType (retrieveIpHeader (pkt.drop headerSize)).value.protocol = prt)
    (hsize : headerSize + packetHeaderSize prt (pkt.drop headerSize) ≤ pktLen) :
    Carries prt ((pkt.take pktLen).drop headerSize)
      ((pkt.take pktLen).drop (headerSize + packetHeaderSize prt (pkt.drop headerSize))) := by
  have hlong : headerSize ≤ pktLen := (Nat.le_add_right ..).trans hsize
  obtain ⟨hsplit, hlength, _⟩ := frame_split hlen hlong
  refine ⟨pkt.drop pktLen, ?_, ?_, ?_⟩
  · rw [← hsplit]
    exact hprt
  · rw [← hsplit, hlength]
    omega
  · rw [← hsplit, List.drop_drop]

theorem packetHeaderSize_le (prt : ProtocolType) (m : List Byte) : packetHeaderSize prt m ≤ 120 := by
  have hihl := ((Iphdr.read (m.take ipHdrLen)).ihl).isLt
  have hdoff := ((Tcphdr.read ((m.drop (ipPktLen m)).take tcpHdrLen)).doff).isLt
  cases prt with
  | tcp =>
    rw [packetHeaderSize, tcpPacketHeaderSize, ipPktLen, tcpPktLen]
    omega
  | udp =>
    rw [packetHeaderSize, udpPacketHeaderSize, ipPktLen, udpHdrLen]
    omega

/-- A length below half of what a `size_t` holds has not wrapped. -/
theorem payload_behind (prt : ProtocolType) (hlen : pktLen ≤ pkt.length)
    (hfits : (pkt.take pktLen).length ≤ bufferSize) :
    let pktCalc := headerSize + packetHeaderSize prt (pkt.drop headerSize)
    let size := (Egress.payloadLen pktLen pktCalc).toNat
    size < 2^63 → pktCalc ≤ pktLen ∧ size = pktLen - pktCalc := by
  intro pktCalc size hsmall
  have hcalc : pktCalc ≤ 144 :=
    Nat.add_le_add_left (packetHeaderSize_le prt (pkt.drop headerSize)) headerSize
  rw [List.length_take, Nat.min_eq_left hlen, bufferSize] at hfits
  have hsize : size = (2^64 - pktCalc % 2^64 + pktLen % 2^64) % 2^64 :=
    (BitVec.toNat_sub ..).trans (by rw [BitVec.toNat_ofNat, BitVec.toNat_ofNat])
  omega

/-- `strncpy` copies of the buffer what it copies of the payload at its front. -/
theorem strncpy_payload (off : Nat) (hlen : pktLen ≤ pkt.length) :
    strncpy (pkt.drop off) (pktLen - off) =
      strncpy ((pkt.take pktLen).drop off) ((pkt.take pktLen).drop off).length := by
  have hlength : ((pkt.take pktLen).drop off).length = pktLen - off := by
    rw [List.length_drop, List.length_take, Nat.min_eq_left hlen]
  rw [hlength, strncpy, strncpy, List.drop_take, List.take_take, Nat.min_self]

/-- What the UDP task sends for a frame. -/
theorem exits_udp (datagram : List Byte) (hlen : pktLen ≤ pkt.length)
    (hprt : connType (retrieveIpUdpHeader (pkt.drop headerSize)).value.1.protocol = .udp) :
    let pktCalc := headerSize + udpPacketHeaderSize (pkt.drop headerSize)
    let ce := headerEntry (retrieveHeader pkt) .udp
    let dataLen := (Egress.payloadLen pktLen pktCalc).toNat
    let forged := forgeIpUdpPkt (pkt.drop pktCalc) dataLen self.myIp ce.ipDst self.extPort
      ce.portDst datagram
    ipHdrLen + udpHdrLen + dataLen ≤ bufferSize →
      Exits self (pkt.take pktLen) (.datagram (forged.take (read16 forged 2).toNat)
        ⟨2, htons (retrieveHeader pkt).destinationPort, (retrieveHeader pkt).destinationAddress⟩) := by
  intro pktCalc ce dataLen forged hroom hfits
  have hsmall : dataLen < 2^63 := by
    rw [bufferSize] at hroom
    omega
  obtain ⟨hoff, hdata⟩ : pktCalc ≤ pktLen ∧ dataLen = pktLen - pktCalc :=
    payload_behind .udp hlen hfits hsmall
  rw [List.length_take, Nat.min_eq_left hlen] at hfits
  have hlong : headerSize ≤ pktLen := (Nat.le_add_right ..).trans hoff
  obtain ⟨_, _, hheader⟩ := frame_split hlen hlong
  have hheaders : headerSize + udpHdrLen ≤ pktCalc :=
    Nat.add_le_add_left (Nat.le_add_left ..) headerSize
  obtain ⟨q, hqbytes, hqpayload, hqends⟩ := forged_packet (pkt.drop pktCalc) dataLen self.myIp
    ce.ipDst self.extPort ce.portDst datagram (by
      rw [headerSize, udpHdrLen] at hheaders
      rw [bufferSize] at hfits ⊢
      omega)
  refine ⟨?_, _, carries_frame hlen hprt hoff, ?_, q, hqbytes, ?_, ?_⟩
  · rwa [List.length_take, Nat.min_eq_left hlen]
  · rw [← hheader]
    rfl
  · rw [hqpayload, hdata]
    exact strncpy_payload _ hlen
  · rw [hqends, ← hheader]
    simp [ce, headerEntry, connectionEntry, headerEnds, intToIp]

/-- What the TCP task writes for a frame. -/
theorem exits_tcp (hlen : pktLen ≤ pkt.length)
    (hprt : connType (retrieveIpUdpHeader (pkt.drop headerSize)).value.1.protocol = .tcp) :
    let pktCalc := headerSize + tcpPacketHeaderSize (pkt.drop headerSize)
    let size := (Egress.payloadLen pktLen pktCalc).toNat
    size < 2^63 → Exits self (pkt.take pktLen) (.stream (strncpy (pkt.drop pktCalc) size)) := by
  intro pktCalc size hsmall hfits
  obtain ⟨hoff, hsize⟩ : pktCalc ≤ pktLen ∧ size = pktLen - pktCalc :=
    payload_behind .tcp hlen hfits hsmall
  refine ⟨?_, _, carries_frame hlen hprt hoff, ?_⟩
  · rw [List.length_take, Nat.min_eq_left hlen]
    exact (Nat.le_add_right ..).trans hoff
  · rw [hsize]
    exact strncpy_payload _ hlen

/-- Where the TCP task connects to for a frame. -/
theorem reaches_tcp (hlen : pktLen ≤ pkt.length)
    (hprt : connType (retrieveIpUdpHeader (pkt.drop headerSize)).value.1.protocol = .tcp)
    (hsmall : (Egress.payloadLen pktLen
      (headerSize + tcpPacketHeaderSize (pkt.drop headerSize))).toNat < 2^63) :
    Reaches (pkt.take pktLen) (destination (headerEnds (retrieveHeader pkt))) := by
  intro hfits
  obtain ⟨hoff, _⟩ := payload_behind .tcp hlen hfits hsmall
  obtain ⟨_, _, hheader⟩ := frame_split hlen ((Nat.le_add_right ..).trans hoff)
  exact ⟨⟨_, carries_frame hlen hprt hoff⟩, by rw [hheader]⟩

end Exiting

section Tasks
variable [Descriptor φ] (self : Self)

/-- A task sends one thing at most, and makes it of its frame. -/
theorem task_passes {task : Model.Task φ} (h : Genuine task) (datagram buffer : List Byte)
    (fuel : Nat) :
    Passes takesNothing writesOn (fun frame w => Exits self frame w.2)
      (Egress.start self (.task task datagram buffer fuel)) (some (taskFrame task)) := by
  cases task with
  | exitingTcp pkt pktLen ce socket =>
    obtain ⟨hlen, rfl, hprt⟩ := h
    change Passes _ _ _ (Egress.manageExitingTcpPackets ..) _
    rw [Egress.manageExitingTcpPackets]
    split
    · trivial
    · rename_i hsmall
      refine Passes.after (all_quiet (Egress.destination_all (P := fun o => writesOn o = none)
        (fun _ _ => rfl) fun _ _ => rfl)) fun s _ _ => ⟨fun out hout => ?_, fun _ => ?_⟩
      · cases hout
        exact ⟨_, rfl, exits_tcp hlen hprt (Nat.lt_of_not_le hsmall)⟩
      · exact passes_of_all (all_quiet (Egress.exitingTcpLoop_all (P := fun o => writesOn o = none) self
          _ s rfl (fun _ => rfl) (fun _ _ _ => rfl) fuel buffer))
  | exitingUdp pkt pktLen ce sock =>
    obtain ⟨hlen, rfl, hprt⟩ := h
    refine Passes.after (all_quiet (Egress.openSender_all (P := fun o => writesOn o = none) rfl))
      fun s _ _ => ?_
    dsimp only
    split
    · trivial
    · rename_i hroom
      refine Passes.after (all_quiet (Egress.openListener_all (P := fun o => writesOn o = none) self
        rfl (fun _ _ => rfl) fun _ => rfl)) fun r _ _ => ⟨fun out hout => ?_, fun sent => ?_⟩
      · cases hout
        exact ⟨_, rfl, exits_udp datagram hlen hprt (Nat.le_of_not_gt hroom)⟩
      · change Passes _ _ _ (if sent < 0 then _ else _) _
        split
        · trivial
        · refine passes_of_all (all_quiet ?_)
          exact (updateEntry_all (P := fun o => writesOn o = none) rfl).bind fun _ =>
            Egress.exitingUdpLoop_all (P := fun o => writesOn o = none) self _ r rfl (fun _ => rfl)
              (fun _ _ _ => rfl) fuel buffer

/-- A task opens one connection at most, to the destination of its frame. -/
theorem task_connects {task : Model.Task φ} (h : Genuine task) (datagram buffer : List Byte)
    (fuel : Nat) :
    Passes takesNothing connects Reaches (Egress.start self (.task task datagram buffer fuel))
      (some (taskFrame task)) := by
  cases task with
  | exitingTcp pkt pktLen ce socket =>
    obtain ⟨hlen, rfl, hprt⟩ := h
    change Passes _ _ _ (Egress.manageExitingTcpPackets ..) _
    rw [Egress.manageExitingTcpPackets]
    split
    · trivial
    · rename_i hsmall
      refine Passes.bind ?_ fun s => passes_of_all (all_quiet ⟨rfl, fun _ => ?_⟩)
      · by_cases hs : Descriptor.num socket = -1
        · rw [Egress.destination_new _ _ _ hs]
          refine ⟨fun server hserver => ?_, fun reply => ?_⟩
          · cases hserver
            exact ⟨_, rfl, reaches_tcp hlen hprt (Nat.lt_of_not_le hsmall)⟩
          · cases reply with
            | none => trivial
            | some new =>
              refine passes_of_all (all_quiet ?_)
              exact (updateEntry_all (P := fun o => connects o = none) rfl).bind fun _ => trivial
        · rw [Egress.destination_known _ _ _ hs]
          trivial
      · exact Egress.exitingTcpLoop_all (P := fun o => connects o = none) self _ s rfl
          (fun _ => rfl) (fun _ _ _ => rfl) fuel buffer
  | exitingUdp pkt pktLen ce sock =>
    refine passes_of_all (all_quiet ?_)
    refine (Egress.openSender_all (P := fun o => connects o = none) rfl).bind fun s => ?_
    dsimp only
    split
    · trivial
    · refine (Egress.openListener_all (P := fun o => connects o = none) self rfl
        (fun _ _ => rfl) fun _ => rfl).bind fun r => ⟨rfl, fun sent => ?_⟩
      change Prog.All _ (if sent < 0 then _ else _)
      split
      · trivial
      · exact (updateEntry_all (P := fun o => connects o = none) rfl).bind fun _ =>
          Egress.exitingUdpLoop_all (P := fun o => connects o = none) self _ r rfl (fun _ => rfl)
            (fun _ _ _ => rfl) fuel buffer

end Tasks

def StartsGenuine : Op φ → Prop
  | .goAsync task => Genuine task
  | _ => True

theorem egress_startsGenuine {args : UdpArgs φ} (hlen : args.pktLen ≤ args.pkt.length) :
    (Egress.managePktFromChain args).All StartsGenuine := by
  refine ⟨trivial, fun _ => ?_⟩
  refine (checked_all _).bind_runs fun headers es hread => ⟨trivial, fun sock => ?_⟩
  rw [runs_checked hread]
  dsimp only
  split
  · rename_i hprt
    exact ⟨⟨hlen, by rw [hprt], hprt⟩, fun _ => trivial⟩
  · rename_i hprt
    exact ⟨⟨hlen, by rw [hprt], hprt⟩, fun _ => trivial⟩

end Ironhide.Proofs.Translation
